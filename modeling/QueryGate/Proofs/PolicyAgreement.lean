import QueryGate.Proofs.RowCap

namespace QueryGate

open Sql

/-!
# Where limit policies differ

Three gates that differ in their limit policy alone look at a limit in two places: when they ask
whether it is in excess, and when they rewrite the statement.  They differ only where a statement
carries an explicit count above the maximum:

* `Gate.withPolicy` — a gate with another policy;
* `RowLimit.enforce_congr` — the rewrite of a text that carries no such count;
* `RowLimit.enforce_clamp_ne` — the rewrite of one that does, where counts are clamped;
* `Gate.prepareWithin_congr` / `Gate.prepareWithin_preserve` / `Gate.prepareWithin_reject` /
  `Gate.prepareWithin_clamp_ne` — what the gates make of it;
* `Gate.policies_differ_on_excess` — both together.
-/

/-- The gate with another policy for explicit limits. -/
def Gate.withPolicy (g : Gate) (policy : LimitPolicy) : Gate :=
  ⟨{ g.settings with limitPolicy := policy }⟩

/-- A text carries an explicit count above a maximum. -/
def ExceedsLimit (d : Dialect) (m : Nat) (st : List Char) : Prop :=
  ∃ n, explicitLimit d st = .rows n ∧ m < n

variable {d : Dialect} {m : Nat} {st : List Char} {ts : List Token}

/-! ### Rewriting -/

namespace RowLimit

/-- Policies rewrite a text in the same way if it carries no count above the maximum. -/
theorem enforce_congr (p q : LimitPolicy) (h : Ready st) (hts : tokens d st = .ok ts)
    (hlimit : ¬ExceedsLimit d (max 1 m) st) : enforce d p m st = enforce d q m st := by
  have hread := explicitLimit_of_ready h hts
  obtain ⟨placed, hscan, rfl⟩ := (tokens_eq_ok_iff_scan d st ts).mp hts
  simp only [enforce, h.withoutTrailingSemicolons_eq, hscan]
  cases hcap : findCap d (placed.map Placed.token) with
  | absent => rfl
  | unbounded => rfl
  | rows n position =>
    have hn : ¬n > max 1 m := fun hn => hlimit ⟨n, by rw [hread, hcap]; rfl, hn⟩
    cases position with
    | none => rfl
    | some i =>
      simp only
      rw [if_neg fun hand => hn hand.2, if_neg fun hand => hn hand.2]

/-- Where counts are clamped, a count above the maximum does not stay. -/
theorem enforce_clamp_ne (h : Ready st) (hts : tokens d st = .ok ts)
    (hlimit : ExceedsLimit d (max 1 m) st) : (enforce d .clamp m st).value ≠ st := by
  obtain ⟨n, hn, hlt⟩ := hlimit
  rw [explicitLimit_of_ready h hts] at hn
  obtain ⟨position, hcap⟩ := exists_rows_of_limit hn
  obtain ⟨before, text, long, behind, hsplit, hread, -, -, hout⟩ := tokens_clamped h hts hcap hlt
  intro hsame
  rw [hsame, hts, hsplit] at hout
  -- the tokens of both texts are the same, and so are their counts
  have htail := List.append_cancel_left (Except.ok.inj hout)
  obtain ⟨htext, -⟩ := Token.number.inj (List.cons_eq_cons.mp htail).1
  have hmax : max 1 m < Text.countBound := by
    have hbound := lt_countBound_of_readCount? hread
    omega
  rw [htext, readCount?_digits hmax] at hread
  cases hread
  omega

end RowLimit

/-! ### Deciding -/

namespace Gate

variable {g : Gate} {allowed : AllowList} {maxRows n : Nat} {sql : List Char} {policy : LimitPolicy}

/-- What the rules let through is read without a failure, also where it is rewritten. -/
theorem scan_of_check (h : g.rules.check allowed sql = .ok st) :
    ∃ placed, scan g.dialect (withoutTrailingSemicolons st) = .ok placed := by
  obtain ⟨-, hmeets⟩ := (g.rules.check_eq_ok_iff _ _ _).mp h
  obtain ⟨ts, hts, -⟩ := hmeets.readable
  obtain ⟨placed, hscan, -⟩ := (tokens_eq_ok_iff_scan g.dialect st ts).mp hts
  rw [(Rules.ready_of_check h).withoutTrailingSemicolons_eq]
  exact ⟨placed, hscan⟩

/-- The limit of a text is in excess only if limits are rejected and its count is above the
    maximum. -/
theorem excess?_of_within (h : ¬ExceedsLimit g.dialect m st) : g.excess? m st = none := by
  rw [excess?]
  split
  · split
    · next n hn => exact if_neg fun hlt => h ⟨n, hn, hlt⟩
    · rfl
  · rfl

/-- A statement that carries no count above the maximum is decided alike. -/
theorem prepareWithin_congr (p q : LimitPolicy)
    (h : ∀ st, g.rules.check allowed sql = .ok st → ¬ExceedsLimit g.dialect (max 1 maxRows) st) :
    (g.withPolicy p).prepareWithin allowed maxRows sql =
      (g.withPolicy q).prepareWithin allowed maxRows sql := by
  have hrules : ∀ policy, (g.withPolicy policy).rules = g.rules := fun _ => rfl
  simp only [prepareWithin, hrules]
  cases hcheck : g.rules.check allowed sql with
  | error r => cases r <;> rfl
  | ok st =>
    have hlimit := h st hcheck
    -- nothing exceeds the cap, so no policy refuses
    have hexcess : ∀ policy, (g.withPolicy policy).excess? (max 1 maxRows) st = none :=
      fun policy => excess?_of_within (g := g.withPolicy policy) hlimit
    have hready := Rules.ready_of_check hcheck
    obtain ⟨-, hmeets⟩ := (g.rules.check_eq_ok_iff _ _ _).mp hcheck
    obtain ⟨ts, hts, -⟩ := hmeets.readable
    -- and no policy lowers a count
    have hmax : max 1 (max 1 maxRows) = max 1 maxRows := by omega
    have hlimited : (g.withPolicy p).capRows (max 1 maxRows) st =
        (g.withPolicy q).capRows (max 1 maxRows) st :=
      RowLimit.enforce_congr p q hready hts (by rwa [hmax])
    simp only [hexcess, capAndRecheck, hlimited]
    rfl

/-- Where limits are preserved, a statement is accepted as it is if it carries a count. -/
theorem prepareWithin_preserve (hcheck : g.rules.check allowed sql = .ok st)
    (hcount : explicitLimit g.dialect st = .rows n) :
    ((g.withPolicy .preserve).prepareWithin allowed maxRows sql).value = .accepted st := by
  have hready := Rules.ready_of_check hcheck
  obtain ⟨-, hmeets⟩ := (g.rules.check_eq_ok_iff _ _ _).mp hcheck
  obtain ⟨ts, hts, -⟩ := hmeets.readable
  obtain ⟨position, hcap⟩ := exists_rows_of_limit ((explicitLimit_of_ready hready hts).symm.trans hcount)
  have hkept : ((g.withPolicy .preserve).capRows (max 1 maxRows) st).value = st :=
    RowLimit.enforce_kept hready hts hcap nofun
  rw [prepareWithin_eq_accepted_iff]
  exact ⟨st, hcheck, rfl, hkept.symm, Rules.check_of_check hcheck⟩

/-- Where limits are rejected, a count above the maximum is named with the maximum. -/
theorem prepareWithin_reject (hcheck : g.rules.check allowed sql = .ok st)
    (hcount : explicitLimit g.dialect st = .rows n) (hlt : max 1 maxRows < n) :
    ((g.withPolicy .reject).prepareWithin allowed maxRows sql).value =
      .rejected (.limitExceeded n (max 1 maxRows)) := by
  have hrules : (g.withPolicy .reject).rules.check allowed sql = .ok st := hcheck
  have hexcess : (g.withPolicy .reject).excess? (max 1 maxRows) st = some n := by
    have hpolicy : (g.withPolicy .reject).settings.limitPolicy = .reject := rfl
    have hcount' : explicitLimit (g.withPolicy .reject).dialect st = .rows n := hcount
    rw [excess?, if_pos hpolicy, hcount']
    exact if_pos hlt
  simp only [prepareWithin, hrules, hexcess]
  rfl

/-- Where counts are clamped, a statement with a count above the maximum is not accepted as it is. -/
theorem prepareWithin_clamp_ne (hcheck : g.rules.check allowed sql = .ok st)
    (hlimit : ExceedsLimit g.dialect (max 1 maxRows) st) :
    ((g.withPolicy .clamp).prepareWithin allowed maxRows sql).value ≠ .accepted st := by
  intro haccepted
  obtain ⟨st', hcheck', -, hout, -⟩ := (prepareWithin_eq_accepted_iff _ _ _ _ _).mp haccepted
  obtain rfl : st = st' := Except.ok.inj (hcheck.symm.trans hcheck')
  obtain ⟨-, hmeets⟩ := (g.rules.check_eq_ok_iff _ _ _).mp hcheck
  obtain ⟨ts, hts, -⟩ := hmeets.readable
  have hmax : max 1 (max 1 maxRows) = max 1 maxRows := by omega
  exact RowLimit.enforce_clamp_ne (Rules.ready_of_check hcheck) hts (by rwa [hmax]) hout.symm

/-- **Where limit policies differ.** Let `st` be what the rules let through.  If it carries no count
    above the maximum, three gates that differ in their policy alone decide alike.  If it carries
    one, it is accepted as it is, rejected with the count and the maximum, or not accepted as it is.
    In no case is it a text that the rewrite cannot read. -/
theorem policies_differ_on_excess (g : Gate) (allowed : AllowList) (maxRows : Nat) (sql : List Char) :
    (∀ policy st, ((g.withPolicy policy).validate allowed sql).value = .accepted st ↔
      (g.validate allowed sql).value = .accepted st) ∧
    ((∀ st, (g.validate allowed sql).value = .accepted st →
        ¬ExceedsLimit g.dialect (max 1 maxRows) st) →
      ∀ p q, (g.withPolicy p).prepareWithin allowed maxRows sql =
        (g.withPolicy q).prepareWithin allowed maxRows sql) ∧
    ∀ st, (g.validate allowed sql).value = .accepted st →
      (∃ placed, scan g.dialect (withoutTrailingSemicolons st) = .ok placed) ∧
      ∀ n, explicitLimit g.dialect st = .rows n → max 1 maxRows < n →
        ((g.withPolicy .preserve).prepareWithin allowed maxRows sql).value = .accepted st ∧
        ((g.withPolicy .reject).prepareWithin allowed maxRows sql).value =
          .rejected (.limitExceeded n (max 1 maxRows)) ∧
        ((g.withPolicy .clamp).prepareWithin allowed maxRows sql).value ≠ .accepted st := by
  simp only [validate_eq_accepted_iff]
  refine ⟨fun _ _ => Iff.rfl, fun h p q => prepareWithin_congr p q h, fun st hcheck => ?_⟩
  refine ⟨scan_of_check hcheck, fun n hcount hlt => ?_⟩
  exact ⟨prepareWithin_preserve hcheck hcount, prepareWithin_reject hcheck hcount hlt,
    prepareWithin_clamp_ne hcheck ⟨n, hcount, hlt⟩⟩

end Gate

end QueryGate
