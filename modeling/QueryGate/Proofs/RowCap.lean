import QueryGate.Proofs.Acceptance
import QueryGate.Proofs.Lexing.Rewritten

namespace QueryGate

open Sql

/-!
# The cap of an accepted statement

A gate caps what it accepts by a rewrite of the text, and nothing but the search for a limit sees
whether the rewrite worked.  Here the rewritten text is read again:

* `explicitLimit_append` / `explicitLimit_wrap` — the limit of a text that another one was put
  behind, as it stands or as a derived table;
* `RowLimit.explicitLimit_clamped` — the limit of a text in which a count was replaced;
* `Cappable` — the texts that a cap reaches, and `cappable_iff`, that their rewrites are limited;
* `Gate.accepted_of_count` — a text with an admitted count is accepted as it stands;
* `Gate.accepted_capped_iff` — the text that a statement is accepted as is capped iff a cap reaches
  the statement.
-/

variable {d : Dialect} {policy : LimitPolicy} {m n : Nat} {st : List Char} {ts : List Token}

/-! ### Limits behind texts -/

/-- The limit of a ready text is that of its tokens. -/
theorem explicitLimit_of_ready (h : Ready st) (hts : tokens d st = .ok ts) :
    explicitLimit d st = (findCap d ts).limit := by
  unfold explicitLimit
  rw [h.withoutTrailingSemicolons_eq, hts]

/-- Tokens without a limit that show one behind them: no parenthesis is open there, and no dashes
    make a comment of it. -/
structure ShowsLimit (d : Dialect) (ts : List Token) : Prop where
  absent : findCap d ts = .absent
  closed : nesting 0 ts = 0
  firm : ¬Dangling d ts

/-- **Appending.** A text without a limit has the one that is put behind it iff its tokens show
    it, and none otherwise. -/
theorem explicitLimit_append (h : Ready st) (hne : st ≠ []) (hts : tokens d st = .ok ts)
    (habsent : findCap d ts = .absent) (hm : m < Text.countBound) :
    (ShowsLimit d ts → explicitLimit d (RowLimit.append st m (endsInLineComment ts)) = .rows m) ∧
      (¬ShowsLimit d ts →
        explicitLimit d (RowLimit.append st m (endsInLineComment ts)) = .absent) := by
  have hready : Ready (RowLimit.append st m (endsInLineComment ts)) :=
    RowLimit.append_ready h hne _
  -- behind two dashes the clause would be part of a comment
  by_cases hdangling : Dangling d ts
  · refine ⟨fun hshows => absurd hdangling hshows.firm, fun _ => ?_⟩
    obtain ⟨us, text, rfl, hout⟩ := tokens_append_dangling hts hdangling m
    have hus : findCap d us = .absent := findCap_absent_of_append habsent
    have hgap : significantTokens (us ++ [Token.blank (.lineComment text)]) = significantTokens us := by
      refine significantTokens_gap (fun t ht => ?_) us
      rw [List.mem_singleton.mp ht]
      rfl
    rw [explicitLimit_of_ready hready hout, findCap, hgap, ← findCap, hus]
    rfl
  -- otherwise the clause is read; it is seen if no parenthesis is open
  · obtain ⟨us, hus, hout⟩ := tokens_append hts hdangling m
    have habsent' : findCap d us = .absent := by rw [findCap, hus, ← findCap, habsent]
    have hlimit := findCap_behind_absent habsent' (readCount?_digits hm)
    rw [nesting_eq hus] at hlimit
    rw [explicitLimit_of_ready hready hout, hlimit]
    refine ⟨fun hshows => if_pos hshows.closed, fun hhides => if_neg fun hclosed => ?_⟩
    exact hhides ⟨habsent, hclosed, hdangling⟩

/-- **Wrapping.** What the limit behind a derived table is depends on the tokens of the table: a
    count among them stays, and no limit among them shows the one behind them, if it is shown. -/
theorem explicitLimit_wrap (h : Ready st) (hts : tokens d st = .ok ts) (hm : m < Text.countBound) :
    ∃ us, tokens d (derivedTable st (endsInLineComment ts)) = .ok us ∧
      (ShowsLimit d us → explicitLimit d (RowLimit.wrap st m (endsInLineComment ts)) = .rows m) ∧
      (¬ShowsLimit d us →
        explicitLimit d (RowLimit.wrap st m (endsInLineComment ts)) = (findCap d us).limit) := by
  obtain ⟨us, hus⟩ := tokens_derivedTable hts
  have hready : Ready (RowLimit.wrap st m (endsInLineComment ts)) := RowLimit.wrap_ready h _
  -- a derived table ends in its name
  have hfirm : ¬Dangling d (us ++ [Token.word "guarded_result" none]) := by
    rintro ⟨-, vs, hvs⟩
    rw [show vs ++ [Token.symbol "-", .symbol "-"] = vs ++ [Token.symbol "-"] ++ [Token.symbol "-"] by
      simp] at hvs
    cases (List.append_inj_right' hvs rfl)
  have hcomment : endsInLineComment (us ++ [Token.word "guarded_result" none]) = false := by
    simp [endsInLineComment]
  have hlast : ∀ text long i, (significantTokens (us ++ [Token.word "guarded_result" none])).getLast?
      ≠ some (.number text long, i) := by
    intro text long i
    rw [significantTokens_append]
    simp [Token.isTrivia]
  obtain ⟨vs, hvs, hout⟩ := tokens_append hus hfirm m
  rw [hcomment, ← wrap_eq_append] at hout
  refine ⟨_, hus, ?_⟩
  rw [explicitLimit_of_ready hready hout]
  have hcap : ∀ cap, findCap d (us ++ [Token.word "guarded_result" none]) = cap → findCap d vs = cap := by
    rintro cap rfl
    rw [findCap, hvs, ← findCap]
  cases htable : findCap d (us ++ [Token.word "guarded_result" none]) with
  | absent =>
    rw [findCap_behind_absent (hcap _ htable) (readCount?_digits hm), nesting_eq hvs]
    refine ⟨fun hshows => if_pos hshows.closed, fun hhides => if_neg fun hclosed => ?_⟩
    exact hhides ⟨htable, hclosed, hfirm⟩
  | unbounded =>
    rw [findCap_behind_unbounded (hcap _ htable)]
    refine ⟨fun hshows => ?_, fun _ => rfl⟩
    rw [hshows.absent] at htable
    cases htable
  | rows n position =>
    rw [← hvs] at hlast
    rw [findCap_behind_rows hlast (hcap _ htable)]
    refine ⟨fun hshows => ?_, fun _ => rfl⟩
    rw [hshows.absent] at htable
    cases htable

/-! ### Limits in the place of others -/

namespace RowLimit

open Lexer (written)

/-- What a span covers is replaced where it stands. -/
theorem replaceNumber?_after (a b : List Char) (written : String) (m : Nat) :
    replaceNumber? (a ++ written.toList ++ b)
        ⟨Location.origin.after a, Location.origin.after (a ++ written.toList)⟩ written m
      = some (a ++ digits m ++ b) := by
  have hfront : splitAtByte? (byteLength a) (a ++ written.toList ++ b)
      = some (a, written.toList ++ b) :=
    (splitAtByte?_eq_some_iff _ _ _ _).mpr ⟨List.append_assoc _ _ _, rfl⟩
  have hnumber : splitAtByte? (byteLength written.toList) (written.toList ++ b)
      = some (written.toList, b) :=
    (splitAtByte?_eq_some_iff _ _ _ _).mpr ⟨rfl, rfl⟩
  simp only [replaceNumber?, byteRange?_after, Option.bind_eq_bind, Option.bind_some, hfront,
    Nat.add_sub_cancel_left, hnumber, if_true]
  rfl

/-- The tokens of a text in which a count above the maximum gives way to the maximum. -/
theorem tokens_clamped {position : Option Nat} (h : Ready st) (hts : tokens d st = .ok ts)
    (hcap : findCap d ts = .rows n position) (hn : max 1 m < n) :
    ∃ (before : List Token) (text : String) (long : Bool) (behind : List Token),
      ts = before ++ Token.number text long :: behind ∧
      Text.readCount? text = some n ∧
      (∀ t ∈ (before.filter fun t => !t.isTrivia).getLast?, leadsCount t = true) ∧
      (∀ text' long' n', Text.readCount? text' = some n' →
        findCap d (before ++ Token.number text' long' :: behind) = .rows n' position) ∧
      tokens d (enforce d .clamp m st).value
        = .ok (before ++ Token.number (String.ofList (digits (max 1 m))) false :: behind) := by
  cases position with
  | none =>
    -- a count that is not written is one and needs no clamping
    have hone := findCap_unwritten hcap
    omega
  | some i =>
    obtain ⟨placed, hscan, rfl⟩ := (tokens_eq_ok_iff_scan d st ts).mp hts
    obtain ⟨before, text, long, behind, hsplit, rfl, hread, hlead, hfollow, hreplace⟩ :=
      findCap_replace hcap
    obtain ⟨a, b, rfl, hplaced, hout⟩ := tokens_replace hscan hsplit hread hfollow
      (m := max 1 m) (by omega)
    -- the number is found at the span of its token
    have hnum : numberAt? placed before.length = some (Token.numberText text long,
        ⟨Location.origin.after a, Location.origin.after (a ++ written text long)⟩) := by
      rw [numberAt?, hplaced]
    have hclamped := enforce_clamped h hscan hcap rfl hn hnum
      (replaceNumber?_after a b (Token.numberText text long) (max 1 m))
    exact ⟨before, text, long, behind, hsplit, hread, hlead, hreplace, by rw [hclamped]; exact hout⟩

/-- **Clamping.** A count above the maximum gives way to the maximum. -/
theorem explicitLimit_clamped {position : Option Nat} (h : Ready st) (hne : st ≠ [])
    (hts : tokens d st = .ok ts) (hcap : findCap d ts = .rows n position) (hn : max 1 m < n) :
    explicitLimit d (enforce d .clamp m st).value = .rows (max 1 m) := by
  have hready : Ready (enforce d .clamp m st).value := enforce_ready d .clamp m h hne
  obtain ⟨before, text, long, behind, -, hread, -, hreplace, hout⟩ := tokens_clamped h hts hcap hn
  have hm : max 1 m < Text.countBound := hn.trans (lt_countBound_of_readCount? hread)
  rw [explicitLimit_of_ready hready hout, hreplace _ _ _ (readCount?_digits hm)]
  rfl

/-! ### The limit of a rewritten text -/

/-- **Counts.** The rewrite of a text that carries a count carries one, which is its own or the
    maximum, and not above the maximum where counts are clamped. -/
theorem explicitLimit_of_rows (policy : LimitPolicy) {position : Option Nat} (h : Ready st) (hne : st ≠ [])
    (hts : tokens d st = .ok ts) (hcap : findCap d ts = .rows n position) :
    ∃ k, explicitLimit d (enforce d policy m st).value = .rows k ∧
      (policy = .clamp → k ≤ max 1 m) ∧ (k = n ∨ k = max 1 m) := by
  by_cases hkeep : policy = .clamp → n ≤ max 1 m
  · refine ⟨n, ?_, hkeep, .inl rfl⟩
    rw [enforce_kept h hts hcap hkeep, explicitLimit_of_ready h hts, hcap]
    rfl
  · have hclamp : policy = .clamp ∧ max 1 m < n := by simpa using hkeep
    refine ⟨max 1 m, ?_, fun _ => Nat.le_refl _, .inr rfl⟩
    rw [hclamp.1]
    exact explicitLimit_clamped h hne hts hcap hclamp.2

/-- A rewrite that ends in no digit is that of a text that carries a count. -/
theorem exists_limit_of_last (policy : LimitPolicy) (h : Ready st) (hne : st ≠ [])
    (hts : tokens d st = .ok ts)
    (hlast : ∀ c ∈ (enforce d policy m st).value.getLast?, c.isDigit = false) :
    ∃ k, explicitLimit d (enforce d policy m st).value = .rows k := by
  -- a limit that is added ends in digits
  have hdigits : ∀ cs : List Char, ¬∀ c ∈ (cs ++ digits (max 1 m)).getLast?, c.isDigit = false := by
    intro cs hnot
    have hmem := List.getLast_mem (digits_ne_nil (max 1 m))
    rw [List.getLast?_append_of_ne_nil _ (digits_ne_nil _),
      List.getLast?_eq_some_getLast (digits_ne_nil _)] at hnot
    exact absurd (isDigit_of_mem_digits hmem) (Bool.eq_false_iff.mp (hnot _ rfl))
  cases hcap : findCap d ts with
  | absent =>
    rw [enforce_absent h hts hcap] at hlast
    exact absurd hlast (hdigits _)
  | unbounded =>
    rw [enforce_unbounded h hts hcap] at hlast
    exact absurd hlast (hdigits _)
  | rows n position =>
    obtain ⟨k, hk, -⟩ := explicitLimit_of_rows (m := m) policy h hne hts hcap
    exact ⟨k, hk⟩

/-- The rewrite of a text without a limit has one up to the maximum iff the tokens of the text show
    a limit behind them. -/
theorem explicitLimit_of_absent (h : Ready st) (hne : st ≠ []) (hts : tokens d st = .ok ts)
    (hcap : findCap d ts = .absent) (hm : max 1 m < Text.countBound) :
    (∃ k ≤ max 1 m, explicitLimit d (enforce d policy m st).value = .rows k) ↔
      ShowsLimit d ts := by
  obtain ⟨hshown, hhidden⟩ := explicitLimit_append h hne hts hcap hm
  rw [enforce_absent h hts hcap]
  refine ⟨?_, fun hshows => ⟨max 1 m, Nat.le_refl _, hshown hshows⟩⟩
  rintro ⟨k, -, hk⟩
  by_cases hshows : ShowsLimit d ts
  · exact hshows
  · rw [hhidden hshows] at hk
    cases hk

/-- The rewrite of a text without a bound has one up to the maximum iff the text as a derived table
    shows a limit behind it or has such a bound itself. -/
theorem explicitLimit_of_unbounded (policy : LimitPolicy) (h : Ready st) (hts : tokens d st = .ok ts)
    (hcap : findCap d ts = .unbounded) (hm : max 1 m < Text.countBound) :
    ∃ us, tokens d (derivedTable st (endsInLineComment ts)) = .ok us ∧
      ((∃ k ≤ max 1 m, explicitLimit d (enforce d policy m st).value = .rows k) ↔
        ShowsLimit d us ∨ ∃ k ≤ max 1 m, (findCap d us).limit = .rows k) := by
  obtain ⟨us, hus, hshown, hhidden⟩ := explicitLimit_wrap h hts hm
  refine ⟨us, hus, ?_⟩
  rw [enforce_unbounded h hts hcap]
  by_cases hshows : ShowsLimit d us
  · exact ⟨fun _ => .inl hshows, fun _ => ⟨max 1 m, Nat.le_refl _, hshown hshows⟩⟩
  · rw [hhidden hshows]
    refine ⟨.inr, ?_⟩
    rintro (hshows' | hk)
    · exact absurd hshows' hshows
    · exact hk

end RowLimit

/-! ### Capped statements -/

/-- The texts that a cap of `m` rows reaches: those that carry a count, those that show a limit
    behind them, and those without a bound that, as derived tables, show a limit behind them or
    carry a count up to `m`. -/
inductive Cappable (d : Dialect) (m : Nat) (st : List Char) (ts : List Token) : Prop
  | counted {n : Nat} {position : Option Nat} (h : findCap d ts = .rows n position)
  | shown (h : ShowsLimit d ts)
  | derived (h : findCap d ts = .unbounded) {us : List Token}
      (hus : tokens d (derivedTable st (endsInLineComment ts)) = .ok us)
      (hcap : ShowsLimit d us ∨ ∃ n ≤ m, (findCap d us).limit = .rows n)

/-- Where a text carries no count, a cap reaches it iff its rewrite has a limit up to the
    maximum. -/
theorem cappable_iff (policy : LimitPolicy) (h : Ready st) (hne : st ≠ []) (hts : tokens d st = .ok ts)
    (hcap : ∀ n position, findCap d ts ≠ .rows n position) (hm : max 1 m < Text.countBound) :
    Cappable d (max 1 m) st ts ↔
      ∃ k ≤ max 1 m, explicitLimit d (RowLimit.enforce d policy m st).value = .rows k := by
  cases hfound : findCap d ts with
  | rows n position => exact absurd hfound (hcap n position)
  | absent =>
    rw [RowLimit.explicitLimit_of_absent h hne hts hfound hm]
    -- of the three ways to be capped only the one for this limit can hold
    refine ⟨?_, .shown⟩
    rintro (hrows | hshows | hunbounded)
    · exact absurd hrows (hcap _ _)
    · exact hshows
    · rw [hfound] at hunbounded
      cases hunbounded
  | unbounded =>
    obtain ⟨us, hus, hiff⟩ := RowLimit.explicitLimit_of_unbounded policy h hts hfound hm
    rw [hiff]
    refine ⟨?_, .derived hfound hus⟩
    rintro (hrows | hshows | ⟨-, hus', hshows⟩)
    · exact absurd hrows (hcap _ _)
    · rw [hshows.absent] at hfound
      cases hfound
    · rw [hus] at hus'
      cases hus'
      exact hshows

namespace Gate

variable {g : Gate} {allowed : AllowList} {maxRows : Nat} {sql out : List Char}

/-- A cap of `n` rows on the text that a statement was accepted as: `n` is the limit that is seen
    there; it is above the maximum only where limits are preserved and the statement came with it;
    and the text is accepted as it stands. -/
structure Capped (g : Gate) (allowed : AllowList) (maxRows : Nat) (sql out : List Char)
    (n : Nat) : Prop where
  count : explicitLimit g.dialect out = .rows n
  bounded : g.settings.limitPolicy ≠ .preserve → n ≤ max 1 maxRows
  own : max 1 maxRows < n → explicitLimit g.dialect sql = .rows n
  stable : (g.prepareWithin allowed maxRows out).value = .accepted out

/-- A limit that is not in excess is not above the maximum where such limits are rejected. -/
theorem le_of_excess? (h : g.excess? m st = none) (hlimit : explicitLimit g.dialect st = .rows n)
    (hreject : g.settings.limitPolicy = .reject) : n ≤ m := by
  rw [excess?, if_pos hreject, hlimit] at h
  by_cases hn : n > m
  · simp [hn] at h
  · omega

/-- **Stability.** A text that the rules let through with a count that the policy admits is
    accepted as it stands. -/
theorem accepted_of_count (hcheck : g.rules.check allowed out = .ok out)
    (hcount : explicitLimit g.dialect out = .rows n)
    (hbound : g.settings.limitPolicy ≠ .preserve → n ≤ max 1 maxRows) :
    (g.prepareWithin allowed maxRows out).value = .accepted out := by
  have hready := Rules.ready_of_check hcheck
  obtain ⟨-, hmeets⟩ := (g.rules.check_eq_ok_iff _ _ _).mp hcheck
  obtain ⟨ts, hts, -⟩ := hmeets.readable
  -- nothing exceeds the maximum, whatever the policy
  have hexcess : g.excess? (max 1 maxRows) out = none := by
    unfold excess?
    rw [hcount]
    split
    · next hreject =>
      have hle : n ≤ max 1 maxRows := hbound (by rw [hreject]; decide)
      exact if_neg (by omega)
    · rfl
  -- so clamping has nothing to lower
  have hkeep : g.settings.limitPolicy = .clamp → n ≤ max 1 (max 1 maxRows) := by
    intro hclamp
    have hle : n ≤ max 1 maxRows := hbound (by rw [hclamp]; decide)
    omega
  have hlimit : (findCap g.dialect ts).limit = .rows n :=
    (explicitLimit_of_ready hready hts).symm.trans hcount
  obtain ⟨position, hcap⟩ := exists_rows_of_limit hlimit
  -- and the text is kept as it is
  have hkept : (g.capRows (max 1 maxRows) out).value = out :=
    RowLimit.enforce_kept hready hts hcap hkeep
  rw [g.prepareWithin_eq_accepted_iff]
  exact ⟨out, hcheck, hexcess, hkept.symm, hcheck⟩

/-- An accepted text that ends in no digit carries a count. -/
theorem limit_of_last (h : (g.prepareWithin allowed maxRows sql).value = .accepted out)
    (hlast : ∀ c ∈ out.getLast?, c.isDigit = false) : ∃ k, explicitLimit g.dialect out = .rows k := by
  obtain ⟨st, hcheck, -, rfl, -⟩ := (g.prepareWithin_eq_accepted_iff _ _ _ _).mp h
  have hready := Rules.ready_of_check hcheck
  have hne := Rules.ne_nil_of_check hcheck
  obtain ⟨rfl, hmeets⟩ := (g.rules.check_eq_ok_iff _ _ _).mp hcheck
  obtain ⟨ts, hts, -⟩ := hmeets.readable
  exact RowLimit.exists_limit_of_last _ hready hne hts hlast

/-- **The cap.** The text that a statement is accepted as is capped iff a cap reaches what the rules
    look at.  Where it does not, the accepted text has no limit that is seen there, or one without
    a bound, or a count above the maximum that the statement did not come with. -/
theorem accepted_capped_iff (hm : maxRows < Text.countBound)
    (h : (g.prepareWithin allowed maxRows sql).value = .accepted out) :
    ∃ ts, tokens g.dialect (g.rules.normalized sql) = .ok ts ∧
      ((∃ n, g.Capped allowed maxRows sql out n) ↔
        Cappable g.dialect (max 1 maxRows) (g.rules.normalized sql) ts) := by
  obtain ⟨st, hcheck, hexcess, hout, hagain⟩ := (g.prepareWithin_eq_accepted_iff _ _ _ _).mp h
  have hready := Rules.ready_of_check hcheck
  have hne := Rules.ne_nil_of_check hcheck
  obtain ⟨rfl, hmeets⟩ := (g.rules.check_eq_ok_iff _ _ _).mp hcheck
  obtain ⟨ts, hts, -⟩ := hmeets.readable
  change tokens g.dialect (g.rules.normalized sql) = .ok ts at hts
  refine ⟨ts, hts, ?_⟩
  have hmax : max 1 (max 1 maxRows) = max 1 maxRows := by omega
  have hbound : max 1 (max 1 maxRows) < Text.countBound := by
    have hone : 1 < Text.countBound := by decide
    omega
  have hst : explicitLimit g.dialect (g.rules.normalized sql) = (findCap g.dialect ts).limit :=
    explicitLimit_of_ready hready hts
  have hsql : explicitLimit g.dialect sql = (findCap g.dialect ts).limit := by
    rw [← hst, explicitLimit, explicitLimit, hready.withoutTrailingSemicolons_eq,
      g.rules.withoutTrailingSemicolons_of_normalized hready.unseparated]
  by_cases hcap : ∃ n position, findCap g.dialect ts = .rows n position
  · -- a count stays or gives way to the maximum
    obtain ⟨n, position, hcap⟩ := hcap
    refine ⟨fun _ => .counted hcap, fun _ => ?_⟩
    rw [hcap] at hst hsql
    obtain ⟨k, hk, hclamp, hkn⟩ := RowLimit.explicitLimit_of_rows
      g.settings.limitPolicy hready hne hts hcap
    rw [hmax] at hclamp hkn
    have hcount : explicitLimit g.dialect out = .rows k := by rw [hout, capRows, hk]
    have hle : g.settings.limitPolicy ≠ .preserve → k ≤ max 1 maxRows := by
      intro hpreserve
      cases hpolicy : g.settings.limitPolicy with
      | preserve => exact absurd hpolicy hpreserve
      | clamp => exact hclamp hpolicy
      | reject =>
        have hn := le_of_excess? hexcess hst hpolicy
        omega
    refine ⟨k, hcount, hle, fun hlt => ?_, accepted_of_count hagain hcount hle⟩
    obtain rfl : k = n := by omega
    exact hsql
  · -- a statement without a count gets one up to the maximum or none
    have hcap' : ∀ n position, findCap g.dialect ts ≠ .rows n position :=
      fun n position hrows => hcap ⟨n, position, hrows⟩
    have hiff := cappable_iff g.settings.limitPolicy hready hne hts hcap' hbound
    rw [hmax] at hiff
    have hcapped : (g.capRows (max 1 maxRows) (g.rules.normalized sql)).value = out := hout.symm
    rw [capRows] at hcapped
    rw [hiff, hcapped]
    constructor
    · rintro ⟨n, hn⟩
      refine ⟨n, ?_, hn.count⟩
      by_cases hlt : max 1 maxRows < n
      · have hown := hn.own hlt
        rw [hsql] at hown
        obtain ⟨position, hrows⟩ := exists_rows_of_limit hown
        exact absurd hrows (hcap' n position)
      · omega
    · rintro ⟨n, hn, hcount⟩
      exact ⟨n, hcount, fun _ => hn, fun hlt => absurd hn (by omega),
        accepted_of_count hagain hcount fun _ => hn⟩

end Gate

/-! ### A limited query -/

/-- A query with a limit of its own. -/
def limitedText : List Char := "select 1 limit 9".toList

/-- The tokens of `limitedText`. -/
def limitedTokens : List Token :=
  [.word "select" none, .blank .space, .number "1" false, .blank .space, .word "limit" none,
    .blank .space, .number "9" false]

theorem tokens_limitedText : tokens .postgresql limitedText = .ok limitedTokens := by cbv

theorem validate_limitedText :
    (strictGate.validate onlyT limitedText).value = .accepted limitedText := by decide +kernel

theorem check_limitedText : strictGate.rules.check onlyT limitedText = .ok limitedText :=
  (strictGate.validate_eq_accepted_iff _ _ _).mp validate_limitedText

/-- The limit is found. -/
theorem limit_limitedText : explicitLimit .postgresql limitedText = .rows 9 := by
  have hcap : findCap .postgresql limitedTokens = .rows 9 (some 6) := by decide
  exact (explicitLimit_of_ready (Rules.ready_of_check check_limitedText) tokens_limitedText).trans
    (congrArg RowCap.limit hcap)

/-- A count within the cap is left alone. -/
theorem prepareWithin_limitedText :
    (strictGate.prepareWithin onlyT 1000 limitedText).value = .accepted limitedText :=
  Gate.accepted_of_count check_limitedText limit_limitedText fun _ => by decide

/-- A limited query is capped. -/
theorem limitedText_capped :
    (strictGate.prepareWithin onlyT 1000 limitedText).value = .accepted limitedText ∧
      ∃ n, strictGate.Capped onlyT 1000 limitedText limitedText n := by
  refine ⟨prepareWithin_limitedText, ?_⟩
  obtain ⟨ts, hts, hiff⟩ := Gate.accepted_capped_iff (by decide) prepareWithin_limitedText
  have hnormalized : strictGate.rules.normalized limitedText = limitedText :=
    Rules.normalized_of_ready (Rules.ready_of_check check_limitedText)
  have hcap : findCap .postgresql limitedTokens = .rows 9 (some 6) := by decide
  rw [hnormalized] at hts hiff
  obtain rfl : limitedTokens = ts := Except.ok.inj (tokens_limitedText.symm.trans hts)
  exact hiff.mpr (.counted hcap)

/-! ### A limit that is not seen -/

/-- A query with an open parenthesis behind its end. -/
def openText : List Char := "select 1 end (".toList

/-- `openText` with a limit inside the parenthesis. -/
def openCapped : List Char := "select 1 end ( LIMIT 1000".toList

/-- The query is accepted with a limit that is not seen. -/
theorem openText_accepted_not_capped :
    (strictGate.prepareWithin onlyT 1000 openText).value = .accepted openCapped ∧
      ¬∃ n, strictGate.Capped onlyT 1000 openText openCapped n := by
  have hlimit : explicitLimit .postgresql openCapped = .absent := by decide +kernel
  refine ⟨by decide +kernel, ?_⟩
  rintro ⟨n, hn⟩
  have hcount : explicitLimit .postgresql openCapped = .rows n := hn.count
  rw [hlimit] at hcount
  cases hcount

end QueryGate
