import QueryGate.Gate
import QueryGate.Proofs.Outcome
import QueryGate.Proofs.Rewriting

namespace QueryGate

open Sql Text

/-!
# What acceptance means

A gate decides by a chain of checks that stops at the first one that fails.  Here the accepted
end of each chain is described without the order:

* `Rules.HasShape` / `Rules.Meets` — what the rules demand of a text;
* `Rules.check_eq_ok_iff` — the rules let a text through iff what they look at meets them;
* `Gate.validate_eq_accepted_iff` / `Gate.prepareWithin_eq_accepted_iff` — what a gate accepts.
-/

/-! ### The rules -/

/-- A text parses as its tokens do. -/
theorem Sql.parse_eq_ok_iff {d : Dialect} {cs : List Char} {ts : List Token}
    (hts : tokens d cs = .ok ts) (ss : List Statement) :
    parse d cs = .ok ss ↔ Parser.parseTokens d ts = .ok ss := by
  rw [parse, hts]
  cases hparse : Parser.parseTokens d ts with
  | ok ss' => simp [hparse]
  | error e => cases e <;> simp [hparse]

namespace Rules

variable (r : Rules)

/-- What the rules on the shape of a statement demand. -/
structure HasShape (statement : List Char) : Prop where
  nonempty : statement ≠ []
  unseparated : ';' ∉ statement
  readable : ∃ ts, tokens r.vocabulary.dialect statement = .ok ts ∧ checkStart ts = .ok () ∧
    r.checkWords statement ts = .ok ()

/-- What all rules demand: the shape, and one query whose tables are allowed. -/
structure Meets (allowed : AllowList) (statement : List Char) : Prop
    extends HasShape r statement where
  allows : allowed.isEmpty = false
  query : ∃ q, parse r.vocabulary.dialect statement = .ok [.query q] ∧
    ∀ n ∈ (Statement.query q).tables, allowed.resolves n r.defaultSchema = true

/-- The rules on the shape let a text through iff what they look at has that shape. -/
theorem checkShape_eq_ok_iff (cs statement : List Char) :
    r.checkShape cs = .ok statement ↔ statement = r.normalized cs ∧ r.HasShape statement := by
  constructor
  · intro h
    rw [checkShape] at h
    -- the rules in their order: some text, tokens, a start, one statement, no forbidden word
    by_cases hempty : (r.normalized cs).isEmpty = true
    · rw [if_pos hempty] at h
      cases h
    rw [if_neg hempty] at h
    cases hts : tokens r.vocabulary.dialect (r.normalized cs) with
    | error e =>
      simp only [hts] at h
      cases h
    | ok ts =>
      simp only [hts] at h
      obtain ⟨_, hstart, h⟩ := bind_eq_ok_iff.mp h
      split at h
      · cases h
      obtain ⟨_, hwords, h⟩ := bind_eq_ok_iff.mp h
      cases h
      exact ⟨rfl, by simpa using hempty, by simp_all, ts, hts, hstart, hwords⟩
  · rintro ⟨rfl, hshape⟩
    obtain ⟨ts, hts, hstart, hwords⟩ := hshape.readable
    rw [checkShape, if_neg (by simpa using hshape.nonempty), hts]
    have hsep : ¬(r.normalized cs).contains ';' = true := by simpa using hshape.unseparated
    simp only [hstart, hwords, if_neg hsep]
    rfl

/-- A text parses as a query iff its only statement is one. -/
theorem parseQuery_eq_ok_iff (d : Dialect) (cs : List Char) (s : Statement) :
    parseQuery d cs = .ok s ↔ ∃ q, s = .query q ∧ parse d cs = .ok [.query q] := by
  rw [parseQuery]
  match parse d cs with
  | .error .stuck => simp
  | .error .ungrammatical => simp
  | .ok [] => simp
  | .ok [.query q] => simp [eq_comm]
  | .ok [.change _ _] => simp
  | .ok (_ :: _ :: _) => simp

/-- **The rules.** A text is let through iff what the rules look at meets them all, and it is let
    through as that. -/
theorem check_eq_ok_iff (allowed : AllowList) (cs statement : List Char) :
    r.check allowed cs = .ok statement
      ↔ statement = r.normalized cs ∧ r.Meets allowed statement := by
  constructor
  · intro h
    rw [check] at h
    obtain ⟨st, hshape, h⟩ := bind_eq_ok_iff.mp h
    -- errors of the shape are only wrapped by the check
    have hshape : r.checkShape cs = .ok st := by
      cases hs : r.checkShape cs <;> rw [hs] at hshape <;> cases hshape
      rfl
    by_cases hallows : allowed.isEmpty = true
    · rw [if_pos hallows] at h
      cases h
    rw [if_neg hallows] at h
    obtain ⟨s, hquery, h⟩ := bind_eq_ok_iff.mp h
    obtain ⟨q, rfl, hparse⟩ := (parseQuery_eq_ok_iff _ _ _).mp hquery
    cases hout : r.outsider? allowed (Statement.query q).tables with
    | some n =>
      simp only [hout] at h
      cases h
    | none =>
      simp only [hout] at h
      cases h
      obtain ⟨heq, hhas⟩ := (r.checkShape_eq_ok_iff cs statement).mp hshape
      refine ⟨heq, hhas, by simpa using hallows, q, hparse, fun n hn => ?_⟩
      simpa using List.find?_eq_none.mp hout n hn
  · rintro ⟨heq, hmeets⟩
    obtain ⟨q, hparse, htables⟩ := hmeets.query
    -- every table resolves, so there is none from outside
    have hout : r.outsider? allowed (Statement.query q).tables = none :=
      List.find?_eq_none.mpr fun n hn => by simp [htables n hn]
    have hquery := (parseQuery_eq_ok_iff r.vocabulary.dialect statement (.query q)).mpr
      ⟨q, rfl, hparse⟩
    rw [check, (r.checkShape_eq_ok_iff cs statement).mpr ⟨heq, hmeets.toHasShape⟩]
    simp only [Except.mapError, hmeets.allows, Bool.false_eq_true, if_false]
    refine bind_eq_ok_iff.mpr ⟨statement, rfl, bind_eq_ok_iff.mpr ⟨.query q, hquery, ?_⟩⟩
    simp only [hout]
    rfl

variable {r} {allowed : AllowList} {cs statement : List Char}

/-- What the rules let through is trimmed and holds no semicolon. -/
theorem ready_of_check (h : r.check allowed cs = .ok statement) : Ready statement := by
  obtain ⟨rfl, hmeets⟩ := (r.check_eq_ok_iff allowed cs statement).mp h
  exact ⟨r.normalized_trimmed cs, hmeets.unseparated⟩

theorem ne_nil_of_check (h : r.check allowed cs = .ok statement) : statement ≠ [] :=
  ((r.check_eq_ok_iff allowed cs statement).mp h).2.nonempty

/-- The rules look at a ready text itself. -/
theorem normalized_of_ready (h : Ready cs) : r.normalized cs = cs :=
  r.normalized_eq_self h.toTrimmed h.unseparated

/-- What the rules let through they let through again, unchanged. -/
theorem check_of_check (h : r.check allowed cs = .ok statement) :
    r.check allowed statement = .ok statement := by
  have hready := ready_of_check h
  obtain ⟨-, hmeets⟩ := (r.check_eq_ok_iff allowed cs statement).mp h
  exact (r.check_eq_ok_iff allowed statement statement).mpr ⟨(normalized_of_ready hready).symm, hmeets⟩

end Rules

/-! ### The gate -/

namespace Gate

variable (g : Gate) (allowed : AllowList) (maxRows : Nat) (sql out : List Char)

/-- **Validation.** A text is accepted iff the rules let it through, as what they look at. -/
theorem validate_eq_accepted_iff :
    (g.validate allowed sql).value = .accepted out ↔ g.rules.check allowed sql = .ok out := by
  rw [validate]
  match g.rules.check allowed sql with
  | .ok st =>
    refine ⟨fun h => ?_, fun h => ?_⟩
    · cases h
      rfl
    · cases h
      rfl
  | .error (.rejected r) => exact ⟨nofun, nofun⟩
  | .error .undecided => exact ⟨nofun, nofun⟩

/-- A capped statement is accepted iff the rules let it through once more. -/
theorem capAndRecheck_eq_accepted_iff (statement : List Char) :
    (g.capAndRecheck allowed maxRows sql statement).value = .accepted out
      ↔ out = (g.capRows maxRows statement).value ∧
        ∃ st, g.rules.check allowed out = .ok st := by
  simp only [capAndRecheck, bind, Logged.andThen]
  cases hcheck : g.rules.check allowed (g.capRows maxRows statement).value with
  | error e =>
    -- a refusal is no acceptance, and the text is no more let through on the right
    refine ⟨fun h => ?_, fun ⟨hout, st, hst⟩ => ?_⟩
    · cases e <;> cases h
    · rw [hout, hcheck] at hst
      cases hst
  | ok st =>
    refine ⟨fun h => ?_, fun ⟨hout, _⟩ => ?_⟩
    · cases h
      exact ⟨rfl, st, hcheck⟩
    · rw [hout]
      rfl

/-- **Preparation.** A text is accepted iff the rules let it through, its explicit limit is not in
    excess, and the rules let the capped text through, which is the accepted one. -/
theorem prepareWithin_eq_accepted_iff :
    (g.prepareWithin allowed maxRows sql).value = .accepted out
      ↔ ∃ st, g.rules.check allowed sql = .ok st ∧ g.excess? (max 1 maxRows) st = none ∧
        out = (g.capRows (max 1 maxRows) st).value ∧ g.rules.check allowed out = .ok out := by
  rw [prepareWithin]
  match hcheck : g.rules.check allowed sql with
  | .error (.rejected r) => exact ⟨nofun, nofun⟩
  | .error .undecided => exact ⟨nofun, nofun⟩
  | .ok st =>
    match hexcess : g.excess? (max 1 maxRows) st with
    -- an excess ends the preparation
    | some requested =>
      simp only [hexcess]
      refine ⟨nofun, ?_⟩
      rintro ⟨st', hst', hnone, -⟩
      cases hst'
      rw [hexcess] at hnone
      cases hnone
    | none =>
      simp only [hexcess, capAndRecheck_eq_accepted_iff]
      -- the capped text is in the form that the rules leave as it is
      have hready : Ready (g.capRows (max 1 maxRows) st).value :=
        RowLimit.enforce_ready _ _ _ (Rules.ready_of_check hcheck) (Rules.ne_nil_of_check hcheck)
      constructor
      · rintro ⟨rfl, st', hst'⟩
        refine ⟨st, rfl, hexcess, rfl, ?_⟩
        obtain ⟨rfl, -⟩ := (g.rules.check_eq_ok_iff _ _ _).mp hst'
        rwa [Rules.normalized_of_ready hready] at hst'
      · rintro ⟨st', hst', -, rfl, hout⟩
        cases hst'
        exact ⟨rfl, _, hout⟩

end Gate

/-! ### Texts that are one query -/

/-- The query that a text is. -/
def query? (d : Dialect) (cs : List Char) : Option Query :=
  match parse d cs with
  | .ok [.query q] => some q
  | _ => none

/-- A decidable property of the query of a text, with the query. -/
theorem exists_query {d : Dialect} {cs : List Char} {p : Query → Bool}
    (h : (query? d cs).any p = true) : ∃ q, parse d cs = .ok [.query q] ∧ p q = true := by
  obtain ⟨q, hq, hp⟩ := (Option.any_eq_true _ _).mp h
  refine ⟨q, ?_, hp⟩
  unfold query? at hq
  split at hq
  · next q' hparse =>
    cases hq
    exact hparse
  · cases hq

/-! ### A strict gate -/

/-- A strict gate for PostgreSQL. -/
def strictGate : Gate := ⟨.default⟩

/-- The list that allows one table. -/
def onlyT : AllowList := ⟨[⟨["t"]⟩], none⟩

end QueryGate
