import Mathlib
import QueryGate.RowLimit

namespace QueryGate

open Sql

/-!
# The search for a row limit

`findCap` looks for the first `LIMIT` or `FETCH` outside parentheses and reads the tokens behind it.
Here the two halves are told apart, so that each can be followed through a change of the tokens:

* `Clause` — the keyword that the search stops at and the tokens behind it; `capFrom_eq` — the cap
  is that of the clause;
* `nesting` — how many parentheses are open behind some tokens;
* `clauseFrom_append` / `clauseFrom_split` — the search through more tokens, and with others behind
  the keyword;
* `capFrom_sealed` — what is found with other tokens at the end;
* `capFrom_limit_congr` — the limit does not depend on the places of the tokens;
* `findCap_behind_absent` / `findCap_behind_unbounded` / `findCap_behind_rows` — what a limit at the
  end of some tokens changes;
* `findCap_replace` — the count that is found can be replaced by another one.
-/

/-! ### Clauses -/

/-- The keyword that the search stops at, and the tokens behind it. -/
structure Clause where
  isFetch : Bool
  operand : List (Token × Nat)

/-- The cap that a clause sets. -/
def Clause.cap (d : Dialect) (c : Clause) : RowCap :=
  if c.isFetch then fetchOperand c.operand else limitOperand d c.operand

/-- The first clause outside parentheses. -/
def clauseFrom : Nat → List (Token × Nat) → Option Clause
  | _, [] => none
  | depth, (t, _) :: rest =>
    if t = .symbol "(" then clauseFrom (depth + 1) rest
    else if t = .symbol ")" then clauseFrom (depth - 1) rest
    else if depth > 0 then clauseFrom depth rest
    else if t.isKeyword "limit" then some ⟨false, rest⟩
    else if t.isKeyword "fetch" then some ⟨true, rest⟩
    else clauseFrom depth rest

/-- How many parentheses are open behind some tokens. -/
def nesting : Nat → List Token → Nat
  | depth, [] => depth
  | depth, t :: ts =>
    if t = .symbol "(" then nesting (depth + 1) ts
    else if t = .symbol ")" then nesting (depth - 1) ts
    else nesting depth ts

variable {d : Dialect} {depth : Nat} {l r : List (Token × Nat)}

/-- The cap is that of the first clause. -/
theorem capFrom_eq (d : Dialect) (depth : Nat) (l : List (Token × Nat)) :
    capFrom d depth l = ((clauseFrom depth l).map (Clause.cap d)).getD .absent := by
  fun_induction capFrom d depth l <;> simp_all [clauseFrom, Clause.cap]

/-- Once `LIMIT` is read there is some limit, whatever follows the word. -/
theorem limitOperand_ne_absent (d : Dialect) (l : List (Token × Nat)) :
    limitOperand d l ≠ .absent := by
  intro h
  unfold limitOperand at h
  repeat' split at h
  all_goals cases h

/-- What follows the count of `FETCH` confirms the cap or leaves the statement without a bound. -/
theorem fetchUnit_eq (cap : RowCap) (l : List (Token × Nat)) :
    fetchUnit cap l = cap ∨ fetchUnit cap l = .unbounded := by
  unfold fetchUnit
  repeat' split
  all_goals simp

/-- Once `FETCH` is read there is some limit, whatever follows the word. -/
theorem fetchOperand_ne_absent (l : List (Token × Nat)) : fetchOperand l ≠ .absent := by
  have hunit : ∀ n i l, fetchUnit (.rows n i) l ≠ .absent := fun n i l h => by
    rcases fetchUnit_eq (.rows n i) l with h' | h' <;> rw [h'] at h <;> cases h
  unfold fetchOperand
  repeat' split
  all_goals first | exact hunit _ _ _ | exact nofun

/-- A limit clause gives some limit. -/
theorem Clause.cap_ne_absent (d : Dialect) (c : Clause) : c.cap d ≠ .absent := by
  unfold Clause.cap
  split
  · exact fetchOperand_ne_absent _
  · exact limitOperand_ne_absent d _

/-- There is no limit exactly where no limit clause stands at the top level. -/
theorem capFrom_eq_absent_iff : capFrom d depth l = .absent ↔ clauseFrom depth l = none := by
  rw [capFrom_eq]
  cases h : clauseFrom depth l with
  | none => simp
  | some c => simpa using c.cap_ne_absent d

/-- The search through more tokens. -/
theorem clauseFrom_append (depth : Nat) (l r : List (Token × Nat)) :
    clauseFrom depth (l ++ r)
      = match clauseFrom depth l with
        | some c => some ⟨c.isFetch, c.operand ++ r⟩
        | none => clauseFrom (nesting depth (l.map Prod.fst)) r := by
  fun_induction clauseFrom depth l <;> simp_all [clauseFrom, nesting]

/-- What a count may stand directly behind: a word or a comma. -/
def leadsCount (t : Token) : Bool := t.bareWord?.isSome || t == .symbol ","

/-- A keyword can stand where a count is read. -/
theorem leadsCount_of_isKeyword {t : Token} {keyword : String} (h : t.isKeyword keyword = true) :
    leadsCount t = true := by
  unfold Token.isKeyword at h
  split at h
  · next text htext => simp [leadsCount, htext]
  · cases h

/-- What the search stops at does not depend on the tokens behind the keyword, which is a word. -/
theorem clauseFrom_split {c : Clause} (h : clauseFrom depth l = some c) :
    ∃ front, l = front ++ c.operand ∧ (∃ p ∈ front.getLast?, leadsCount p.1 = true) ∧
      ∀ other, clauseFrom depth (front ++ other) = some ⟨c.isFetch, other⟩ := by
  induction l generalizing depth with
  | nil => cases h
  | cons p rest ih =>
    obtain ⟨t, i⟩ := p
    -- a token that is no keyword, and the depth behind it
    have hskip : ∀ depth', (∀ other, clauseFrom depth ((t, i) :: other) = clauseFrom depth' other) →
        ∃ front, (t, i) :: rest = front ++ c.operand ∧ (∃ p ∈ front.getLast?, leadsCount p.1 = true) ∧
          ∀ other, clauseFrom depth (front ++ other) = some ⟨c.isFetch, other⟩ := by
      intro depth' hstep
      obtain ⟨front, rfl, ⟨p, hp, hlead⟩, hfront⟩ := ih (by rw [← hstep, h])
      refine ⟨(t, i) :: front, rfl, ⟨p, ?_, hlead⟩, fun other => by
        rw [List.cons_append, hstep, hfront]⟩
      rw [List.getLast?_cons, Option.mem_def.mp hp]
      rfl
    by_cases hopen : t = .symbol "("
    · exact hskip (depth + 1) fun other => by simp [clauseFrom, hopen]
    by_cases hclose : t = .symbol ")"
    · exact hskip (depth - 1) fun other => by simp [clauseFrom, hclose]
    by_cases hdepth : depth > 0
    · exact hskip depth fun other => by simp [clauseFrom, hopen, hclose, hdepth]
    by_cases hlimit : t.isKeyword "limit" = true
    · have hstep : ∀ other, clauseFrom depth ((t, i) :: other) = some ⟨false, other⟩ :=
        fun other => by simp [clauseFrom, hopen, hclose, hdepth, hlimit]
      rw [hstep] at h
      cases h
      exact ⟨[(t, i)], rfl, ⟨(t, i), rfl, leadsCount_of_isKeyword hlimit⟩, hstep⟩
    by_cases hfetch : t.isKeyword "fetch" = true
    · have hstep : ∀ other, clauseFrom depth ((t, i) :: other) = some ⟨true, other⟩ :=
        fun other => by simp [clauseFrom, hopen, hclose, hdepth, hlimit, hfetch]
      rw [hstep] at h
      cases h
      exact ⟨[(t, i)], rfl, ⟨(t, i), rfl, leadsCount_of_isKeyword hfetch⟩, hstep⟩
    · exact hskip depth fun other => by
        simp [clauseFrom, hopen, hclose, hdepth, hlimit, hfetch]

/-! ### More tokens behind an operand -/

/-- Tokens that continue no operand: the first is a word of none of the kinds that an operand
    holds. -/
structure Seals (r : List (Token × Nat)) : Prop where
  head : ∃ text i more, r = (.word text none, i) :: more ∧
    ∀ keyword ∈ ["offset", "first", "next", "row", "rows", "only"],
      Text.asciiEqual text keyword = false

/-- Sealing tokens behind a malformed `FETCH` do not complete it. -/
theorem fetchUnit_seals {cap : RowCap} (hr : Seals r) (h : fetchUnit cap l = .unbounded) :
    fetchUnit cap (l ++ r) = .unbounded := by
  obtain ⟨text, i, more, rfl, hkeyword⟩ := hr
  match l with
  | [] =>
    cases more with
    | nil => rfl
    | cons p more =>
      have hrow := hkeyword "row" (by decide)
      have hrows := hkeyword "rows" (by decide)
      simp [fetchUnit, Token.isKeyword, Token.bareWord?, hrow, hrows]
  | [p] =>
    have honly := hkeyword "only" (by decide)
    simp [fetchUnit, Token.isKeyword, Token.bareWord?, honly]
  | p :: q :: l => exact h

/-- Two counts with a comma between them, or any other tokens behind a count. -/
theorem limitOperand_more {text : String} {long : Bool} {i j : Nat} {u : Token} {count : Nat}
    (hcount : Text.readCount? text = some count)
    (hother : u = .symbol "," → ∀ second long k, l ≠ [(.number second long, k)]) :
    limitOperand d ((.number text long, i) :: (u, j) :: l)
      = if u.isKeyword "offset" then .rows count (some i) else .unbounded := by
  simp only [limitOperand, hcount]
  split
  · next heq => cases heq
  · next second long k heq =>
    cases heq
    exact absurd rfl (hother rfl second long k)
  · next heq =>
    cases heq
    rfl

/-- They are no count that ends an operand. -/
theorem Seals.ne_number (hr : Seals r) (l : List (Token × Nat)) (text : String) (long : Bool) (k : Nat) :
    l ++ r ≠ [(.number text long, k)] := by
  obtain ⟨word, i, more, rfl, -⟩ := hr
  intro heq
  cases l with
  | nil => cases heq
  | cons p l => exact absurd (List.cons.inj heq).2 (by simp)

/-- Sealing tokens behind a malformed `LIMIT` do not complete it. -/
theorem limitOperand_seals (hr : Seals r) (h : limitOperand d l = .unbounded) :
    limitOperand d (l ++ r) = .unbounded := by
  match l with
  | [] =>
    obtain ⟨text, i, more, rfl, -⟩ := hr
    rfl
  | (.number count long, j) :: rest =>
    cases hcount : Text.readCount? count with
    | none => simp [limitOperand, hcount]
    | some n =>
      match rest with
      | [] => simp [limitOperand, hcount] at h
      | (u, k) :: rest =>
        rw [List.cons_append, List.cons_append, limitOperand_more hcount fun _ => hr.ne_number rest]
        -- a comma makes the operand unbounded unless exactly one number follows, and `r` is longer
        by_cases hu : u = .symbol ","
        · subst hu
          rfl
        · rw [limitOperand_more hcount fun h => absurd h hu] at h
          exact h
  | (.word _ _, j) :: rest => rfl
  | (.literal _ _, j) :: rest => rfl
  | (.placeholder _, j) :: rest => rfl
  | (.symbol _, j) :: rest => rfl
  | (.customOperator _, j) :: rest => rfl
  | (.blank _, j) :: rest => rfl

/-- What stands behind `FIRST` or `NEXT`. -/
def fetchCount (l : List (Token × Nat)) : RowCap :=
  match l with
  | (.number text _, i) :: after =>
    match Text.readCount? text with
    | some count => fetchUnit (.rows count (some i)) after
    | none => fetchUnit (.rows 1 none) l
  | _ => fetchUnit (.rows 1 none) l

/-- `FETCH` needs `FIRST` or `NEXT`; then comes the count. -/
theorem fetchOperand_cons (t : Token) (i : Nat) (l : List (Token × Nat)) :
    fetchOperand ((t, i) :: l)
      = if t.isKeyword "first" || t.isKeyword "next" then fetchCount l else .unbounded := rfl

/-- `FETCH` without a number is for one row. -/
theorem fetchCount_of_not_number (h : ∀ text long i more, l ≠ (.number text long, i) :: more) :
    fetchCount l = fetchUnit (.rows 1 none) l := by
  unfold fetchCount
  split
  · exact absurd rfl (h _ _ _ _)
  · rfl

/-- What more tokens do to a unit they do to a count and its unit. -/
theorem fetchCount_append {cap : RowCap} (hnil : l = [] → ∀ text long i more, r ≠ (.number text long, i) :: more)
    (hunit : ∀ c l, fetchUnit c l = cap → fetchUnit c (l ++ r) = cap) (h : fetchCount l = cap) :
    fetchCount (l ++ r) = cap := by
  -- with no number ahead in either list, both are read as `FETCH FIRST ROW`
  have hplain : (∀ text long i more, l ++ r ≠ (.number text long, i) :: more) →
      (∀ text long i more, l ≠ (.number text long, i) :: more) → fetchCount (l ++ r) = cap := by
    intro hnot hnot'
    rw [fetchCount_of_not_number hnot'] at h
    rw [fetchCount_of_not_number hnot]
    exact hunit _ _ h
  match l with
  | [] => exact hplain (hnil rfl) nofun
  | (.number count long, k) :: after =>
    simp only [fetchCount, List.cons_append] at h ⊢
    cases hcount : Text.readCount? count with
    -- a number out of range is left to the unit, which then fails in both
    | none =>
      simp only [hcount] at h ⊢
      exact hunit _ _ h
    | some n =>
      simp only [hcount] at h ⊢
      exact hunit _ _ h
  | (.word _ _, _) :: _ => exact hplain nofun nofun
  | (.literal _ _, _) :: _ => exact hplain nofun nofun
  | (.placeholder _, _) :: _ => exact hplain nofun nofun
  | (.symbol _, _) :: _ => exact hplain nofun nofun
  | (.customOperator _, _) :: _ => exact hplain nofun nofun
  | (.blank _, _) :: _ => exact hplain nofun nofun

/-- Sealing tokens behind a malformed `FETCH` do not complete it, from its first word on. -/
theorem fetchOperand_seals (hr : Seals r) (h : fetchOperand l = .unbounded) :
    fetchOperand (l ++ r) = .unbounded := by
  match l with
  | [] =>
    obtain ⟨text, i, more, rfl, hkeyword⟩ := hr
    -- the sealing word is neither `FIRST` nor `NEXT`
    have hfirst := hkeyword "first" (by decide)
    have hnext := hkeyword "next" (by decide)
    simp [fetchOperand, Token.isKeyword, Token.bareWord?, hfirst, hnext]
  | (t, i) :: rest =>
    rw [List.cons_append, fetchOperand_cons]
    rw [fetchOperand_cons] at h
    split at h
    · next ht =>
      rw [if_pos ht]
      refine fetchCount_append (fun _ text long i more heq => ?_) (fun c l => fetchUnit_seals hr) h
      -- a clause that ends behind `FIRST` is not completed by a word
      obtain ⟨word, j, more', rfl, -⟩ := hr
      cases heq
    · next ht => rw [if_neg ht]

/-- A clause without a bound has none before more tokens that continue no operand. -/
theorem Clause.cap_append_unbounded {c : Clause} (hr : Seals r) (h : c.cap d = .unbounded) :
    Clause.cap d ⟨c.isFetch, c.operand ++ r⟩ = .unbounded := by
  unfold Clause.cap at h ⊢
  split at h
  · next hfetch =>
    rw [if_pos hfetch]
    exact fetchOperand_seals hr h
  · next hfetch =>
    rw [if_neg hfetch]
    exact limitOperand_seals hr h

variable {n : Nat} {position : Option Nat}

/-- A limit that is a count is the count of a cap. -/
theorem exists_rows_of_limit {cap : RowCap} (h : cap.limit = .rows n) :
    ∃ position, cap = .rows n position := by
  cases cap with
  | rows k position =>
    cases h
    exact ⟨position, rfl⟩
  | absent => cases h
  | unbounded => cases h

theorem RowCap.limit_eq_absent_iff {cap : RowCap} : cap.limit = .absent ↔ cap = .absent := by
  cases cap <;> simp [RowCap.limit]

theorem RowCap.limit_eq_unbounded_iff {cap : RowCap} : cap.limit = .unbounded ↔ cap = .unbounded := by
  cases cap <;> simp [RowCap.limit]

/-- A complete `FETCH` is not changed by what follows it. -/
theorem fetchUnit_rows {cap : RowCap} (h : fetchUnit cap l = .rows n position) (r : List (Token × Nat)) :
    fetchUnit cap (l ++ r) = .rows n position := by
  match l with
  | [] => cases h
  | [_] => cases h
  | _ :: _ :: _ => exact h

/-- A count that ends with its unit is found before more tokens. -/
theorem fetchOperand_rows (h : fetchOperand l = .rows n position) (r : List (Token × Nat)) :
    fetchOperand (l ++ r) = .rows n position := by
  match l with
  | [] => cases h
  | (t, i) :: rest =>
    rw [List.cons_append, fetchOperand_cons]
    rw [fetchOperand_cons] at h
    split at h
    · next ht =>
      rw [if_pos ht]
      refine fetchCount_append (fun hnil => ?_) (fun c l h => fetchUnit_rows h r) h
      rw [hnil] at h
      cases h
    · cases h

/-- A count that the text does not end with is found before more tokens. -/
theorem limitOperand_rows (hlast : ∀ text long i, l.getLast? ≠ some (.number text long, i))
    (h : limitOperand d l = .rows n position) (r : List (Token × Nat)) :
    limitOperand d (l ++ r) = .rows n position := by
  match l with
  | [] => cases h
  | (.number count long, j) :: rest =>
    cases hcount : Text.readCount? count with
    | none => simp [limitOperand, hcount] at h
    | some m =>
      match rest with
      | [] => exact absurd rfl (hlast count long j)
      | (u, k) :: rest =>
        -- two counts with a comma would end in a number
        have hother : u = .symbol "," → ∀ second long k, rest ≠ [(.number second long, k)] := by
          rintro - second long k rfl
          exact hlast second long k rfl
        rw [limitOperand_more hcount hother] at h
        split at h
        · next hu =>
          have hcomma : u ≠ .symbol "," := by
            rintro rfl
            cases hu
          rw [List.cons_append, List.cons_append,
            limitOperand_more hcount fun h => absurd h hcomma, if_pos hu, h]
        · cases h
  | (.word _ _, j) :: rest => cases h
  | (.literal _ _, j) :: rest => cases h
  | (.placeholder _, j) :: rest => cases h
  | (.symbol _, j) :: rest => cases h
  | (.customOperator _, j) :: rest => cases h
  | (.blank _, j) :: rest => cases h

/-! ### Other tokens at the end -/

/-- A `FETCH` that is complete before sealing tokens is complete before any others. -/
theorem fetchUnit_sealed {cap : RowCap} (hr : Seals r) (h : fetchUnit cap (l ++ r) = .rows n position)
    (r' : List (Token × Nat)) : fetchUnit cap (l ++ r') = .rows n position := by
  obtain ⟨text, i, more, rfl, hkeyword⟩ := hr
  match l with
  | [] =>
    have hrow := hkeyword "row" (by decide)
    have hrows := hkeyword "rows" (by decide)
    cases more with
    | nil => cases h
    | cons p more => simp [fetchUnit, Token.isKeyword, Token.bareWord?, hrow, hrows] at h
  | [p] =>
    have honly := hkeyword "only" (by decide)
    simp [fetchUnit, Token.isKeyword, Token.bareWord?, honly] at h
  | p :: q :: l => exact h

theorem fetchCount_sealed (hr : Seals r) (h : fetchCount (l ++ r) = .rows n position)
    (r' : List (Token × Nat)) : fetchCount (l ++ r') = .rows n position := by
  have hplain : (∀ r, fetchCount (l ++ r) = fetchUnit (.rows 1 none) (l ++ r)) →
      fetchCount (l ++ r') = .rows n position := by
    intro hcount
    rw [hcount] at h ⊢
    exact fetchUnit_sealed hr h r'
  match l with
  | [] =>
    -- a unit would have to stand among the tokens at the end
    obtain ⟨text, i, more, rfl, hkeyword⟩ := hr
    cases fetchUnit_sealed (l := []) ⟨text, i, more, rfl, hkeyword⟩ h []
  | (.number count long, k) :: after =>
    cases hcount : Text.readCount? count with
    | none => exact hplain fun r => by simp [fetchCount, hcount]
    | some m =>
      simp only [List.cons_append, fetchCount, hcount] at h ⊢
      exact fetchUnit_sealed hr h r'
  | (.word _ _, _) :: _ => exact hplain fun _ => rfl
  | (.literal _ _, _) :: _ => exact hplain fun _ => rfl
  | (.placeholder _, _) :: _ => exact hplain fun _ => rfl
  | (.symbol _, _) :: _ => exact hplain fun _ => rfl
  | (.customOperator _, _) :: _ => exact hplain fun _ => rfl
  | (.blank _, _) :: _ => exact hplain fun _ => rfl

theorem fetchOperand_sealed (hr : Seals r) (h : fetchOperand (l ++ r) = .rows n position)
    (r' : List (Token × Nat)) : fetchOperand (l ++ r') = .rows n position := by
  match l with
  | [] =>
    obtain ⟨text, i, more, rfl, hkeyword⟩ := hr
    have hfirst := hkeyword "first" (by decide)
    have hnext := hkeyword "next" (by decide)
    simp [fetchOperand, Token.isKeyword, Token.bareWord?, hfirst, hnext] at h
  | (t, i) :: rest =>
    rw [List.cons_append, fetchOperand_cons] at h ⊢
    split at h
    · next ht =>
      rw [if_pos ht]
      exact fetchCount_sealed hr h r'
    · cases h

/-- A `LIMIT` that counts before sealing tokens counts the same before any others. -/
theorem limitOperand_sealed (hr : Seals r) (h : limitOperand d (l ++ r) = .rows n position)
    (r' : List (Token × Nat)) : limitOperand d (l ++ r') = .rows n position := by
  match l with
  | [] =>
    obtain ⟨text, i, more, rfl, -⟩ := hr
    cases h
  | (.number count long, j) :: rest =>
    cases hcount : Text.readCount? count with
    | none => simp [limitOperand, hcount] at h
    | some m =>
      match rest with
      | [] =>
        -- the word behind the count would have to be `OFFSET`
        obtain ⟨text, i, more, rfl, hkeyword⟩ := hr
        have hoffset := hkeyword "offset" (by decide)
        rw [List.singleton_append, limitOperand_more hcount fun h => by cases h] at h
        simp [Token.isKeyword, Token.bareWord?, hoffset] at h
      | (u, k) :: rest =>
        rw [List.cons_append, List.cons_append,
          limitOperand_more hcount fun _ => hr.ne_number rest] at h
        split at h
        · next hu =>
          have hcomma : u ≠ .symbol "," := by
            rintro rfl
            cases hu
          rw [List.cons_append, List.cons_append,
            limitOperand_more hcount fun h => absurd h hcomma, if_pos hu, h]
        · cases h
  | (.word _ _, j) :: rest => cases h
  | (.literal _ _, j) :: rest => cases h
  | (.placeholder _, j) :: rest => cases h
  | (.symbol _, j) :: rest => cases h
  | (.customOperator _, j) :: rest => cases h
  | (.blank _, j) :: rest => cases h

/-- A count before tokens that start no clause and continue none is found before any others. -/
theorem capFrom_sealed (hr : Seals r) (hnone : ∀ depth, clauseFrom depth r = none)
    (h : capFrom d depth (l ++ r) = .rows n position) (r' : List (Token × Nat)) :
    capFrom d depth (l ++ r') = .rows n position := by
  -- the clause that is found stands in `l`, since `r` has none
  rw [capFrom_eq, clauseFrom_append] at h ⊢
  cases hclause : clauseFrom depth l with
  | none =>
    rw [hclause] at h
    simp only [hnone] at h
    cases h
  | some c =>
    rw [hclause] at h
    simp only [Option.map_some, Option.getD_some, Clause.cap] at h ⊢
    split at h
    · next hfetch =>
      rw [if_pos hfetch]
      exact fetchOperand_sealed hr h r'
    · next hfetch =>
      rw [if_neg hfetch]
      exact limitOperand_sealed hr h r'

/-! ### Tokens in other places -/

section

variable {l' : List (Token × Nat)}

/-- The limit that an operand sets does not depend on the places of its tokens. -/
theorem limitOperand_limit_congr (h : l.map Prod.fst = l'.map Prod.fst) :
    (limitOperand d l).limit = (limitOperand d l').limit := by
  rcases l with _ | ⟨⟨t, i⟩, rest⟩
  · obtain rfl : l' = [] := List.map_eq_nil_iff.mp h.symm
    rfl
  obtain ⟨⟨t', j⟩, rest', rfl, rfl, hrest⟩ := List.map_eq_cons_iff.mp h.symm
  cases t' with
  | number text long =>
    rcases rest with _ | ⟨⟨u, k⟩, more⟩
    · obtain rfl : rest' = [] := List.map_eq_nil_iff.mp hrest
      simp only [limitOperand]
      split <;> rfl
    obtain ⟨⟨u', k'⟩, more', rfl, rfl, hmore⟩ := List.map_eq_cons_iff.mp hrest
    rcases more with _ | ⟨⟨v, m⟩, _ | ⟨b, more⟩⟩
    · obtain rfl : more' = [] := List.map_eq_nil_iff.mp hmore
      simp only [limitOperand]
      repeat' split
      all_goals rfl
    · obtain ⟨⟨v', m'⟩, more', rfl, rfl, hnil⟩ := List.map_eq_cons_iff.mp hmore
      obtain rfl : more' = [] := List.map_eq_nil_iff.mp hnil
      by_cases hcomma : ∃ second long', u' = .symbol "," ∧ v' = .number second long'
      · obtain ⟨second, long', rfl, rfl⟩ := hcomma
        simp only [limitOperand]
        repeat' split
        all_goals rfl
      · -- the last form of an operand, wherever its tokens stand
        have hlast : ∀ i k m, (limitOperand d [(.number text long, i), (u', k), (v', m)]).limit
            = (Text.readCount? text).elim .unbounded fun count =>
              if u'.isKeyword "offset" then .rows count else .unbounded := by
          intro i k m
          simp only [limitOperand]
          cases Text.readCount? text with
          | none => rfl
          | some count =>
            dsimp only
            split
            · next heq => cases heq
            · next heq =>
              cases heq
              exact absurd ⟨_, _, rfl, rfl⟩ hcomma
            · next heq =>
              cases heq
              split <;> rfl
        rw [hlast, hlast]
    · obtain ⟨⟨v', m'⟩, more', rfl, rfl, hb⟩ := List.map_eq_cons_iff.mp hmore
      obtain ⟨b', more', rfl, -, -⟩ := List.map_eq_cons_iff.mp hb
      simp only [limitOperand]
      repeat' split
      all_goals rfl
  | _ => rfl

/-- The positions of the tokens matter for the place of the count only. -/
theorem fetchOperand_limit_congr (h : l.map Prod.fst = l'.map Prod.fst) :
    (fetchOperand l).limit = (fetchOperand l').limit := by
  -- positions reach the cap through the count only, and the limit forgets them
  have hunit : ∀ {cap cap' : RowCap} {l l' : List (Token × Nat)}, cap.limit = cap'.limit →
      l.map Prod.fst = l'.map Prod.fst → (fetchUnit cap l).limit = (fetchUnit cap' l').limit := by
    intro cap cap' l l' hcap h
    rcases l with _ | ⟨⟨t, i⟩, _ | ⟨⟨u, k⟩, more⟩⟩
    · obtain rfl : l' = [] := List.map_eq_nil_iff.mp h.symm
      rfl
    · obtain ⟨⟨t', j⟩, l', rfl, rfl, hnil⟩ := List.map_eq_cons_iff.mp h.symm
      obtain rfl : l' = [] := List.map_eq_nil_iff.mp hnil
      rfl
    · obtain ⟨⟨t', j⟩, l', rfl, rfl, hmore⟩ := List.map_eq_cons_iff.mp h.symm
      obtain ⟨⟨u', k'⟩, l', rfl, rfl, -⟩ := List.map_eq_cons_iff.mp hmore
      simp only [fetchUnit]
      split
      · exact hcap
      · rfl
  rcases l with _ | ⟨⟨t, i⟩, rest⟩
  · obtain rfl : l' = [] := List.map_eq_nil_iff.mp h.symm
    rfl
  obtain ⟨⟨t', j⟩, rest', rfl, rfl, hrest⟩ := List.map_eq_cons_iff.mp h.symm
  simp only [fetchOperand]
  split
  · rcases rest with _ | ⟨⟨u, k⟩, more⟩
    · obtain rfl : rest' = [] := List.map_eq_nil_iff.mp hrest
      rfl
    obtain ⟨⟨u', k'⟩, more', rfl, rfl, hmore⟩ := List.map_eq_cons_iff.mp hrest
    cases u' with
    | number text long =>
      dsimp only
      split
      · exact hunit rfl hmore.symm
      · exact hunit rfl hrest.symm
    | _ => exact hunit rfl hrest.symm
  · rfl

/-- The limit among tokens does not depend on their places. -/
theorem capFrom_limit_congr (h : l.map Prod.fst = l'.map Prod.fst) (depth : Nat) :
    (capFrom d depth l).limit = (capFrom d depth l').limit := by
  induction l generalizing l' depth with
  | nil =>
    obtain rfl : l' = [] := List.map_eq_nil_iff.mp h.symm
    rfl
  | cons a l ih =>
    obtain ⟨t, i⟩ := a
    obtain ⟨⟨t', j⟩, l', rfl, rfl, hrest⟩ := List.map_eq_cons_iff.mp h.symm
    -- the branches of the search look at the token and not at its position
    simp only [capFrom]
    split
    · exact ih hrest.symm _
    split
    · exact ih hrest.symm _
    split
    · exact ih hrest.symm _
    split
    · exact limitOperand_limit_congr hrest.symm
    split
    · exact fetchOperand_limit_congr hrest.symm
    · exact ih hrest.symm _

end

/-! ### A limit behind some tokens -/

/-- The tokens of `LIMIT` and a count. -/
def limitClause (text : String) : List Token :=
  [.word "LIMIT" none, .blank .space, .number text false]

/-- Significant tokens of a text in two parts; those of the second are counted on from the first. -/
theorem significantTokens_append (ts us : List Token) :
    significantTokens (ts ++ us)
      = significantTokens ts ++ (us.zipIdx ts.length).filter fun p => !p.1.isTrivia := by
  rw [significantTokens, significantTokens, List.zipIdx_append, List.filter_append, Nat.zero_add]

/-- Blanks and comments hold nothing significant. -/
theorem filter_zipIdx_trivia {gap : List Token} (hgap : ∀ t ∈ gap, t.isTrivia = true) (k : Nat) :
    ((gap.zipIdx k).filter fun p => !p.1.isTrivia) = [] := by
  rw [List.filter_eq_nil_iff]
  rintro ⟨t, i⟩ hp
  have ht : t ∈ gap := by
    have hmem := List.mem_map_of_mem (f := Prod.fst) hp
    rwa [List.zipIdx_map_fst] at hmem
  simp [hgap t ht]

/-- Blanks and comments behind some tokens are not seen. -/
theorem significantTokens_gap {gap : List Token} (hgap : ∀ t ∈ gap, t.isTrivia = true)
    (ts : List Token) : significantTokens (ts ++ gap) = significantTokens ts := by
  rw [significantTokens_append, filter_zipIdx_trivia hgap, List.append_nil]

/-- An appended clause is two significant tokens, wherever it is put. -/
theorem significantTokens_limitClause (ts : List Token) (text : String) :
    significantTokens (ts ++ limitClause text) = significantTokens ts ++
      [(Token.word "LIMIT" none, ts.length), (Token.number text false, ts.length + 1 + 1)] := by
  rw [significantTokens_append]
  rfl

/-- An appended `LIMIT` completes nothing before it. -/
theorem limitClause_seals (i : Nat) (more : List (Token × Nat)) :
    Seals ((.word "LIMIT" none, i) :: more) :=
  ⟨"LIMIT", i, more, rfl, by decide⟩

/-- Without their places, the tokens that the search looks at are those that are no trivia. -/
theorem map_fst_filter_zipIdx (ts : List Token) (k : Nat) :
    ((ts.zipIdx k).filter fun p => !p.1.isTrivia).map Prod.fst = ts.filter fun t => !t.isTrivia := by
  have hmap := List.filter_map (f := Prod.fst) (p := fun t : Token => !t.isTrivia)
    (l := ts.zipIdx k)
  rw [List.zipIdx_map_fst] at hmap
  exact hmap.symm

/-- Parentheses are counted among all tokens as among the significant ones. -/
theorem nesting_significant (ts : List Token) (depth k : Nat) :
    nesting depth (((ts.zipIdx k).filter fun p => !p.1.isTrivia).map Prod.fst)
      = nesting depth ts := by
  induction ts generalizing depth k with
  | nil => rfl
  | cons t ts ih =>
    rw [List.zipIdx_cons]
    cases ht : t.isTrivia with
    | false =>
      rw [List.filter_cons_of_pos (by simp [ht]), List.map_cons, nesting, nesting, ih, ih, ih]
    | true =>
      rw [List.filter_cons_of_neg (by simp [ht]), ih, nesting]
      -- trivia are no parentheses, so they do not change the depth
      have hopen : t ≠ .symbol "(" := by
        rintro rfl
        cases ht
      have hclose : t ≠ .symbol ")" := by
        rintro rfl
        cases ht
      rw [if_neg hopen, if_neg hclose]

/-- As many parentheses are open where the significant tokens are the same. -/
theorem nesting_eq {us ts : List Token} (h : significantTokens us = significantTokens ts) :
    nesting 0 us = nesting 0 ts := by
  rw [← nesting_significant us 0 0, ← nesting_significant ts 0 0]
  exact congrArg (fun l => nesting 0 (l.map Prod.fst)) h

section

variable {ts : List Token} {text : String} {count : Nat}

/-- A limit behind tokens without one is found iff no parenthesis is open there. -/
theorem findCap_behind_absent (h : findCap d ts = .absent) (hcount : Text.readCount? text = some count) :
    (findCap d (ts ++ limitClause text)).limit
      = if nesting 0 ts = 0 then .rows count else .absent := by
  have hclause := capFrom_eq_absent_iff.mp h
  have hnesting : nesting 0 ((significantTokens ts).map Prod.fst) = nesting 0 ts :=
    nesting_significant ts 0 0
  have hlimit : (Token.word "LIMIT" none).isKeyword "limit" = true := by decide
  rw [findCap, significantTokens_limitClause, capFrom_eq, clauseFrom_append, hclause]
  simp only [hnesting]
  by_cases hzero : nesting 0 ts = 0
  · simp [hzero, clauseFrom, hlimit, Clause.cap, limitOperand, hcount, RowCap.limit]
  · have hpos : nesting 0 ts > 0 := Nat.pos_of_ne_zero hzero
    simp [hzero, clauseFrom, hpos, RowCap.limit]

/-- A limit without a bound has none with another limit behind it. -/
theorem findCap_behind_unbounded (h : findCap d ts = .unbounded) :
    findCap d (ts ++ limitClause text) = .unbounded := by
  rw [findCap, capFrom_eq] at h
  rw [findCap, significantTokens_limitClause, capFrom_eq, clauseFrom_append]
  cases hclause : clauseFrom 0 (significantTokens ts) with
  | none =>
    rw [hclause] at h
    cases h
  | some c =>
    rw [hclause] at h
    exact Clause.cap_append_unbounded (limitClause_seals _ _) h

/-- A count that is not the end of the tokens is found with another limit behind it. -/
theorem findCap_behind_rows (hlast : ∀ text long i, (significantTokens ts).getLast? ≠
    some (.number text long, i)) (h : findCap d ts = .rows n position) :
    findCap d (ts ++ limitClause text) = .rows n position := by
  rw [findCap, capFrom_eq] at h
  rw [findCap, significantTokens_limitClause, capFrom_eq, clauseFrom_append]
  cases hclause : clauseFrom 0 (significantTokens ts) with
  -- without a clause in `ts` no count would have been found
  | none =>
    rw [hclause] at h
    cases h
  | some c =>
    obtain ⟨front, hfront, -, -⟩ := clauseFrom_split hclause
    rw [hclause, Option.map_some, Option.getD_some, Clause.cap] at h
    show Clause.cap d ⟨c.isFetch, _⟩ = _
    unfold Clause.cap
    split at h
    · next hfetch =>
      rw [if_pos hfetch]
      exact fetchOperand_rows h _
    · next hfetch =>
      rw [if_neg hfetch]
      -- the operand ends as the statement does, so no number ends it
      refine limitOperand_rows (fun text long i heq => hlast text long i ?_) h _
      rw [hfront, List.getLast?_append, heq, Option.some_or]

/-- A count that is not written out is one row. -/
theorem findCap_unwritten (h : findCap d ts = .rows n none) : n = 1 := by
  -- a unit passes on what the count before it gave
  have hunit : ∀ m i l, fetchUnit (.rows m i) l = .rows n none → (i = none → m = 1) → n = 1 := by
    intro m i l h hm
    rcases fetchUnit_eq (.rows m i) l with h' | h'
    · rw [h'] at h
      cases h
      exact hm rfl
    · rw [h'] at h
      cases h
  rw [findCap, capFrom_eq] at h
  cases hclause : clauseFrom 0 (significantTokens ts) with
  | none =>
    rw [hclause] at h
    cases h
  | some c =>
    rw [hclause, Option.map_some, Option.getD_some, Clause.cap] at h
    split at h
    -- only `FETCH` without a number has a count that is not written
    · unfold fetchOperand at h
      repeat' split at h
      all_goals first | cases h | exact hunit _ _ _ h (by simp)
    · unfold limitOperand at h
      repeat' split at h
      -- `LIMIT` has a count only with its position
      all_goals cases h

/-- Where there is no clause, there is none before either. -/
theorem findCap_absent_of_append {us : List Token} (h : findCap d (ts ++ us) = .absent) :
    findCap d ts = .absent := by
  have hclause := capFrom_eq_absent_iff.mp h
  rw [significantTokens_append, clauseFrom_append] at hclause
  refine capFrom_eq_absent_iff.mpr ?_
  cases hts : clauseFrom 0 (significantTokens ts) with
  | none => rfl
  | some c =>
    rw [hts] at hclause
    cases hclause

end

/-! ### Another count in its place -/

/-- The words that may follow a count. -/
def countFollowers : List String := ["offset", "row", "rows"]

/-- Some tokens hold a count that another count can stand in for, behind a word or a comma or at the
    front, and before one of the words that may follow it or nothing. -/
structure Replaceable (cap : List (Token × Nat) → RowCap) (l : List (Token × Nat)) (n i : Nat) :
    Prop where
  split : ∃ (u : List (Token × Nat)) (text : String) (long : Bool) (v : List (Token × Nat)),
    l = u ++ (Token.number text long, i) :: v ∧ Text.readCount? text = some n ∧
    (∀ p ∈ u.getLast?, leadsCount p.1 = true) ∧
    (∀ p ∈ v.head?, ∃ keyword ∈ countFollowers, p.1.isKeyword keyword = true) ∧
    ∀ text' long' n', Text.readCount? text' = some n' →
      cap (u ++ (Token.number text' long', i) :: v) = .rows n' (some i)

/-- Tokens before the count do not matter if they do not change what is found. -/
theorem Replaceable.behind {cap cap' : List (Token × Nat) → RowCap} {i : Nat}
    (h : Replaceable cap l n i) (front : List (Token × Nat))
    (hfront : ∃ p ∈ front.getLast?, leadsCount p.1 = true)
    (hcap : ∀ l, cap' (front ++ l) = cap l) : Replaceable cap' (front ++ l) n i := by
  obtain ⟨u, text, long, v, rfl, hread, hu, hv, hother⟩ := h
  refine ⟨front ++ u, text, long, v, by rw [List.append_assoc], hread, fun p hp => ?_, hv,
    fun text' long' n' h => ?_⟩
  · obtain ⟨f, hf, hlead⟩ := hfront
    rw [List.getLast?_append, Option.mem_def.mp hf] at hp
    rcases Option.or_eq_some_iff.mp hp with hp | ⟨-, hp⟩
    · exact hu p hp
    · cases hp
      exact hlead
  · rw [List.append_assoc, hcap, hother text' long' n' h]

/-- The count of a `LIMIT` can be replaced in place. -/
theorem limitOperand_replace {i : Nat} (h : limitOperand d l = .rows n (some i)) :
    Replaceable (limitOperand d) l n i := by
  match l with
  | [] => cases h
  | (.number text long, j) :: rest =>
    cases hcount : Text.readCount? text with
    | none => simp [limitOperand, hcount] at h
    | some m =>
      match rest with
      | [] =>
        simp only [limitOperand, hcount, RowCap.rows.injEq, Option.some.injEq] at h
        obtain ⟨rfl, rfl⟩ := h
        exact ⟨[], text, long, [], rfl, hcount, nofun, nofun, fun text' long' n' h => by
          simp [limitOperand, h]⟩
      | (u, k) :: rest =>
        -- the count is the number behind the comma, or the one behind `LIMIT`
        by_cases hcomma : u = .symbol "," ∧ ∃ second long k, rest = [(.number second long, k)]
        · obtain ⟨rfl, second, long₂, k₂, rfl⟩ := hcomma
          simp only [limitOperand, hcount] at h
          split at h
          · next hd =>
            cases hsecond : Text.readCount? second with
            | none => simp [hsecond] at h
            | some m₂ =>
              simp only [hsecond, RowCap.rows.injEq, Option.some.injEq] at h
              obtain ⟨rfl, rfl⟩ := h
              exact ⟨[(.number text long, j), (.symbol ",", k)], second, long₂, [], rfl, hsecond,
                by simp [leadsCount], nofun, fun text' long' n' h => by
                  simp [limitOperand, hcount, hd, h]⟩
          · cases h
        · have hother : u = .symbol "," → ∀ second long k, rest ≠ [(.number second long, k)] :=
            fun hu second long k hrest => hcomma ⟨hu, second, long, k, hrest⟩
          rw [limitOperand_more hcount hother] at h
          split at h
          · next hu =>
            cases h
            refine ⟨[], text, long, (u, k) :: rest, rfl, hcount, nofun, ?_, fun text' long' n' h => ?_⟩
            · rintro p hp
              cases hp
              exact ⟨"offset", by decide, hu⟩
            · rw [List.nil_append, limitOperand_more h hother, if_pos hu]
          · cases h
  | (.word _ _, j) :: rest => cases h
  | (.literal _ _, j) :: rest => cases h
  | (.placeholder _, j) :: rest => cases h
  | (.symbol _, j) :: rest => cases h
  | (.customOperator _, j) :: rest => cases h
  | (.blank _, j) :: rest => cases h

/-- A unit that confirms a written count would confirm any other. -/
theorem fetchUnit_some {i : Nat} {cap : RowCap} (h : fetchUnit cap l = .rows n (some i)) :
    cap = .rows n (some i) ∧ (∀ p ∈ l.head?, ∃ keyword ∈ countFollowers, p.1.isKeyword keyword = true) ∧
      ∀ other, fetchUnit other l = other := by
  match l with
  | [] => cases h
  | [_] => cases h
  | (x, j) :: (y, k) :: l =>
    simp only [fetchUnit] at h ⊢
    split at h
    -- the unit does not look at the cap that it passes on
    · next hunit =>
      refine ⟨h, fun p hp => ?_, fun other => if_pos hunit⟩
      cases hp
      simp only [Bool.and_eq_true, Bool.or_eq_true] at hunit
      rcases hunit.1 with hrow | hrows
      · exact ⟨"row", by decide, hrow⟩
      · exact ⟨"rows", by decide, hrows⟩
    · cases h

theorem fetchOperand_replace {i : Nat} (h : fetchOperand l = .rows n (some i)) :
    Replaceable fetchOperand l n i := by
  match l with
  | [] => cases h
  | (t, j) :: rest =>
    rw [fetchOperand_cons] at h
    split at h
    · next ht =>
      have hcap : ∀ l, fetchOperand ([(t, j)] ++ l) = fetchCount l := fun l => by
        rw [List.singleton_append, fetchOperand_cons, if_pos ht]
      have hlead : leadsCount t = true := by
        rcases Bool.or_eq_true_iff.mp ht with ht | ht
        · exact leadsCount_of_isKeyword ht
        · exact leadsCount_of_isKeyword ht
      refine Replaceable.behind ?_ [(t, j)] ⟨(t, j), rfl, hlead⟩ hcap
      -- a count that is found is written out
      have hwritten : ∀ l, fetchUnit (.rows 1 none) l ≠ .rows n (some i) := fun l h => by
        cases (fetchUnit_some h).1
      match rest with
      | (.number text long, k) :: after =>
        simp only [fetchCount] at h
        cases hcount : Text.readCount? text with
        | none =>
          simp only [hcount] at h
          exact absurd h (hwritten _)
        | some m =>
          simp only [hcount] at h
          obtain ⟨hrows, hunit, hother⟩ := fetchUnit_some h
          cases hrows
          exact ⟨[], text, long, after, rfl, hcount, nofun, hunit, fun text' long' n' h => by
            simp [fetchCount, h, hother]⟩
      | [] => cases h
      | (.word _ _, _) :: _ => exact absurd h (hwritten _)
      | (.literal _ _, _) :: _ => exact absurd h (hwritten _)
      | (.placeholder _, _) :: _ => exact absurd h (hwritten _)
      | (.symbol _, _) :: _ => exact absurd h (hwritten _)
      | (.customOperator _, _) :: _ => exact absurd h (hwritten _)
      | (.blank _, _) :: _ => exact absurd h (hwritten _)
    · cases h

/-- **Replacement.** The token that a written count was found in, and what stands around it: with
    another count in its place, that count is found. -/
theorem findCap_replace {ts : List Token} {i : Nat} (h : findCap d ts = .rows n (some i)) :
    ∃ (before : List Token) (text : String) (long : Bool) (behind : List Token),
      ts = before ++ Token.number text long :: behind ∧ before.length = i ∧
      Text.readCount? text = some n ∧
      (∀ t ∈ (before.filter fun t => !t.isTrivia).getLast?, leadsCount t = true) ∧
      (∀ t ∈ (behind.filter fun t => !t.isTrivia).head?,
        ∃ keyword ∈ countFollowers, t.isKeyword keyword = true) ∧
      ∀ text' long' n', Text.readCount? text' = some n' →
        findCap d (before ++ Token.number text' long' :: behind) = .rows n' (some i) := by
  have hreplace : Replaceable (capFrom d 0) (significantTokens ts) n i := by
    rw [findCap, capFrom_eq] at h
    cases hclause : clauseFrom 0 (significantTokens ts) with
    | none =>
      rw [hclause] at h
      cases h
    | some c =>
      obtain ⟨front, hfront, hlead, hother⟩ := clauseFrom_split hclause
      rw [hclause, Option.map_some, Option.getD_some, Clause.cap] at h
      rw [hfront]
      split at h
      · next hfetch =>
        refine (fetchOperand_replace h).behind front hlead fun l => ?_
        rw [capFrom_eq, hother, Option.map_some, Option.getD_some, Clause.cap, if_pos hfetch]
      · next hfetch =>
        refine (limitOperand_replace h).behind front hlead fun l => ?_
        rw [capFrom_eq, hother, Option.map_some, Option.getD_some, Clause.cap, if_neg hfetch]
  obtain ⟨u, text, long, v, hsplit, hread, hu, hv, hother⟩ := hreplace
  -- the tokens that are no trivia, with their indices, stand where the tokens stand
  obtain ⟨x, y, hxy, rfl, hy⟩ := List.filter_eq_append_iff.mp hsplit
  obtain ⟨x', y', rfl, hx', -, rfl⟩ := List.filter_eq_cons_iff.mp hy
  rw [← List.append_assoc] at hxy
  obtain ⟨before, rest, rfl, hbefore, hrest⟩ := List.zipIdx_eq_append_iff.mp hxy
  obtain ⟨t, behind, rfl, ht, rfl⟩ := List.zipIdx_eq_cons_iff.mp hrest.symm
  obtain ⟨rfl, rfl⟩ := Prod.mk.inj ht
  rw [Nat.zero_add] at *
  have hfront : significantTokens before = x.filter fun p => !p.1.isTrivia := by
    have hnil : (x'.filter fun p => !p.1.isTrivia) = [] := List.filter_eq_nil_iff.mpr hx'
    rw [significantTokens, ← hbefore, List.filter_append, hnil, List.append_nil]
  refine ⟨before, text, long, behind, rfl, rfl, hread, fun t ht => ?_, fun t ht => ?_,
    fun text' long' n' h => ?_⟩
  · rw [← map_fst_filter_zipIdx before 0, ← significantTokens, hfront, List.getLast?_map,
      Option.mem_def, Option.map_eq_some_iff] at ht
    obtain ⟨p, hp, rfl⟩ := ht
    exact hu p hp
  · rw [← map_fst_filter_zipIdx behind (before.length + 1), List.head?_map, Option.mem_def,
      Option.map_eq_some_iff] at ht
    obtain ⟨p, hp, rfl⟩ := ht
    exact hv p hp
  · rw [findCap, significantTokens_append, List.zipIdx_cons, List.filter_cons_of_pos rfl, hfront]
    exact hother text' long' n' h

end QueryGate
