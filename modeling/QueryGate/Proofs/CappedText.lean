import QueryGate.Proofs.Grammar.Queries
import QueryGate.Proofs.Offences
import QueryGate.Proofs.RowCap

namespace QueryGate

open Sql

/-!
# What capping keeps

A capped statement is held to the rules once more.  Here is what a rewrite keeps of a statement
that has met them:

* `RowLimit.enforce_shape` — the first four rules hold of every rewrite, as long as no further words
  are forbidden: a limit, or what stands around a derived table, adds no offence and no semicolon,
  and ends no literal or comment;
* `RowLimit.parse_enforce_of_rows` — a statement that carries a count parses as before, whether the
  count stays or gives way to another one, since the grammar does not look at counts.
-/

/-! ### The start of a statement -/

/-- The second rule looks at the first token, blanks and comments aside. -/
theorem Rules.checkStart_eq_ok_iff (ts : List Token) :
    Rules.checkStart ts = .ok () ↔ ∃ t ∈ (significant ts).head?,
      (t.isKeyword "select" || t.isKeyword "with") = true := by
  rw [Rules.checkStart]
  cases (significant ts).head? with
  | none => simp
  | some t =>
    simp only [Option.mem_some, exists_eq_left']
    split
    · next h => simp [h]
    · next h => simp [h]

/-- Other tokens behind the first one do not change the start. -/
theorem Rules.checkStart_append {ts us vs : List Token} (h : Rules.checkStart (ts ++ us) = .ok ())
    (hus : ∀ t ∈ (significant us).head?, (t.isKeyword "select" || t.isKeyword "with") = false) :
    Rules.checkStart (ts ++ vs) = .ok () := by
  obtain ⟨t, ht, hstart⟩ := (Rules.checkStart_eq_ok_iff _).mp h
  rw [significant_append] at ht
  refine (Rules.checkStart_eq_ok_iff _).mpr ⟨t, ?_, hstart⟩
  rw [significant_append]
  rcases Option.or_eq_some_iff.mp ht with ht | ⟨-, ht⟩
  · rw [ht]
    rfl
  · rw [hus t ht] at hstart
    cases hstart

/-! ### Fit tokens -/

/-- What the second and the fourth rule ask of the tokens of a statement. -/
structure Fits (v : Vocabulary) (ts : List Token) : Prop where
  start : Rules.checkStart ts = .ok ()
  harmless : Harmless v ts

namespace Fits

variable {v : Vocabulary} {ts : List Token}

/-- Another number stands in the place of one. -/
theorem replace {before behind : List Token} {text text' : String} {long long' : Bool}
    (h : Fits v (before ++ Token.number text long :: behind)) :
    Fits v (before ++ Token.number text' long' :: behind) where
  start := Rules.checkStart_append h.start fun t ht => by
    cases ht
    rfl
  harmless := by
    obtain ⟨-, hbehind⟩ := (harmless_cons_iff _ _).mp h.harmless.right
    refine h.harmless.left.append (.cons rfl hbehind) ?_
    exact fun hopen => by cases hopen

end Fits

/-! ### What a rewrite adds is idle -/

section

variable {v : Vocabulary} (hextra : v.extraVerbs = [])

include hextra

theorem isIdle_frontTokens : ∀ t ∈ frontTokens, isIdle v t = true := by
  obtain ⟨d, extra⟩ := v
  obtain rfl : extra = [] := hextra
  cases d <;> decide

theorem isIdle_aliasTokens : ∀ t ∈ aliasTokens, isIdle v t = true := by
  obtain ⟨d, extra⟩ := v
  obtain rfl : extra = [] := hextra
  cases d <;> decide

/-- No token of an appended limit is forbidden. -/
theorem isIdle_limitClause (text : String) : ∀ t ∈ limitClause text, isIdle v t = true := by
  have hword : isIdle v (.word "LIMIT" none) = true := by
    obtain ⟨d, extra⟩ := v
    obtain rfl : extra = [] := hextra
    cases d <;> decide
  simpa [limitClause, hword] using ⟨rfl, rfl⟩

/-- Seams are blanks, and blanks are not forbidden. -/
theorem isIdle_of_isSeam {t : Token} (h : t.isSeam = true) : isIdle v t = true := by
  rcases Bool.or_eq_true_iff.mp h with hgap | hmem
  · exact isIdle_of_isGap hgap
  · have hall : ∀ t ∈ [Token.symbol ")", .word "@)" none, .word "@@)" none], isIdle v t = true := by
      obtain ⟨d, extra⟩ := v
      obtain rfl : extra = [] := hextra
      cases d <;> decide
    exact hall t (List.contains_iff_mem.mp hmem)

end

/-! ### Rewritten texts -/

section

variable {v : Vocabulary} {cs : List Char} {ts : List Token} (hextra : v.extraVerbs = [])
  (hts : tokens v.dialect cs = .ok ts)

include hextra hts

/-- A limit may stand behind fit tokens. -/
theorem Fits.append (h : Fits v ts) (m : Nat) :
    ∃ us, tokens v.dialect (RowLimit.append cs m (endsInLineComment ts)) = .ok us ∧ Fits v us := by
  by_cases hdangling : Dangling v.dialect ts
  · -- the limit is a comment, and the dashes belong to it
    obtain ⟨us, text, rfl, hout⟩ := tokens_append_dangling hts hdangling m
    refine ⟨_, hout, Rules.checkStart_append h.start ?_, ?_⟩
    · rintro t ht
      cases ht
      rfl
    · refine h.harmless.left.append_idle (fun t ht => ?_) ?_
      · rw [List.mem_singleton.mp ht]
        rfl
      · simp
  · obtain ⟨core, gap, gap', rfl, hgap, hout⟩ := tokens_append_gap hts hdangling m
    refine ⟨_, hout, ?_, ?_⟩
    · rw [List.append_assoc]
      refine Rules.checkStart_append h.start fun t ht => ?_
      rw [significant_eq_nil fun t ht => Token.isTrivia_of_isGap
        (hgap t (List.mem_append_left _ ht))] at ht
      cases ht
    · rw [List.append_assoc]
      refine h.harmless.left.append_idle (fun t ht => ?_) fun hopen => ?_
      · rcases List.mem_append.mp ht with ht | ht
        · exact isIdle_of_isGap (hgap t (List.mem_append_right _ ht))
        · exact isIdle_limitClause hextra _ t ht
      · rcases List.mem_append.mp hopen with hopen | hopen
        · cases hgap _ (List.mem_append_right _ hopen)
        · simp [limitClause] at hopen

/-- Harmless tokens are fit as a derived table, whose name is no comment. -/
theorem Fits.derived (h : Harmless v ts) :
    ∃ us, tokens v.dialect (derivedTable cs (endsInLineComment ts)) = .ok us ∧ Fits v us ∧
      endsInLineComment us = false := by
  obtain ⟨core, gap, seam, rfl, hseam, -, hout⟩ := tokens_derivedTable_seam hts
  refine ⟨_, hout, ⟨?_, ?_⟩, ?_⟩
  · refine (Rules.checkStart_eq_ok_iff _).mpr ⟨.word "SELECT" none, rfl, ?_⟩
    decide
  · refine .idle_append (isIdle_frontTokens hextra) ?_
    rw [List.append_assoc]
    refine h.left.append_idle (fun t ht => ?_) fun hopen => ?_
    · rcases List.mem_append.mp ht with ht | ht
      · exact isIdle_of_isSeam hextra (hseam t ht)
      · exact isIdle_aliasTokens hextra t ht
    · rcases List.mem_append.mp hopen with hopen | hopen
      · exact absurd (hseam _ hopen) (by decide)
      · exact absurd hopen (by decide)
  · simp [endsInLineComment, aliasTokens]

/-- Harmless tokens are fit as a derived table with a limit behind it. -/
theorem Fits.wrap (h : Harmless v ts) (m : Nat) :
    ∃ us, tokens v.dialect (RowLimit.wrap cs m (endsInLineComment ts)) = .ok us ∧ Fits v us := by
  obtain ⟨us, hus, hfits, hcomment⟩ := Fits.derived hextra hts h
  rw [wrap_eq_append, ← hcomment]
  exact hfits.append hextra hus m

end

namespace RowLimit

variable {r : Rules} {m : Nat} {st : List Char}

/-- **Shape.** The first four rules hold of every rewrite of a statement that meets them, where no
    words are forbidden but those of the dialect. -/
theorem enforce_shape (policy : LimitPolicy) (hextra : r.vocabulary.extraVerbs = [])
    (hready : Ready st) (h : r.HasShape st) :
    r.HasShape (enforce r.vocabulary.dialect policy m st).value := by
  obtain ⟨ts, hts, hstart, hwords⟩ := h.readable
  have hfits : Fits r.vocabulary ts := ⟨hstart, (Rules.checkWords_eq_ok_iff hts).mp hwords⟩
  have hready' := enforce_ready r.vocabulary.dialect policy m hready h.nonempty
  suffices hout : ∃ us, tokens r.vocabulary.dialect (enforce r.vocabulary.dialect policy m st).value
      = .ok us ∧ Fits r.vocabulary us by
    obtain ⟨us, hus, hfits'⟩ := hout
    refine ⟨fun hnil => ?_, hready'.unseparated, us, hus, hfits'.start,
      (Rules.checkWords_eq_ok_iff hus).mpr hfits'.harmless⟩
    -- the empty text has no first token
    rw [hnil] at hus
    cases hus
    cases hfits'.start
  cases hcap : findCap r.vocabulary.dialect ts with
  | absent =>
    rw [enforce_absent hready hts hcap]
    exact hfits.append hextra hts _
  | unbounded =>
    rw [enforce_unbounded hready hts hcap]
    exact Fits.wrap hextra hts hfits.harmless _
  | rows n position =>
    by_cases hkeep : policy = .clamp → n ≤ max 1 m
    · rw [enforce_kept hready hts hcap hkeep]
      exact ⟨ts, hts, hfits⟩
    · obtain ⟨rfl, hn⟩ : policy = .clamp ∧ max 1 m < n := by simpa using hkeep
      obtain ⟨before, text, long, behind, rfl, -, -, -, hout⟩ := tokens_clamped hready hts hcap hn
      exact ⟨_, hout, hfits.replace⟩

end RowLimit

/-! ### Another count in the grammar -/

namespace Sql.Parser

/-- What stands first among lexemes does not depend on what stands behind the first token. -/
theorem lexemes_head {ts : List Token} {t : Token} (ht : t ∈ ts) (htrivia : t.isTrivia = false)
    (attached : Bool) (us vs : List Token) :
    (lexemes attached (ts ++ us)).head? = (lexemes attached (ts ++ vs)).head? := by
  induction ts generalizing attached with
  | nil => cases ht
  | cons u ts ih =>
    simp only [List.cons_append, lexemes]
    split
    · next hu =>
      rcases List.mem_cons.mp ht with rfl | ht
      · rw [htrivia] at hu
        cases hu
      · exact ih ht false
    · rfl

/-- With another count in the place of one, the lexemes are twins, if no mark stands before it. -/
theorem twins_replace {text text' : String} (long long' : Bool)
    (htext : (Text.readCount? text).isSome = true) (htext' : (Text.readCount? text').isSome = true)
    {before : List Token} (behind : List Token)
    (hlead : ∀ t ∈ (before.filter fun t => !t.isTrivia).getLast?, leadsCount t = true)
    (attached : Bool) :
    Twins (fun _ => True) (lexemes attached (before ++ Token.number text long :: behind))
      (lexemes attached (before ++ Token.number text' long' :: behind)) := by
  induction before generalizing attached with
  | nil => exact .cons trivial (.count _ _ htext htext') nofun (.refl fun _ _ => trivial)
  | cons t before ih =>
    have hrest : ∀ attached, Twins (fun _ => True)
        (lexemes attached (before ++ Token.number text long :: behind))
        (lexemes attached (before ++ Token.number text' long' :: behind)) := by
      refine ih fun u hu => hlead u ?_
      rw [List.filter_cons]
      split
      · rw [List.getLast?_cons, Option.mem_def.mp hu]
        rfl
      · exact hu
    simp only [List.cons_append, lexemes]
    split
    · exact hrest false
    · next ht =>
      refine .cons trivial (.same _) (fun hmark => ?_) (hrest true)
      -- a mark is not what the count stands behind, so there is a token between them
      have hnone : leadsCount t = false := by rcases hmark with rfl | rfl <;> rfl
      have hmore : (before.filter fun t => !t.isTrivia) ≠ [] := by
        intro hnil
        rw [hlead t (by simp [ht, hnil])] at hnone
        cases hnone
      obtain ⟨u, hu⟩ := List.exists_mem_of_ne_nil _ hmore
      rw [List.mem_filter, Bool.not_eq_true'] at hu
      exact lexemes_head hu.1 hu.2 true _ _

end Sql.Parser

/-- Texts parse alike if their tokens do. -/
theorem Sql.parse_congr {d : Dialect} {cs cs' : List Char} {ts ts' : List Token}
    (hts : tokens d cs = .ok ts) (hts' : tokens d cs' = .ok ts')
    (h : Parser.parseTokens d ts' = Parser.parseTokens d ts) : parse d cs' = parse d cs := by
  simp only [parse, hts, hts', h]

/-- **Counts.** A statement that carries a count parses as before when it is capped. -/
theorem RowLimit.parse_enforce_of_rows {d : Dialect} {st : List Char} {ts : List Token} {n m : Nat}
    {position : Option Nat} (policy : LimitPolicy) (hready : Ready st) (hts : tokens d st = .ok ts)
    (hcap : findCap d ts = .rows n position) (hm : max 1 m < Text.countBound) :
    parse d (enforce d policy m st).value = parse d st := by
  by_cases hkeep : policy = .clamp → n ≤ max 1 m
  · rw [enforce_kept hready hts hcap hkeep]
  · obtain ⟨rfl, hn⟩ : policy = .clamp ∧ max 1 m < n := by simpa using hkeep
    obtain ⟨before, text, long, behind, rfl, hread, hlead, -, hout⟩ :=
      tokens_clamped hready hts hcap hn
    have htwins := Parser.twins_replace long false (by rw [hread]; rfl)
      (by rw [readCount?_digits hm]; rfl) behind hlead false
    exact parse_congr hts hout (Parser.parseTokens_twins htwins).1.symm

end QueryGate
