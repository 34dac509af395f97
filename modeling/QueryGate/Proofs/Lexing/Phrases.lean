import QueryGate.Proofs.CapSearch
import QueryGate.Proofs.Lexing.Scans
import QueryGate.Proofs.Rewriting

namespace QueryGate.Sql

open Lexer

/-!
# Reading what a rewrite adds

The rewrites of a row limit add words, signs and digits with spaces between them, which every
dialect reads in the same way: `scans_limit` for `LIMIT` and a count, `scans_derivedFront` and
`scans_alias` for what stands around a derived table.
-/

variable {d : Dialect} {p : Option Token} {R : List Char}

/-- The letters that may start a literal. -/
def literalLetters : List Char := ['n', 'N', 'x', 'X', 'b', 'B', 'e', 'E', 'u', 'U']

/-- Other letters begin words only. -/
theorem letterToken_eq_none {c : Char} (hc : c ∉ literalLetters) (cs : List Char) :
    letterToken d c cs = none := by
  simp only [literalLetters, List.mem_cons, List.not_mem_nil, or_false, not_or] at hc
  unfold letterToken
  split <;> simp [hc]

/-- A letter starts what it starts, whatever the dialect quotes. -/
theorem step_letter {c : Char} (hc : c.isAlpha = true) (cs : List Char) :
    step d p c cs = letterOrWord d c cs := by
  -- a letter is none of the characters of the branches before
  have hne : ∀ x : Char, x.isAlpha = false → c ≠ x := by
    rintro x hx rfl
    rw [hx] at hc
    cases hc
  have hdigit : c.isDigit = false := by
    rw [Bool.eq_false_iff]
    intro hdigit
    have hall : ∀ x ∈ tenDigits, x.isAlpha = false := by decide
    rw [hall c (mem_tenDigits hdigit)] at hc
    cases hc
  have hquote : d.identifierQuote? c = none := by
    cases d <;> simp [Dialect.identifierQuote?, hne _ (by decide : '"'.isAlpha = false),
      hne _ (by decide : '\x60'.isAlpha = false), hne _ (by decide : '['.isAlpha = false)]
  unfold step
  rw [if_neg (hne ' ' (by decide)), if_neg (hne '\t' (by decide)), if_neg (hne '\n' (by decide)),
    if_neg (hne '\r' (by decide)), if_neg (hne '\x27' (by decide)), hquote]
  dsimp only
  rw [if_neg (hne '"' (by decide)), hdigit, if_pos hc, if_neg (by simpa using hne '.' (by decide))]
  rfl

/-- An unquoted word before something that does not continue it. -/
theorem step_word {c : Char} {w : List Char} (hc : c.isAlpha = true) (hliteral : c ∉ literalLetters)
    (hw : ∀ x ∈ w, d.continuesWord x = true) (hR : R.head?.any d.continuesWord = false) :
    step d p c (w ++ R) = .ok (.word (String.ofList (c :: w)) none, R) := by
  have hrun := (Class.takeWhile_eq_iff d.continuesWord w R).mpr ⟨hw, hR⟩
  rw [step_letter hc, letterOrWord_of_none (letterToken_eq_none hliteral _), wordToken, hrun,
    List.drop_left]
  rfl

/-- A digit begins a number, whatever stands before it. -/
theorem step_digit {c : Char} (hc : c.isDigit = true) (cs : List Char) :
    step d p c cs = numberOrPeriod d p (c :: cs) := by
  have hne : ∀ x : Char, x.isDigit = false → c ≠ x := by
    rintro x hx rfl
    rw [hx] at hc
    cases hc
  have hquote : d.identifierQuote? c = none := by
    cases d <;> simp [Dialect.identifierQuote?, hne _ (by decide : '"'.isDigit = false),
      hne _ (by decide : '\x60'.isDigit = false), hne _ (by decide : '['.isDigit = false)]
  unfold step
  rw [if_neg (hne ' ' (by decide)), if_neg (hne '\t' (by decide)), if_neg (hne '\n' (by decide)),
    if_neg (hne '\r' (by decide)), if_neg (hne '\x27' (by decide)), hquote]
  dsimp only
  rw [if_neg (hne '"' (by decide)), if_pos (by simp [hc])]

theorem step_space (d : Dialect) (p : Option Token) (cs : List Char) :
    step d p ' ' cs = .ok (.blank .space, cs) := rfl

/-! ### Phrases -/

/-- A word before a character that cannot continue it is read as one token. -/
theorem Scans.word {c : Char} {w : List Char} (hc : c.isAlpha = true) (hliteral : c ∉ literalLetters)
    (hw : ∀ x ∈ w, d.continuesWord x = true) (hR : R.head?.any d.continuesWord = false) :
    Scans d p (c :: w ++ R) [.word (String.ofList (c :: w)) none]
      (some (.word (String.ofList (c :: w)) none)) R :=
  .one (step_word hc hliteral hw hR)

/-- `LIMIT` and a count at the end of a text. -/
theorem scans_limit (d : Dialect) (p : Option Token) (m : Nat) :
    ∃ q, Scans d p ("LIMIT ".toList ++ digits m) (limitClause (String.ofList (digits m))) q [] := by
  have hcontinues : ∀ x ∈ "IMIT".toList, d.continuesWord x = true := by cases d <;> decide
  have hspace : d.continuesWord ' ' = false := (continuesWord_class d).breaks _ (by decide)
  have hword : Scans d p ('L' :: "IMIT".toList ++ ' ' :: digits m) [.word "LIMIT" none] _
      -- the word, a blank, and the number
      (' ' :: digits m) := .word (by decide) (by decide) hcontinues hspace
  obtain ⟨c, ds, hds⟩ := List.exists_cons_of_ne_nil (digits_ne_nil m)
  have hc : c.isDigit = true := isDigit_of_mem_digits (n := m) (by rw [hds]; exact List.mem_cons_self ..)
  have hnumber : step d (some (.blank .space)) c ds
      = .ok (.number (String.ofList (digits m)) false, []) := by
    -- nothing follows the digits
    have hread : numberOrPeriod d (some (.blank .space)) (digits m ++ [])
        = .ok (.number (String.ofList (digits m)) false, []) :=
      numberOrPeriod_digits (fun x => isDigit_of_mem_digits (n := m)) (digits_ne_nil m) rfl
        fun _ => rfl
    rwa [List.append_nil, hds, ← step_digit hc, ← hds] at hread
  have hlast : Scans d (some (.blank .space)) (digits m)
      [.number (String.ofList (digits m)) false]
      (some (.number (String.ofList (digits m)) false)) [] := by
    rw [hds] at hnumber ⊢
    exact .one hnumber
  exact ⟨_, hword.trans (.token (step_space d _ _) hlast)⟩

/-- The tokens that a derived table stands behind. -/
def frontTokens : List Token :=
  [.word "SELECT" none, .blank .space, .symbol "*", .blank .space, .word "FROM" none,
    .blank .space, .symbol "("]

/-- The tokens of the name of a derived table. -/
def aliasTokens : List Token :=
  [.blank .space, .word "AS" none, .blank .space, .word "guarded_result" none]

/-- What a derived table stands behind. -/
theorem scans_derivedFront (d : Dialect) (R : List Char) :
    Scans d none (RowLimit.wrapFront ++ R) frontTokens (some (.symbol "(")) R := by
  have hcontinues : ∀ x ∈ "ELECT".toList ++ "ROM".toList, d.continuesWord x = true := by
    cases d <;> decide
  have hspace : d.continuesWord ' ' = false := (continuesWord_class d).breaks _ (by decide)
  -- star and parenthesis are symbols of their own in every dialect
  have hstar : ∀ p R, step d p '*' R = .ok (.symbol "*", R) := by cases d <;> exact fun _ _ => rfl
  have hopen : ∀ p R, step d p '(' R = .ok (.symbol "(", R) := by cases d <;> exact fun _ _ => rfl
  have hselect : Scans d none ('S' :: "ELECT".toList ++ (" * FROM (".toList ++ R)) [_] _
      (" * FROM (".toList ++ R) :=
    .word (by decide) (by decide) (fun x hx => hcontinues x (List.mem_append_left _ hx)) hspace
  have hfrom : ∀ p, Scans d p ('F' :: "ROM".toList ++ (' ' :: '(' :: R)) [_] _ (' ' :: '(' :: R) :=
    fun p => .word (by decide) (by decide) (fun x hx => hcontinues x (List.mem_append_right _ hx)) hspace
  -- word, blank, star, blank, word, blank and parenthesis in a row
  have hmiddle := (Scans.one (step_space d (some (.word "SELECT" none)) ('*' :: " FROM (".toList ++ R))).trans
    ((Scans.one (hstar _ (" FROM (".toList ++ R))).trans (.one (step_space d _ ("FROM (".toList ++ R))))
  have hlast := (Scans.one (step_space d (some (.word "FROM" none)) ('(' :: R))).trans (.one (hopen _ R))
  exact (hselect.trans hmiddle).trans ((hfrom _).trans hlast)

/-- The name of a derived table. -/
theorem scans_alias (d : Dialect) (p : Option Token) (hR : R.head?.any d.continuesWord = false) :
    ∃ q, Scans d p (" AS guarded_result".toList ++ R) aliasTokens q R := by
  have hcontinues : ∀ x ∈ "S".toList ++ "uarded_result".toList, d.continuesWord x = true := by
    cases d <;> decide
  have hspace : d.continuesWord ' ' = false := (continuesWord_class d).breaks _ (by decide)
  have has : ∀ p, Scans d p ('A' :: "S".toList ++ (" guarded_result".toList ++ R)) [_] _
      (" guarded_result".toList ++ R) := fun p =>
    .word (by decide) (by decide) (fun x hx => hcontinues x (List.mem_append_left _ hx)) hspace
  have hname : ∀ p, Scans d p ('g' :: "uarded_result".toList ++ R) [_] _ R := fun p =>
    .word (by decide) (by decide) (fun x hx => hcontinues x (List.mem_append_right _ hx)) hR
  exact ⟨_, .token (step_space d p _) ((has _).trans (.token (step_space d _ _) (hname _)))⟩

end QueryGate.Sql
