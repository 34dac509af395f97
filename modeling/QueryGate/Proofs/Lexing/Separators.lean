import QueryGate.Proofs.Lexing.Kinds

namespace QueryGate.Sql

open Lexer

/-!
# Separators end tokens

ASCII blanks, parentheses and commas set words apart in every dialect.  Apart from quoted text and
comments, a token holds none of them, except that an operator may take the character behind it
along, and that a word with `@` takes one character whatever it is.

* `Lexer.Plainly` — no separator is taken between two places;
* `Lexer.symbolToken_cases` — what a sign starts, where it does not start operators alone;
* `Lexer.step_nearly` — a token takes no separator but as its last character;
* `Lexer.step_word_head` — where digits start no words, an unquoted word starts with no digit;
* `tokenAt` / `Covers` / `exists_covers` — the token in which a place of a text stands;
* `Covers.scans` — a place behind a separator is the start of a token, unless it is covered by quoted
  text, a comment or a word with `@`.
-/

namespace Lexer

/-- The characters that set words apart in every dialect. -/
def separators : List Char := [' ', '\t', '\n', '\x0b', '\x0c', '\r', '(', ')', ',']

/-- No separator is taken from the first text to come to the second. -/
def Plainly (cs S : List Char) : Prop := ∃ u, cs = u ++ S ∧ ∀ x ∈ u, x ∉ separators

variable {d : Dialect} {previous : Option Token} {cs R S : List Char} {t : Token} {c : Char}

namespace Plainly

theorem refl (cs : List Char) : Plainly cs cs := ⟨[], rfl, by simp⟩

theorem trans (h : Plainly cs R) (h' : Plainly R S) : Plainly cs S := by
  obtain ⟨u, rfl, hu⟩ := h
  obtain ⟨v, rfl, hv⟩ := h'
  refine ⟨u ++ v, (List.append_assoc u v S).symm, fun x hx => ?_⟩
  exact (List.mem_append.mp hx).elim (hu x) (hv x)

theorem cons (hc : c ∉ separators) (h : Plainly cs S) : Plainly (c :: cs) S := by
  obtain ⟨u, rfl, hu⟩ := h
  exact ⟨c :: u, rfl, List.forall_mem_cons.mpr ⟨hc, hu⟩⟩

/-- A run of characters among which no separator is. -/
theorem dropRun {q : Char → Bool} (hq : ∀ x ∈ separators, q x = false) (cs : List Char) :
    Plainly cs (cs.drop (cs.takeWhile q).length) := by
  refine ⟨cs.takeWhile q, (List.prefix_iff_eq_append.mp (List.takeWhile_prefix q)).symm, ?_⟩
  intro x hx hmem
  have hrun := List.all_eq_true.mp (List.all_takeWhile (p := q) (l := cs)) x hx
  rw [hq x hmem] at hrun
  cases hrun

/-- The same where only some dialects look for the run. -/
theorem dropRunIf {q : Char → Bool} (hq : ∀ x ∈ separators, q x = false) (b : Bool)
    (cs : List Char) : Plainly cs (cs.drop (if b then cs.takeWhile q else []).length) := by
  cases b with
  | false => exact .refl cs
  | true => exact .dropRun hq cs

end Plainly

/-! ### Words and numbers -/

/-- No separator continues a word. -/
theorem continuesWord_separators (d : Dialect) : ∀ x ∈ separators, d.continuesWord x = false := by
  cases d <;> decide

/-- A word holds no separator. -/
theorem wordToken_plainly (start : List Char) (h : wordToken d start cs = (t, R)) : Plainly cs R := by
  obtain rfl := congrArg Prod.snd h
  exact .dropRun (continuesWord_separators d) cs

theorem digitRun_plainly (s : Bool) {q : Char → Bool} (hq : ∀ x ∈ separators, q x = false)
    (cs : List Char) : Plainly cs (digitRun s q cs).2 := by
  induction cs with
  | nil => exact .refl []
  | cons c cs ih =>
    cases hruns : runs s q (c :: cs) with
    | false =>
      rw [digitRun_of_not_runs hruns]
      exact .refl _
    | true =>
      rw [digitRun_of_runs hruns]
      refine ih.cons fun hmem => ?_
      have hbar : ∀ x ∈ separators, (x == '_') = false := by decide
      rw [runs, hq c hmem, hbar c hmem, Bool.and_false, Bool.false_and] at hruns
      cases hruns

theorem isDigit_separators : ∀ x ∈ separators, x.isDigit = false := by decide

theorem numberToken_plainly {text : List Char} (h : numberToken text cs = (t, R)) :
    Plainly cs R := by
  unfold numberToken at h
  split at h
  · cases h
    exact (Plainly.refl _).cons (by decide)
  · cases h
    exact .refl _

theorem marked_plainly {text : List Char} (h : marked d previous text cs = (t, R)) :
    Plainly cs R := by
  unfold marked at h
  split at h
  · cases h
    exact .refl _
  · exact numberToken_plainly h

theorem unmarked_plainly {text : List Char} (h : unmarked d text cs = (t, R)) : Plainly cs R := by
  have hrun := Plainly.dropRunIf (continuesWord_separators d) d.numericWords cs
  unfold unmarked at h
  generalize (if d.numericWords then cs.takeWhile d.continuesWord else []) = tail at h hrun
  dsimp only at h
  split at h
  · exact numberToken_plainly h
  · cases h
    exact hrun

theorem exponentOf_plainly {e : List Char} (h : exponentOf cs = .digits e R) : Plainly cs R := by
  cases cs with
  | nil => cases h
  | cons m cs =>
    rw [exponentOf_cons] at h
    split at h
    · next hmark =>
      split at h
      · cases h
      · cases h
        -- sign and digits hold no separator, and neither does the mark
        have hsign : Plainly cs (signed cs).2 := by
          unfold signed
          split
          · exact (Plainly.refl _).cons (by decide)
          · exact (Plainly.refl _).cons (by decide)
          · exact .refl _
        refine Plainly.cons (fun hmem => ?_) (hsign.trans (.dropRun isDigit_separators _))
        have hall : ∀ x ∈ separators, isMark x = false := by decide
        rw [hall m hmem] at hmark
        cases hmark
    · cases h

theorem afterMantissa_plainly {text : List Char} (h : afterMantissa d previous text cs = (t, R)) :
    Plainly cs R := by
  unfold afterMantissa at h
  split at h
  · exact unmarked_plainly h
  · exact marked_plainly h
  · next hdigits => exact (exponentOf_plainly hdigits).trans (marked_plainly h)

theorem decimalFrom_plainly {text : List Char} (h : decimalFrom d previous text cs = (t, R)) :
    Plainly cs R := by
  have hfraction := digitRun_plainly d.digitSeparators isDigit_separators cs
  unfold decimalFrom at h
  split at h
  · cases h
    exact .refl _
  · dsimp only at h
    split at h
    · cases h
      exact hfraction
    · exact hfraction.trans (afterMantissa_plainly h)

theorem decimalToken_plainly {whole : List Char} (h : decimalToken d previous whole cs = (t, R)) :
    Plainly cs R := by
  have hpoint : Plainly cs (pointed cs).2 := by
    unfold pointed
    split
    · exact (Plainly.refl _).cons (by decide)
    · exact .refl _
  rw [decimalToken_eq] at h
  exact hpoint.trans (decimalFrom_plainly h)

/-- Whatever begins with a digit or a period holds no separator. -/
theorem numberOrPeriod_plainly (hc : c.isDigit = true ∨ c = '.')
    (h : numberOrPeriod d previous (c :: cs) = .ok (t, R)) : Plainly (c :: cs) R := by
  rcases hc with hc | rfl
  · have hdigit : c ∉ separators := fun hmem => by
      rw [isDigit_separators c hmem] at hc
      cases hc
    have hwhole := digitRun_plainly d.digitSeparators isDigit_separators cs
    rw [numberOrPeriod_digit d previous hc] at h
    refine .cons hdigit (hwhole.trans ?_)
    generalize (digitRun d.digitSeparators Char.isDigit cs).2 = rest at h
    -- the hexadecimal digits behind `0x` are no separators either
    unfold afterWhole at h
    split at h
    · split at h
      · cases h
        exact (digitRun_plainly _ (by decide) _).cons (by decide)
      · exact decimalToken_plainly (Except.ok.inj h)
    · exact decimalToken_plainly (Except.ok.inj h)
  · rw [numberOrPeriod_point] at h
    refine .cons (by decide) ?_
    split at h
    · split at h
      · cases h
        exact .refl _
      · cases h
    · exact decimalFrom_plainly (Except.ok.inj h)

/-! ### Operators -/

theorem isOperatorPart_separators : ∀ x ∈ separators, isOperatorPart x = false := by decide

/-- At most one character is taken behind a place that is reached without a separator. -/
def Nearly (cs R : List Char) : Prop := ∃ S, Plainly cs S ∧ S.length ≤ R.length + 1

theorem Plainly.nearly (h : Plainly cs R) : Nearly cs R := ⟨R, h, Nat.le_succ _⟩

/-- One more character that is no separator. -/
theorem Nearly.cons (hc : c ∉ separators) (h : Nearly cs R) : Nearly (c :: cs) R := by
  obtain ⟨S, hS, hlength⟩ := h
  exact ⟨S, hS.cons hc, hlength⟩

/-- The extension of an operator holds no separator. -/
theorem extensible_plainly {text : String} (h : extensible d text cs = (t, R)) : Plainly cs R := by
  have hrun := Plainly.dropRunIf isOperatorPart_separators d.customOperators cs
  unfold extensible at h
  generalize (if d.customOperators then cs.takeWhile isOperatorPart else []) = more at h hrun
  dsimp only at h
  split at h
  · cases h
    exact .refl _
  · cases h
    exact hrun

/-- Neither does one that is demanded. -/
theorem onlyExtended_plainly {text : String} (h : onlyExtended d text cs = .ok (t, R)) :
    Plainly cs R := by
  have hrun := Plainly.dropRunIf isOperatorPart_separators d.customOperators cs
  unfold onlyExtended at h
  generalize (if d.customOperators then cs.takeWhile isOperatorPart else []) = more at h hrun
  dsimp only at h
  split at h
  · cases h
  · cases h
    exact hrun

/-- No node of the tree asks for a separator. -/
def Operators.isClear : Operators → Bool
  | next c taken left => !separators.contains c && taken.isClear && left.isClear
  | _ => true

/-- An operator of a clear tree takes at most one separator, its own first character. -/
theorem Operators.read_nearly {tree : Operators} (hclear : tree.isClear = true)
    (h : tree.read d cs = .ok (t, R)) : Nearly cs R := by
  -- on the tree: each node takes at most the character that it asks for
  induction tree generalizing cs with
  | known text =>
    cases h
    exact (Plainly.refl _).nearly
  | extended text => exact (extensible_plainly (Except.ok.inj h)).nearly
  | onlyExtended text => exact (onlyExtended_plainly h).nearly
  | greedy text =>
    cases h
    -- one more character is taken, whatever it is
    refine ⟨cs, .refl cs, ?_⟩
    rw [List.length_tail]
    omega
  | next c taken left ihTaken ihLeft =>
    simp only [isClear, Bool.and_eq_true, Bool.not_eq_true', List.contains_eq_mem,
      decide_eq_false_iff_not] at hclear
    obtain ⟨⟨hc, htaken⟩, hleft⟩ := hclear
    cases cs with
    | nil => exact ihLeft hleft h
    | cons x cs =>
      rw [read_next_cons] at h
      split at h
      · next hx => exact (ihTaken htaken h).cons (hx ▸ hc)
      · exact ihLeft hleft h

/-! ### Tokens -/

end Lexer

/-- Quoted text and comments. -/
def Token.isEnclosed : Token → Bool
  | .literal _ _ => true
  | .word _ (some _) => true
  | .blank (.lineComment _) => true
  | .blank (.blockComment _) => true
  | _ => false

namespace Lexer

variable {d : Dialect} {previous : Option Token} {cs R : List Char} {t : Token} {c : Char}

/-- A line comment may hold separators, for it is enclosed. -/
theorem lineComment_isEnclosed (h : lineComment d cs = (t, R)) : t.isEnclosed = true := by
  cases h
  rfl

/-- A dash begins a comment or an operator. -/
theorem dashToken_nearly (h : dashToken d cs = (t, R)) : t.isEnclosed = true ∨ Nearly cs R := by
  have hminus : ∀ {cs}, minusToken d cs = (t, R) → Nearly cs R := fun h =>
    Operators.read_nearly (by decide) ((minusToken_eq d _).symm.trans (congrArg Except.ok h))
  unfold dashToken at h
  split at h
  · split at h
    · exact .inr (hminus h)
    · exact .inl (lineComment_isEnclosed h)
  · exact .inr (hminus h)

/-- A dollar begins a literal or a placeholder. -/
theorem dollarQuoted_nearly (h : dollarQuoted cs = .ok (t, R)) :
    t.isEnclosed = true ∨ Nearly cs R := by
  rcases dollarQuoted_eq_ok h with ⟨_, _, _, -, -, -, rfl⟩ | ⟨name, rfl, hname, -, rfl⟩
  · exact .inl rfl
  · have hrun := Plainly.dropRun (q := isNamePart) (by decide) (name ++ R)
    rw [hname, List.drop_left] at hrun
    exact .inr hrun.nearly

/-- The tree of the operators that a sign starts, where it starts nothing else. -/
def operators? (d : Dialect) : Char → Option Operators
  | '%' => some (.extended "%")
  | '|' => some (.bar d.customOperators)
  | '=' => some .equals
  | '!' => some .bang
  | '<' => some (.less d.customOperators)
  | '>' => some (.greater d.customOperators)
  | ':' => some .colon
  | '&' => some (.ampersand d.customOperators)
  | '^' => some (.next '@' (.known "^@") (.known "^"))
  | '#' => if d.hashComments then none else some (.hash d.customOperators)
  | '~' => some (.tilde d.customOperators)
  | '@' => if d.startsWord '@' then none else some (.atSign d.customOperators)
  | '?' => if d.customOperators then some .question else none
  | _ => none

/-- The operators of a dialect are read along their tree. -/
theorem symbolToken_eq_read {tree : Operators} (h : operators? d c = some tree) (cs : List Char) :
    symbolToken d c cs = tree.read d cs := by
  unfold operators? at h
  -- one case for each sign that starts operators
  split at h
  · cases h
    exact percent_eq d cs
  · cases h
    exact barToken_eq d cs
  · cases h
    exact equalsToken_eq d cs
  · cases h
    exact bangToken_eq d cs
  · cases h
    exact lessToken_eq d cs
  · cases h
    exact greaterToken_eq d cs
  · cases h
    exact colonToken_eq d cs
  · cases h
    exact ampersandToken_eq d cs
  · cases h
    simp only [symbolToken]
    split <;> simp_all
  · split at h
    · cases h
    · next hhash =>
      cases h
      rw [← hashToken_eq]
      simp [symbolToken, hhash]
  · cases h
    exact tildeToken_eq d cs
  · split at h
    · cases h
    · next hat =>
      cases h
      exact atToken_eq d cs (Bool.eq_false_iff.mpr hat)
  · split at h
    · next hcustom =>
      cases h
      rw [← questionToken_eq]
      simp [symbolToken, hcustom]
    · cases h
  · cases h

/-- A sign that starts operators is no separator, and neither is a character of an operator. -/
theorem isClear_of_operators? {tree : Operators} (h : operators? d c = some tree) :
    c ∉ separators ∧ tree.isClear = true := by
  -- the trees that depend on the dialect are clear in either form
  have hbar : ∀ b, (Operators.bar b).isClear = true := by decide
  have hless : ∀ b, (Operators.less b).isClear = true := by decide
  have hgreater : ∀ b, (Operators.greater b).isClear = true := by decide
  have hampersand : ∀ b, (Operators.ampersand b).isClear = true := by decide
  have htilde : ∀ b, (Operators.tilde b).isClear = true := by decide
  have hhash : ∀ b, (Operators.hash b).isClear = true := by decide
  have hat : ∀ b, (Operators.atSign b).isClear = true := by decide
  -- one operator after the other, each with its own first character
  unfold operators? at h
  repeat' split at h
  all_goals cases h
  all_goals refine ⟨by decide, ?_⟩
  all_goals first
    | decide
    | simp only [hbar, hless, hgreater, hampersand, htilde, hhash, hat]

/-- What starts with a sign that starts more than operators: a comment, a word, a placeholder, text
    between dollar signs, or the sign alone. -/
inductive Unsettled (d : Dialect) (c : Char) (cs R : List Char) (t : Token) : Prop
  | dash (hc : c = '-') (h : dashToken d cs = (t, R))
  | comment (hc : c = '/') (text : String) (ht : t = .blank (.blockComment text))
  | slash (hc : c = '/') (ht : t = .symbol "/") (hR : R = cs)
  | hash (hc : c = '#') (h : lineComment d cs = (t, R))
  | atSign (hd : d.startsWord '@' = true) (hc : c = '@') (h : atToken d cs = .ok (t, R))
  | question (hc : c = '?') (text : String) (ht : t = .placeholder text)
      (hR : R = cs.drop (cs.takeWhile Text.isNumeric).length)
  | word (hc : d.startsWord c = true) (h : wordToken d [c] cs = (t, R))
  | name (hc : c = '$') (h : dollarPlaceholder cs = (t, R))
  | dollar (hc : c = '$') (h : dollarQuoted cs = .ok (t, R))
  | alone (ht : t = .blank .space ∨ t = .symbol c.toString) (hR : R = cs)

/-- What starts with a sign. -/
theorem symbolToken_cases (hnone : operators? d c = none) (h : symbolToken d c cs = .ok (t, R)) :
    Unsettled d c cs R t := by
  unfold symbolToken at h
  split at h
  all_goals first | cases hnone | skip
  · -- left are the signs that start more than operators in some dialect
    exact .dash rfl (Except.ok.inj h)
  · split at h
    · obtain ⟨text, rfl⟩ := blockComment_kind h
      exact .comment rfl text rfl
    · cases h
      exact .slash rfl rfl rfl
  · split at h
    · exact .hash rfl (Except.ok.inj h)
    · next hhash =>
      rw [operators?, if_neg hhash] at hnone
      cases hnone
  · cases hat : d.startsWord '@' with
    | true => exact .atSign hat rfl h
    | false =>
      rw [operators?, hat] at hnone
      cases hnone
  · split at h
    · next hcustom =>
      rw [operators?, if_pos hcustom] at hnone
      cases hnone
    · cases h
      exact .question rfl _ rfl rfl
  · split at h
    · next hstart => exact .word hstart (Except.ok.inj h)
    split at h
    · next hdollar =>
      split at h
      · exact .name hdollar (Except.ok.inj h)
      · exact .dollar hdollar h
    split at h
    · cases h
      exact .alone (.inl rfl) rfl
    · cases h
      exact .alone (.inr rfl) rfl

/-- A sign takes no separator but as the last character of its token, unless it starts quoted text,
    a comment or a word with `@`. -/
theorem symbolToken_nearly (h : symbolToken d c cs = .ok (t, R)) :
    t.isEnclosed = true ∨ d = .mysql ∧ c = '@' ∨ Nearly (c :: cs) R := by
  have hone : Nearly (c :: cs) cs := ⟨c :: cs, .refl _, Nat.le_refl _⟩
  cases htree : operators? d c with
  | some tree =>
    obtain ⟨hc, hclear⟩ := isClear_of_operators? htree
    rw [symbolToken_eq_read htree] at h
    exact .inr (.inr ((Operators.read_nearly hclear h).cons hc))
  | none =>
    cases symbolToken_cases htree h with
    | dash hc h => exact (dashToken_nearly h).imp_right fun hnear => .inr (hc ▸ hnear.cons (by decide))
    | comment _ text ht => exact .inl (by rw [ht]; rfl)
    | slash _ _ hR => exact .inr (.inr (hR ▸ hone))
    | hash _ h => exact .inl (lineComment_isEnclosed h)
    | atSign hd hc =>
      cases d with
      | mysql => exact .inr (.inl ⟨rfl, hc⟩)
      | postgresql => cases hd
      | sqlite => cases hd
    | question hc _ _ hR =>
      subst hc hR
      exact .inr (.inr ((Plainly.dropRun (by decide) cs).nearly.cons (by decide)))
    | word hc h =>
      -- what starts words continues them, so it is no separator
      refine .inr (.inr ((wordToken_plainly _ h).nearly.cons fun hmem => ?_))
      have hcontinues := continuesWord_separators d c hmem
      rw [Dialect.continuesWord, hc] at hcontinues
      cases hcontinues
    | name hc hname =>
      subst hc
      cases hname
      exact .inr (.inr ((Plainly.dropRun (by decide) cs).nearly.cons (by decide)))
    | dollar hc hquoted =>
      subst hc
      exact (dollarQuoted_nearly hquoted).imp_right fun hnear => .inr (hnear.cons (by decide))
    | alone _ hR => exact .inr (.inr (hR ▸ hone))

/-- Where `@` starts a word, it starts a word or an operator without separators. -/
theorem atToken_nearly (h : atToken .mysql cs = .ok (t, R)) :
    (∃ text, t = .word text none ∧ text.toList.head? = some '@') ∨ Nearly ('@' :: cs) R := by
  have hstart : Dialect.mysql.startsWord '@' = true := rfl
  have hword : ∀ {start cs}, (.ok (wordToken .mysql ('@' :: start) cs) : Step) = .ok (t, R) →
      ∃ text, t = .word text none ∧ text.toList.head? = some '@' := by
    intro start cs h
    obtain rfl := congrArg Prod.fst (Except.ok.inj h)
    exact ⟨_, rfl, by simp⟩
  have hone : ∀ {S : List Char}, Nearly ('@' :: S) S := (Plainly.refl _).nearly.cons (by decide)
  have htwo : ∀ {S : List Char}, ∀ x ∈ ['@', '>', '?'], Nearly ('@' :: x :: S) S := by
    intro S x hx
    have hall : ∀ x ∈ ['@', '>', '?'], x ∉ separators := by decide
    exact ((Plainly.refl S).cons (hall x hx)).nearly.cons (by decide)
  have hcustom : Dialect.mysql.customOperators = false := rfl
  -- MySQL has no operators that others extend, so those branches are closed
  unfold atToken at h
  simp only [hcustom, Bool.and_false, Bool.false_eq_true, if_false] at h
  repeat' split at h
  all_goals first
    | exact .inl (hword h)
    | cases h
  all_goals first
    | exact .inr hone
    | exact .inr (htwo _ (by decide))

/-- **Separators.** A token is quoted text or a comment, or a word with `@`, or two characters that
    end a line, or takes at most one character behind a place that it reaches without a separator. -/
theorem step_nearly (h : step d previous c cs = .ok (t, R)) :
    t.isEnclosed = true ∨ d = .mysql ∧ c = '@' ∨ c :: cs = '\r' :: '\n' :: R ∨
      Nearly (c :: cs) R := by
  have hone : Nearly (c :: cs) cs := ⟨c :: cs, .refl _, Nat.le_refl _⟩
  -- blanks first, then quoted text, numbers, letters and signs
  unfold step at h
  split at h
  · cases h
    exact .inr (.inr (.inr hone))
  split at h
  · cases h
    exact .inr (.inr (.inr hone))
  split at h
  · cases h
    exact .inr (.inr (.inr hone))
  split at h
  · next hreturn =>
    subst hreturn
    split at h
    · cases h
      exact .inr (.inr (.inl rfl))
    · cases h
      exact .inr (.inr (.inr hone))
  split at h
  · obtain ⟨text, rfl⟩ := stringLiteral_kind h
    exact .inl rfl
  split at h
  · unfold quotedIdentifier at h
    split at h
    · cases h
      exact .inl rfl
    · cases h
  split at h
  · obtain ⟨text, rfl⟩ := stringLiteral_kind h
    exact .inl rfl
  split at h
  · next hnumber =>
    exact .inr (.inr (.inr (numberOrPeriod_plainly (by simpa using hnumber) h).nearly))
  split at h
  · next hletter =>
    -- a letter may start a literal, else it starts a word
    have hc : c ∉ separators := fun hmem => by
      have hall : ∀ x ∈ separators, x.isAlpha = false := by decide
      rw [hall c hmem] at hletter
      cases hletter
    cases hliteral : letterToken d c cs with
    | some read =>
      rw [hliteral, Option.getD_some] at h
      subst h
      obtain ⟨kind, text, rfl⟩ := letterToken_kind hliteral
      exact .inl rfl
    | none =>
      rw [hliteral, Option.getD_none] at h
      exact .inr (.inr (.inr ((wordToken_plainly _ (Except.ok.inj h)).cons hc).nearly))
  · exact (symbolToken_nearly h).imp_right (Or.imp_right .inr)

/-! ### The first character of a word -/

/-- No operator is a word. -/
theorem Operators.read_bareWord? {tree : Operators} (h : tree.read d cs = .ok (t, R)) :
    t.bareWord? = none := by
  -- along the tree: every leaf makes a symbol or an operator
  induction tree generalizing cs with
  | known text =>
    cases h
    rfl
  | extended text =>
    rcases extensible_kind d text cs with heq | ⟨longer, rest, heq⟩
    · rw [read_extended, heq] at h
      cases h
      rfl
    · rw [read_extended, heq] at h
      cases h
      rfl
  | onlyExtended text =>
    rw [read_onlyExtended] at h
    unfold Lexer.onlyExtended at h
    generalize (if d.customOperators then cs.takeWhile isOperatorPart else []) = more at h
    dsimp only at h
    split at h
    · cases h
    · cases h
      rfl
  | greedy text =>
    cases h
    rfl
  | next c taken left ihTaken ihLeft =>
    cases cs with
    | nil => exact ihLeft h
    | cons x cs =>
      rw [read_next_cons] at h
      split at h
      · exact ihTaken h
      · exact ihLeft h

/-- Neither is a comment. -/
theorem dashToken_bareWord? (h : dashToken d cs = (t, R)) : t.bareWord? = none := by
  have hminus : ∀ {cs}, minusToken d cs = (t, R) → t.bareWord? = none := fun h =>
    Operators.read_bareWord? ((minusToken_eq d _).symm.trans (congrArg Except.ok h))
  unfold dashToken at h
  split at h
  · split at h
    · exact hminus h
    · cases h
      rfl
  · exact hminus h

/-- A letter starts words. -/
theorem startsWord_of_isAlpha (d : Dialect) (hc : c.isAlpha = true) : d.startsWord c = true := by
  cases d <;> simp [Dialect.startsWord, hc]

/-- No digit starts a word by itself. -/
theorem isDigit_of_startsWord (hc : d.startsWord c = true) : c.isDigit = false := by
  rw [Bool.eq_false_iff]
  intro hdigit
  have hall : ∀ x ∈ tenDigits, d.startsWord x = false := by cases d <;> decide
  rw [hall c (mem_tenDigits hdigit)] at hc
  cases hc

/-- An unquoted word is a run of characters that continue words, unless it starts with digits or
    with `@`. -/
theorem step_bareWord {text : String} (h : step d previous c cs = .ok (.word text none, R)) :
    d.startsWord c = true ∧ wordToken d [c] cs = (.word text none, R) ∨
      (c.isDigit = true ∨ c = '.') ∧ d.numericWords = true ∧
        numberOrPeriod d previous (c :: cs) = .ok (.word text none, R) ∨
      d = .mysql ∧ c = '@' := by
  -- blanks and quoted text are no bare words
  unfold step at h
  split at h
  · cases h
  split at h
  · cases h
  split at h
  · cases h
  split at h
  · split at h <;> cases h
  split at h
  · obtain ⟨text, ht⟩ := stringLiteral_kind h
    cases ht
  split at h
  · unfold quotedIdentifier at h
    split at h <;> cases h
  split at h
  · obtain ⟨text, ht⟩ := stringLiteral_kind h
    cases ht
  split at h
  · next hnumber =>
    -- digits start a word only in dialects that have such words
    have hlike := numberOrPeriod_like (by simpa using hnumber) h
    exact .inr (.inl ⟨by simpa using hnumber, hlike, h⟩)
  split at h
  · next halpha =>
    cases hletter : letterToken d c cs with
    | some read =>
      rw [hletter, Option.getD_some] at h
      subst h
      obtain ⟨kind, _, ht⟩ := letterToken_kind hletter
      cases ht
    | none =>
      rw [hletter, Option.getD_none] at h
      exact .inl ⟨startsWord_of_isAlpha d halpha, Except.ok.inj h⟩
  -- of the signs, those that start words
  cases htree : operators? d c with
  | some tree =>
    rw [symbolToken_eq_read htree] at h
    cases Operators.read_bareWord? h
  | none =>
    cases symbolToken_cases htree h with
    | dash _ hdash => cases dashToken_bareWord? hdash
    | comment _ _ ht => cases ht
    | slash _ ht => cases ht
    | hash _ hline => cases hline
    | atSign hstart hc =>
      cases d with
      | mysql => exact .inr (.inr ⟨rfl, hc⟩)
      | postgresql => cases hstart
      | sqlite => cases hstart
    | question _ _ ht => cases ht
    | word hstart hread => exact .inl ⟨hstart, hread⟩
    | name _ hread => cases hread
    | dollar _ hread =>
      rcases dollarQuoted_eq_ok hread with ⟨_, _, _, -, -, -, ht⟩ | ⟨_, -, -, -, ht⟩ <;> cases ht
    | alone ht => rcases ht with ht | ht <;> cases ht

/-- A word that `@` starts starts with it. -/
theorem atToken_head {text : String} (h : atToken .mysql cs = .ok (.word text none, R)) :
    text.toList.head? = some '@' := by
  have hword : ∀ {start cs}, wordToken .mysql ('@' :: start) cs = (.word text none, R) →
      text.toList.head? = some '@' := by
    intro start cs h
    cases congrArg Prod.fst h
    simp
  have hcustom : Dialect.mysql.customOperators = false := rfl
  unfold atToken at h
  simp only [hcustom, Bool.and_false, Bool.false_eq_true, if_false] at h
  repeat' split at h
  all_goals first
    | exact hword (Except.ok.inj h)
    | cases h

/-- A word begins with the character that it is read from. -/
theorem wordToken_head {text : String} (h : wordToken d [c] cs = (.word text none, R)) :
    text.toList.head? = some c := by
  cases congrArg Prod.fst h
  simp

/-- Where digits start no words, an unquoted word starts with no digit. -/
theorem step_word_head (hd : d.numericWords = false) {text : String}
    (h : step d previous c cs = .ok (.word text none, R)) :
    text.toList.head? = some c ∧ c.isDigit = false := by
  rcases step_bareWord h with ⟨hstart, hword⟩ | ⟨-, hnumeric, -⟩ | ⟨rfl, -⟩
  · exact ⟨wordToken_head hword, isDigit_of_startsWord hstart⟩
  · rw [hd] at hnumeric
    cases hnumeric
  · cases hd

/-- A number is no word. -/
theorem numberToken_ne_word {text : String} {front : List Char} :
    numberToken front cs ≠ (.word text none, R) := by
  intro h
  unfold numberToken at h
  split at h <;> cases h

/-- Where a word begins with digits its first character is the first digit. -/
theorem afterMantissa_head {text : String} {mantissa : List Char} (hhead : mantissa.head? = some c)
    (h : afterMantissa d previous mantissa cs = (.word text none, R)) :
    text.toList.head? = some c := by
  have hfront : ∀ more : List Char, (String.ofList (mantissa ++ more)).toList.head? = some c := by
    intro more
    rw [String.toList_ofList, List.head?_append, hhead]
    rfl
  have hmarked : ∀ {more cs : List Char}, marked d previous (mantissa ++ more) cs
      = (.word text none, R) → text.toList.head? = some c := by
    intro more cs h
    unfold marked at h
    split at h
    · cases h
      exact hfront more
    · exact absurd h numberToken_ne_word
  unfold afterMantissa at h
  split at h
  · -- without an exponent, what continues words makes one of the digits
    unfold unmarked at h
    generalize (if d.numericWords then cs.takeWhile d.continuesWord else []) = tail at h
    dsimp only at h
    split at h
    · exact absurd h numberToken_ne_word
    · cases h
      exact hfront tail
  · rw [← List.append_nil mantissa] at h
    exact hmarked h
  · exact hmarked h

/-- A word that a digit or a point starts starts with it. -/
theorem numberOrPeriod_word_head {text : String} (hc : c.isDigit = true ∨ c = '.')
    (h : numberOrPeriod d previous (c :: cs) = .ok (.word text none, R)) :
    text.toList.head? = some c := by
  -- a word comes from what follows the mantissa, and the mantissa begins with `c`
  have hfrom : ∀ {more cs : List Char}, decimalFrom d previous (c :: more) cs = (.word text none, R) →
      text.toList.head? = some c := by
    intro more cs h
    unfold decimalFrom at h
    split at h
    · cases h
    dsimp only at h
    split at h
    · cases h
    exact afterMantissa_head (by simp) h
  have hdecimal : ∀ {ds cs : List Char},
      (.ok (decimalToken d previous (c :: ds) cs) : Step) = .ok (.word text none, R) →
      text.toList.head? = some c := by
    intro ds cs h
    rw [decimalToken_eq] at h
    exact hfrom (Except.ok.inj h)
  -- a digit begins the mantissa; a period does so only before digits
  rcases hc with hc | rfl
  · rw [numberOrPeriod_digit d previous hc] at h
    unfold afterWhole at h
    split at h
    · split at h
      · cases h
      · exact hdecimal h
    · exact hdecimal h
  · rw [numberOrPeriod_point] at h
    split at h
    · split at h <;> cases h
    · exact hfrom (Except.ok.inj h)

/-- An unquoted word starts with the character that it is read from. -/
theorem step_bareWord_head {text : String} (h : step d previous c cs = .ok (.word text none, R)) :
    text.toList.head? = some c := by
  rcases step_bareWord h with ⟨-, hword⟩ | ⟨hc, -, hnumber⟩ | ⟨rfl, rfl⟩
  · exact wordToken_head hword
  · exact numberOrPeriod_word_head hc hnumber
  · exact atToken_head h

end Lexer

/-! ### The token at a place -/

/-- What is read first of a text is what every reading of it starts with. -/
theorem Scans.rest {d : Dialect} {p q r : Option Token} {cs S : List Char} {us ts : List Token}
    (h : Scans d p cs us q S) (hall : Scans d p cs ts r []) :
    ∃ vs, ts = us ++ vs ∧ Scans d q S vs r [] := by
  induction h generalizing ts with
  | done p cs => exact ⟨ts, rfl, hall⟩
  | token hstep _ ih =>
    cases hall with
    | token hstep' hmore =>
      cases hstep.symm.trans hstep'
      obtain ⟨vs, rfl, hrest⟩ := ih hmore
      exact ⟨vs, rfl, hrest⟩

/-- A token is read somewhere. -/
theorem Scans.exists_step {d : Dialect} {p q : Option Token} {cs S : List Char} {ts : List Token}
    {t : Token} (h : Scans d p cs ts q S) (ht : t ∈ ts) :
    ∃ p' c w R, step d p' c w = .ok (t, R) := by
  induction h with
  | done p cs => cases ht
  | token hstep _ ih =>
    rcases List.mem_cons.mp ht with rfl | ht
    · exact ⟨_, _, _, _, hstep⟩
    · exact ih ht

/-- The token in which a text is read on where `n` characters are left; each token takes at least one
    character, so the length of the text is fuel enough. -/
def tokenFrom (d : Dialect) (n : Nat) : Nat → Option Token → List Char → Option Token
  | 0, _, _ => none
  | _ + 1, _, [] => none
  | fuel + 1, previous, c :: cs =>
    match step d previous c cs with
    | .ok (t, R) => if R.length < n then some t else tokenFrom d n fuel (some t) R
    | .error _ => none

/-- The token in which a text is read on between `before` and `after`. -/
def tokenAt (d : Dialect) (before after : List Char) : Option Token :=
  tokenFrom d after.length (before ++ after).length none (before ++ after)

/-- Reading comes to a place at or before the one between `before` and `after`, and the token that
    starts there ends behind it. -/
inductive Covers (d : Dialect) (before after : List Char) (t : Token) : Prop
  | intro (front part : List Char) (hfront : before = front ++ part) {ts : List Token}
      {q : Option Token} {c : Char} {cs R : List Char} (hcs : part ++ after = c :: cs)
      (hscan : Scans d none (before ++ after) ts q (c :: cs)) (hstep : step d q c cs = .ok (t, R))
      (hlength : R.length < after.length)

variable {d : Dialect} {before after : List Char} {t : Token}

/-- Every place but the end of a text stands in one of its tokens. -/
theorem exists_covers {ts : List Token} (h : tokens d (before ++ after) = .ok ts)
    (hafter : after ≠ []) : ∃ t, tokenAt d before after = some t ∧ Covers d before after t := by
  obtain ⟨q, hscan⟩ := (tokens_eq_ok_iff d _ ts).mp h
  -- reading on from a place at or before this one
  have hrest : ∀ {us vs : List Token} {p q : Option Token} (front part : List Char) (fuel : Nat),
      (part ++ after).length ≤ fuel → Scans d none (front ++ part ++ after) us p (part ++ after) →
      Scans d p (part ++ after) vs q [] →
      ∃ t, tokenFrom d after.length fuel p (part ++ after) = some t ∧
        Covers d (front ++ part) after t := by
    intro us vs p q front part fuel hfuel hbefore hbehind
    induction vs generalizing us p front part fuel with
    | nil =>
      generalize hnil : part ++ after = rest at hbehind
      cases hbehind
      exact absurd (List.append_eq_nil_iff.mp hnil).2 hafter
    | cons v vs ih =>
      generalize hcs : part ++ after = rest at hbehind hfuel
      cases hbehind with
      | @token _ _ c _ cs R _ _ hstep hmore =>
        cases fuel with
        | zero => exact absurd hfuel (by simp)
        | succ fuel =>
          simp only [tokenFrom, hstep]
          by_cases hlength : R.length < after.length
          · rw [if_pos hlength]
            exact ⟨v, rfl, .intro front part rfl hcs (hcs ▸ hbefore) hstep hlength⟩
          · rw [if_neg hlength]
            obtain ⟨w, rfl⟩ := step_suffix hstep
            -- the token ends at or before the place
            obtain ⟨part', rfl, rfl⟩ : ∃ part', part = c :: w ++ part' ∧ R = part' ++ after := by
              rcases List.append_eq_append_iff.mp (hcs.trans (List.cons_append ..).symm) with
                ⟨mid, hpart, hmid⟩ | hpart
              · have hnil : mid = [] := by
                  rw [hmid, List.length_append] at hlength
                  exact List.length_eq_zero_iff.mp (by omega)
                subst hnil
                exact ⟨[], by simpa using hpart.symm, hmid.symm⟩
              · exact hpart
            have hshift : front ++ (c :: w ++ part') = front ++ c :: w ++ part' := by simp
            rw [hcs, hshift] at hbefore
            rw [List.length_cons, List.length_append] at hfuel
            rw [hshift]
            exact ih (front ++ c :: w) part' fuel (by omega) (hbefore.trans (.one hstep)) hmore
  exact hrest [] before _ (Nat.le_refl _) (.done none _) hscan

/-- Unquoted words that start with `@`. -/
def Token.isAtWord : Token → Bool
  | .word text none => text.toList.head? == some '@'
  | _ => false

/-- **Places behind a separator.** Behind a separator and before anything but the end of a line a
    token starts, unless the place is covered by quoted text, a comment or a word with `@`. -/
theorem Covers.scans (h : Covers d before after t) (henclosed : t.isEnclosed = false)
    (hat : t.isAtWord = false)
    (hbefore : ∀ x ∈ before.getLast?, x ∈ separators) (hafter : after.head? ≠ some '\n') :
    ∃ ts q, Scans d none (before ++ after) ts q after := by
  obtain @⟨front, part, rfl, ts, q, c, cs, R, hcs, hscan, hstep, hlength⟩ := h
  rcases List.eq_nil_or_concat part with rfl | ⟨part, x, rfl⟩
  · rw [← hcs] at hscan
    exact ⟨_, _, hscan⟩
  -- the token would hold the separator
  rw [List.concat_eq_append] at hbefore hcs
  have hx : x ∈ separators := hbefore x (by simp)
  have hnear : ¬Nearly (c :: cs) R := by
    rintro ⟨S, ⟨u, hu, hplain⟩, hS⟩
    have hlengths := congrArg List.length (hcs.trans hu)
    simp only [List.length_append, List.length_singleton] at hlengths
    have hfront : part ++ [x] <+: u :=
      List.prefix_of_prefix_length_le (hcs ▸ List.prefix_append _ _) (hu ▸ List.prefix_append u S)
        (by simp only [List.length_append, List.length_singleton]; omega)
    exact hplain x (hfront.subset (by simp)) hx
  rcases step_nearly hstep with h | ⟨rfl, rfl⟩ | hline | h
  · rw [henclosed] at h
    cases h
  · rcases atToken_nearly hstep with ⟨text, rfl, hhead⟩ | h
    · rw [Token.isAtWord, hhead] at hat
      cases hat
    · exact absurd h hnear
  · -- the place stands between the two characters
    have htwo := hcs.trans hline
    have hlengths := congrArg List.length htwo
    simp only [List.length_append, List.length_cons] at hlengths
    obtain rfl : part = [] := List.length_eq_zero_iff.mp (by omega)
    obtain ⟨-, rfl⟩ := List.cons.inj htwo
    exact absurd rfl hafter
  · exact absurd h hnear

end QueryGate.Sql
