import QueryGate.Proofs.Lexing.Phrases

namespace QueryGate.Sql.Lexer

/-!
# Which characters start which tokens

* `step_numberPart` — a character that digits may run into starts neither trivia nor one of the
  words that may follow a count, where digits start no words;
* `step_eq_minus` — only a dash is read as a minus sign, where dashes start no longer operators;
* `step_eq_blockComment` — only a slash and a star start a block comment.
-/

variable {d : Dialect} {previous : Option Token} {cs R : List Char} {t : Token}

/-- The kinds of tokens that a digit or a point starts. -/
def NumberLike (d : Dialect) : Token → Prop
  | .number _ _ => True
  | .literal _ _ => True
  | .symbol text => text = "."
  | .word _ _ => d.numericWords = true
  | _ => False

theorem numberToken_like (text cs : List Char) : NumberLike d (numberToken text cs).1 := by
  unfold numberToken
  split <;> trivial

theorem marked_like (text cs : List Char) : NumberLike d (marked d previous text cs).1 := by
  unfold marked
  split
  · next hword => exact (Bool.and_eq_true_iff.mp hword).1
  · exact numberToken_like text cs

theorem unmarked_like (text cs : List Char) : NumberLike d (unmarked d text cs).1 := by
  unfold unmarked
  cases hwords : d.numericWords with
  | false => exact numberToken_like text cs
  | true =>
    simp only [if_true]
    split
    · exact numberToken_like text cs
    · exact hwords

theorem afterMantissa_like (text cs : List Char) :
    NumberLike d (afterMantissa d previous text cs).1 := by
  unfold afterMantissa
  split
  · exact unmarked_like text cs
  · exact marked_like text cs
  · exact marked_like _ _

theorem decimalFrom_like (d : Dialect) (previous : Option Token) (text cs : List Char) :
    NumberLike d (decimalFrom d previous text cs).1 := by
  unfold decimalFrom
  split
  · rfl
  · dsimp only
    split
    · rfl
    · exact afterMantissa_like _ _

/-- What begins with a digit or a period is like a number. -/
theorem numberOrPeriod_like {c : Char} (hc : c.isDigit = true ∨ c = '.')
    (h : numberOrPeriod d previous (c :: cs) = .ok (t, R)) : NumberLike d t := by
  -- a decimal is like a number, however it was begun
  have hdecimal : ∀ {whole rest}, .ok (decimalToken d previous whole rest) = (.ok (t, R) : Step) →
      NumberLike d t := by
    intro whole rest h
    have hlike := decimalFrom_like d previous (whole ++ (pointed rest).1)
      (pointed rest).2
    rwa [← decimalToken_eq, Except.ok.inj h] at hlike
  rcases hc with hc | rfl
  · rw [numberOrPeriod_digit d previous hc] at h
    unfold afterWhole at h
    -- only `0x` gives a literal
    split at h
    · split at h
      · cases h
        trivial
      · exact hdecimal h
    · exact hdecimal h
  · rw [numberOrPeriod_point] at h
    split at h
    · split at h
      · cases h
        rfl
      · cases h
    · have hlike := decimalFrom_like d previous ['.'] cs
      rwa [Except.ok.inj h] at hlike

/-- A literal is of the kind that its quote says. -/
theorem stringLiteral_kind {kind : LiteralKind} {quote : Char} {escapes : Bool}
    (h : stringLiteral kind quote escapes cs = .ok (t, R)) : ∃ text, t = .literal kind text := by
  unfold stringLiteral at h
  split at h
  · cases h
    exact ⟨_, rfl⟩
  · cases h

/-- What a letter introduces is a literal. -/
theorem letterToken_kind {c : Char} (h : letterToken d c cs = some (.ok (t, R))) :
    ∃ kind text, t = .literal kind text := by
  -- every reader behind a letter makes a literal
  have hescaped : ∀ {cs}, escapedLiteral cs = .ok (t, R) → ∃ kind text, t = .literal kind text := by
    intro cs h
    unfold escapedLiteral at h
    split at h
    · cases h
      exact ⟨_, _, rfl⟩
    · cases h
  have hunicode : ∀ {cs}, unicodeLiteral cs = .ok (t, R) → ∃ kind text, t = .literal kind text := by
    intro cs h
    obtain ⟨⟨text, rest⟩, -, heq⟩ := bind_eq_ok_iff.mp h
    cases heq
    exact ⟨_, _, rfl⟩
  have hstring : ∀ {kind quote escapes cs}, stringLiteral kind quote escapes cs = .ok (t, R) →
      ∃ kind text, t = .literal kind text := fun h => ⟨_, stringLiteral_kind h⟩
  unfold letterToken at h
  repeat' split at h
  all_goals first
    | cases h
    | exact hstring (Option.some.inj h)
    | exact hescaped (Option.some.inj h)
    | exact hunicode (Option.some.inj h)

/-- What starts with a letter is a literal or a word that starts with it. -/
theorem letterOrWord_kind {c : Char} (h : letterOrWord d c cs = .ok (t, R)) :
    (∃ kind text, t = .literal kind text) ∨ ∃ w, t = .word (String.ofList (c :: w)) none := by
  unfold letterOrWord at h
  cases hletter : letterToken d c cs with
  | some read =>
    rw [hletter, Option.getD_some] at h
    rw [h] at hletter
    exact .inl (letterToken_kind hletter)
  | none =>
    rw [hletter] at h
    cases h
    exact .inr ⟨_, rfl⟩

/-! ### Numbers go on, or something else starts -/

/-- Words that are equal up to case start alike. -/
theorem asciiEqual_head {c x : Char} {w : List Char} {keyword : String}
    (h : Text.asciiEqual (String.ofList (c :: w)) keyword = true)
    (hx : keyword.toList.head? = some x) : c.toLower = x.toLower := by
  have hlists := congrArg String.toList (beq_iff_eq.mp h)
  simp only [Text.asciiLower, String.toList_ofList] at hlists
  obtain ⟨rest, hrest⟩ : ∃ rest, keyword.toList = x :: rest := List.head?_eq_some_iff.mp hx
  rw [hrest] at hlists
  exact (List.cons.inj hlists).1

/-- A period begins a number or stands alone. -/
theorem step_point (cs : List Char) : step d previous '.' cs = numberOrPeriod d previous ('.' :: cs) := by
  cases d <;> rfl

/-- An underscore begins a word. -/
theorem step_underscore (cs : List Char) :
    step d previous '_' cs = .ok (wordToken d ['_'] cs) := by
  cases d <;> rfl

/-- Where digits start no words, a character that they may run into starts neither trivia nor a
    word that may follow a count. -/
theorem step_numberPart (hd : d.numericWords = false) {c : Char} (hc : isNumberPart c = true)
    (h : step d previous c cs = .ok (t, R)) :
    t.isTrivia = false ∧ ∀ keyword ∈ countFollowers, t.isKeyword keyword = false := by
  have hnumber : ∀ t, NumberLike d t →
      t.isTrivia = false ∧ ∀ keyword ∈ countFollowers, t.isKeyword keyword = false := by
    intro t ht
    match t with
    | .number _ _ => exact ⟨rfl, fun _ _ => rfl⟩
    | .literal _ _ => exact ⟨rfl, fun _ _ => rfl⟩
    | .symbol _ => exact ⟨rfl, fun _ _ => rfl⟩
    | .word _ _ =>
      have ht : d.numericWords = true := ht
      rw [hd] at ht
      cases ht
  -- a word that starts with `c` is none of those that may follow a count
  have hword : c.toLower ∉ ['o', 'r'] → ∀ w, (Token.word (String.ofList (c :: w)) none).isTrivia
      = false ∧ ∀ keyword ∈ countFollowers,
        (Token.word (String.ofList (c :: w)) none).isKeyword keyword = false := by
    refine fun hlower w => ⟨rfl, fun keyword hkeyword => ?_⟩
    rw [Bool.eq_false_iff]
    intro hequal
    have hstart : ∀ keyword ∈ countFollowers,
        keyword.toList.head?.any (fun x => ['o', 'r'].contains x.toLower) = true := by
      decide
    obtain ⟨x, hx, hmem⟩ := (Option.any_eq_true _ _).mp (hstart keyword hkeyword)
    exact hlower (asciiEqual_head hequal hx ▸ List.contains_iff_mem.mp hmem)
  have hletter : c.isAlpha = true → c.toLower ∉ ['o', 'r'] →
      t.isTrivia = false ∧ ∀ keyword ∈ countFollowers, t.isKeyword keyword = false := by
    intro halpha hlower
    rw [step_letter halpha] at h
    rcases letterOrWord_kind h with ⟨kind, text, rfl⟩ | ⟨w, rfl⟩
    · exact ⟨rfl, fun _ _ => rfl⟩
    · exact hword hlower w
  simp only [isNumberPart, Bool.or_eq_true, List.contains_eq_mem, decide_eq_true_eq] at hc
  rcases hc with hdigit | hmem
  · rw [step_digit hdigit] at h
    exact hnumber t (numberOrPeriod_like (.inl hdigit) h)
  · simp only [List.mem_cons, List.not_mem_nil, or_false] at hmem
    rcases hmem with rfl | rfl | rfl | rfl | rfl | rfl
    · rw [step_underscore] at h
      cases h
      exact hword (by decide) _
    · rw [step_point] at h
      exact hnumber t (numberOrPeriod_like (.inr rfl) h)
    · exact hletter (by decide) (by decide)
    · exact hletter (by decide) (by decide)
    · exact hletter (by decide) (by decide)
    · exact hletter (by decide) (by decide)

/-! ### Numbers, minus signs and block comments -/

/-- Tokens that are neither numbers nor minus signs nor block comments. -/
def Plain : Token → Prop
  | .number _ _ => False
  | .symbol text => text ≠ "-"
  | .blank (.blockComment _) => False
  | _ => True

/-- The texts of the known operators of a tree. -/
def Operators.texts : Operators → List String
  | known text => [text]
  | extended text => [text]
  | onlyExtended _ => []
  | greedy text => [text]
  | next _ taken left => taken.texts ++ left.texts

/-- An operator alone, or a longer one. -/
theorem extensible_kind (d : Dialect) (text : String) (cs : List Char) :
    extensible d text cs = (.symbol text, cs) ∨
      ∃ longer rest, extensible d text cs = (.customOperator longer, rest) := by
  unfold extensible
  generalize (if d.customOperators then cs.takeWhile isOperatorPart else []) = more
  dsimp only
  split
  · exact .inl rfl
  · exact .inr ⟨_, _, rfl⟩

/-- Operators that may be extended are plain, but for the minus. -/
theorem extensible_plain (d : Dialect) {text : String} (h : text ≠ "-") (cs : List Char) :
    Plain (extensible d text cs).1 := by
  rcases extensible_kind d text cs with heq | ⟨longer, rest, heq⟩ <;> rw [heq]
  · exact h
  · trivial

theorem onlyExtended_plain {text : String} (h : onlyExtended d text cs = .ok (t, R)) : Plain t := by
  unfold onlyExtended at h
  generalize (if d.customOperators then cs.takeWhile isOperatorPart else []) = more at h
  dsimp only at h
  split at h
  · cases h
  · cases h
    trivial

/-- An operator tree without the minus has plain tokens only. -/
theorem Operators.read_plain {tree : Operators} (htexts : "-" ∉ tree.texts)
    (h : tree.read d cs = .ok (t, R)) : Plain t := by
  induction tree generalizing cs with
  | known text =>
    cases h
    exact fun heq => htexts (List.mem_singleton.mpr heq.symm)
  | extended text =>
    have hplain := extensible_plain d
      (fun heq => htexts (List.mem_singleton.mpr heq.symm)) cs
    rwa [Except.ok.inj h] at hplain
  | onlyExtended text => exact onlyExtended_plain h
  | greedy text =>
    cases h
    exact fun heq => htexts (List.mem_singleton.mpr heq.symm)
  | next c taken left ihTaken ihLeft =>
    -- the minus is in neither branch of the tree
    have htaken : "-" ∉ taken.texts := fun hmem => htexts (List.mem_append_left _ hmem)
    have hleft : "-" ∉ left.texts := fun hmem => htexts (List.mem_append_right _ hmem)
    cases cs with
    | nil => exact ihLeft hleft h
    | cons x cs =>
      rw [read_next_cons] at h
      split at h
      · exact ihTaken htaken h
      · exact ihLeft hleft h

/-- MySQL reads a plain token behind `@`. -/
theorem atToken_plain (h : atToken .mysql cs = .ok (t, R)) : Plain t := by
  unfold atToken at h
  repeat' split at h
  all_goals simp_all [wordToken, Dialect.customOperators]
  all_goals
    obtain ⟨rfl, -⟩ := h
    simp [Plain]

/-- What starts with any sign but a dash or a slash is plain. -/
theorem symbolToken_plain {c : Char} (hc : c ≠ '-') (hslash : c ≠ '/')
    (h : symbolToken d c cs = .ok (t, R)) : Plain t := by
  -- a symbol with a tree is plain, as no tree holds the minus
  have hread : ∀ tree : Bool → Operators, (∀ b, "-" ∉ (tree b).texts) → ∀ b,
      symbolToken d c cs = (tree b).read d cs → Plain t := fun tree htexts b heq =>
    Operators.read_plain (htexts b) (heq ▸ h)
  by_cases hpercent : c = '%'
  · subst hpercent
    have hplain := extensible_plain d (show "%" ≠ "-" by decide) cs
    rw [percent_eq] at h
    rwa [Except.ok.inj h] at hplain
  by_cases hbar : c = '|'
  · subst hbar
    exact hread Operators.bar (by decide) _ (barToken_eq d cs)
  by_cases hequals : c = '='
  · subst hequals
    exact hread (fun _ => Operators.equals) (by decide) true (equalsToken_eq d cs)
  by_cases hbang : c = '!'
  · subst hbang
    exact hread (fun _ => Operators.bang) (by decide) true (bangToken_eq d cs)
  by_cases hless : c = '<'
  · subst hless
    exact hread Operators.less (by decide) _ (lessToken_eq d cs)
  by_cases hgreater : c = '>'
  · subst hgreater
    exact hread Operators.greater (by decide) _ (greaterToken_eq d cs)
  by_cases hcolon : c = ':'
  · subst hcolon
    exact hread (fun _ => Operators.colon) (by decide) true (colonToken_eq d cs)
  by_cases hampersand : c = '&'
  · subst hampersand
    exact hread Operators.ampersand (by decide) _ (ampersandToken_eq d cs)
  by_cases htilde : c = '~'
  · subst htilde
    exact hread Operators.tilde (by decide) _ (tildeToken_eq d cs)
  -- the symbols without a tree one by one
  unfold symbolToken at h
  split at h
  all_goals first | contradiction | skip
  · split at h
    · cases h
      exact (by decide : "^@" ≠ "-")
    · cases h
      exact (by decide : "^" ≠ "-")
  · split at h
    · cases h
      trivial
    · exact Operators.read_plain (by cases d <;> decide) ((hashToken_eq d cs).symm.trans h)
  · cases hd : d.startsWord '@' with
    | false => exact Operators.read_plain (by cases d <;> decide) ((atToken_eq d cs hd).symm.trans h)
    | true =>
      cases d with
      | mysql => exact atToken_plain h
      | postgresql => cases hd
      | sqlite => cases hd
  · split at h
    · exact Operators.read_plain (by decide) ((questionToken_eq d cs).symm.trans h)
    · cases h
      trivial
  · split at h
    · cases h
      trivial
    split at h
    · split at h
      · cases h
        trivial
      · rcases dollarQuoted_eq_ok h with ⟨_, _, _, -, -, -, rfl⟩ | ⟨_, -, -, -, rfl⟩ <;> trivial
    split at h
    · cases h
      trivial
    · cases h
      -- a symbol of its own is its character, which is no minus
      intro htext
      exact hc (by simpa using congrArg String.toList htext)

/-- What starts with a dash is plain, or a minus sign, which is that dash. -/
theorem dashToken_kind (h : dashToken d cs = (t, R)) : t = .symbol "-" ∧ R = cs ∨ Plain t := by
  have hlonger : ∀ (text : String) (cs : List Char), text ≠ "-" → extensible d text cs = (t, R) →
      Plain t := by
    intro text cs htext h
    have hplain := extensible_plain d htext cs
    rwa [h] at hplain
  -- two dashes make a comment, so a minus is left alone or part of a longer operator
  have hminus : ∀ cs : List Char, minusToken d cs = (t, R) →
      t = .symbol "-" ∧ R = cs ∨ Plain t := by
    intro cs h
    unfold minusToken at h
    split at h
    · exact .inr (hlonger "->>" _ (by decide) h)
    · exact .inr (hlonger "->" _ (by decide) h)
    · rcases extensible_kind d "-" cs with heq | ⟨longer, rest, heq⟩
      · rw [heq] at h
        cases h
        exact .inl ⟨rfl, rfl⟩
      · rw [heq] at h
        cases h
        exact .inr trivial
  unfold dashToken at h
  split at h
  · split at h
    · exact hminus _ h
    · cases h
      exact .inr trivial
  · exact hminus _ h

/-- **Kinds.** A step reads a minus sign, or what a digit, a point or a slash starts, or something
    plain. -/
theorem step_kind {c : Char} (h : step d previous c cs = .ok (t, R)) :
    (c = '-' ∧ t = .symbol "-" ∧ R = cs) ∨
      ((c.isDigit = true ∨ c = '.') ∧ numberOrPeriod d previous (c :: cs) = .ok (t, R)) ∨
      (c = '/' ∧ symbolToken d '/' cs = .ok (t, R)) ∨ Plain t := by
  -- a dash and a slash are the first two alternatives; numbers are the third
  by_cases hdash : c = '-'
  · subst hdash
    have hread : dashToken d cs = (t, R) := by
      refine Except.ok.inj (Eq.trans ?_ h)
      cases d <;> rfl
    rcases dashToken_kind hread with hminus | hplain
    · exact .inl ⟨rfl, hminus⟩
    · exact .inr (.inr (.inr hplain))
  by_cases hslash : c = '/'
  · subst hslash
    refine .inr (.inr (.inl ⟨rfl, Eq.trans ?_ h⟩))
    cases d <;> rfl
  -- in the order of the branches: blanks, literals, names, numbers, words
  unfold step at h
  split at h
  · cases h
    exact .inr (.inr (.inr trivial))
  split at h
  · cases h
    exact .inr (.inr (.inr trivial))
  split at h
  · cases h
    exact .inr (.inr (.inr trivial))
  split at h
  · split at h
    · cases h
      exact .inr (.inr (.inr trivial))
    · cases h
      exact .inr (.inr (.inr trivial))
  split at h
  · obtain ⟨text, rfl⟩ := stringLiteral_kind h
    exact .inr (.inr (.inr trivial))
  split at h
  · unfold quotedIdentifier at h
    split at h
    · cases h
      exact .inr (.inr (.inr trivial))
    · cases h
  split at h
  · obtain ⟨text, rfl⟩ := stringLiteral_kind h
    exact .inr (.inr (.inr trivial))
  split at h
  · next hnumber => exact .inr (.inl ⟨by simpa using hnumber, h⟩)
  split at h
  · rcases letterOrWord_kind h with ⟨kind, text, rfl⟩ | ⟨w, rfl⟩
    · exact .inr (.inr (.inr trivial))
    · exact .inr (.inr (.inr trivial))
  · exact .inr (.inr (.inr (symbolToken_plain hdash hslash h)))

/-- What a slash starts: a block comment behind a slash and a star, or a slash alone. -/
theorem symbolToken_slash (h : symbolToken d '/' cs = .ok (t, R)) :
    (∃ body, cs = '*' :: body ∧ blockComment d body = .ok (t, R)) ∨ t = .symbol "/" := by
  simp only [symbolToken] at h
  split at h
  · next body => exact .inl ⟨body, rfl, h⟩
  · cases h
    exact .inr rfl

/-- A block comment is one token. -/
theorem blockComment_kind (h : blockComment d cs = .ok (t, R)) :
    ∃ text, t = .blank (.blockComment text) := by
  unfold blockComment at h
  split at h
  · cases h
    exact ⟨_, rfl⟩
  · cases h

/-- Only a dash is read as a minus sign. -/
theorem step_eq_minus {c : Char} (h : step d previous c cs = .ok (.symbol "-", R)) :
    c = '-' ∧ R = cs := by
  rcases step_kind h with ⟨rfl, -, hR⟩ | ⟨hc, hnumber⟩ | ⟨-, hslash⟩ | hplain
  · exact ⟨rfl, hR⟩
  · have hpoint : ¬("-" = ".") := by decide
    exact absurd (numberOrPeriod_like hc hnumber) hpoint
  · rcases symbolToken_slash hslash with ⟨body, -, hcomment⟩ | ht
    · obtain ⟨text, ht⟩ := blockComment_kind hcomment
      cases ht
    · exact absurd ht (by decide)
  · exact absurd rfl hplain

/-- Only what starts with a digit or a point is read as a number. -/
theorem step_eq_number {c : Char} {text : String} {long : Bool}
    (h : step d previous c cs = .ok (.number text long, R)) :
    (c.isDigit = true ∨ c = '.') ∧ numberOrPeriod d previous (c :: cs) = .ok (.number text long, R) := by
  rcases step_kind h with ⟨-, ht, -⟩ | hnumber | ⟨-, hslash⟩ | hplain
  · cases ht
  · exact hnumber
  · rcases symbolToken_slash hslash with ⟨body, -, hcomment⟩ | ht
    · obtain ⟨text, ht⟩ := blockComment_kind hcomment
      cases ht
    · cases ht
  · cases hplain

/-- Only a slash and a star start a block comment. -/
theorem step_eq_blockComment {c : Char} {text : String}
    (h : step d previous c cs = .ok (.blank (.blockComment text), R)) :
    c = '/' ∧ ∃ body, cs = '*' :: body ∧
      blockText? d.nestedComments 0 body = some (text.toList, R) := by
  -- only the slash opens a comment, since all other tokens are told by their kind
  rcases step_kind h with ⟨-, ht, -⟩ | ⟨hc, hnumber⟩ | ⟨rfl, hslash⟩ | hplain
  · cases ht
  · exact (numberOrPeriod_like hc hnumber).elim
  · rcases symbolToken_slash hslash with ⟨body, rfl, hcomment⟩ | ht
    · refine ⟨rfl, body, rfl, ?_⟩
      unfold blockComment at hcomment
      split at hcomment
      · next text' R' hread =>
        cases hcomment
        rw [hread, String.toList_ofList]
      · cases hcomment
    · cases ht
  · exact hplain.elim

end QueryGate.Sql.Lexer
