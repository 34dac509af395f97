import QueryGate.Proofs.Lexing.Delimited
import QueryGate.Proofs.Lexing.Numbers
import QueryGate.Proofs.Lexing.Operators

namespace QueryGate.Sql.Lexer

/-!
# One token is read locally

`Lexer.step` chooses a reader by the first character.  All readers are local but three
(`step_cases`): line comments go on to the end of their line, two dashes may need a space to be one,
and where `@` starts a word it takes the next character along.

* `step_suffix` — a step leaves an end of its text;
* `step_followed` — what becomes of a step when other text comes to stand behind it;
* `step_previous` — all that a step sees of the token before it.
-/

variable {d : Dialect} {previous : Option Token}

/-! ### Words -/

/-- A word ends at the first character that cannot continue it. -/
theorem wordToken_local (d : Dialect) (start : List Char) :
    Local fun cs => .ok (wordToken d start cs) := by
  have h : (fun cs => .ok (wordToken d start cs)) = whileIn d.continuesWord fun more =>
      .ok (.word (String.ofList (start ++ more)) none) := rfl
  rw [h]
  refine whileIn_local (continuesWord_class d) _ fun {w B t} hB hblank _ ht => ⟨_, rfl, .inr ?_⟩
  obtain ⟨b, B, rfl⟩ := List.exists_cons_of_ne_nil hB
  cases ht
  exact ⟨_, rfl, b, by simp, hblank b (List.mem_cons_self ..)⟩

/-! ### Letters that introduce literals -/

/-- Whether `&` and a quote stand at the front of a text. -/
def opensUnicode : List Char → Bool
  | '&' :: cs => cs.head?.any (· == '\x27')
  | _ => false

/-- The mark of a literal with code points. -/
theorem opensUnicode_iff (cs : List Char) :
    opensUnicode cs = true ↔ ∃ rest, cs = '&' :: '\x27' :: rest := by
  constructor
  · intro h
    unfold opensUnicode at h
    split at h
    · next cs =>
      cases cs with
      | nil => cases h
      | cons q cs =>
        obtain rfl : q = '\x27' := beq_iff_eq.mp h
        exact ⟨cs, rfl⟩
    · cases h
  · rintro ⟨rest, rfl⟩
    rfl

/-- A blank cannot be part of that mark. -/
theorem opensUnicode_alike {R R' : List Char} (h : Alike R R') :
    opensUnicode R' = opensUnicode R := by
  -- the mark begins with an ampersand, which is none of the characters that texts may differ in
  have hother : ∀ c : Char, c ≠ '&' → ∀ cs, opensUnicode (c :: cs) = false := by
    intro c hc cs
    unfold opensUnicode
    split
    · next heq => exact absurd (List.cons.inj heq).1 hc
    · rfl
  have hne : ∀ c : Char, c.isDigit = true ∨ c ∈ breaks ++ blanks → c ≠ '&' := by
    rintro c hc rfl
    revert hc
    decide
  cases h with
  | stop more hb => exact hother _ (hne _ (.inr (List.mem_append_left _ hb))) more
  | trim more hb =>
    exact (hother _ (hne _ (.inr (List.mem_append_right _ (mem_blanks hb)))) more).symm
  | digits cs cs' hc hc' => rw [hother _ (hne _ (.inl hc)), hother _ (hne _ (.inl hc'))]
  | slash cs cs' => rw [hother ' ' (by decide), hother '/' (by decide)]
  | cons c h =>
    by_cases hc : c = '&'
    · subst hc
      exact apostrophe_class.head (by decide) h
    · rw [hother c hc, hother c hc]

/-- A letter before `&` and a quote: a literal if both follow, a word if not. -/
theorem unicodeOrWord_local (c : Char) :
    Local fun cs => if opensUnicode cs then unicodeLiteral (c :: cs) else .ok (wordToken d [c] cs) where
  suffix {cs R t} h := by
    split at h
    · next hopen =>
      obtain ⟨cs, rfl⟩ := (opensUnicode_iff _).mp hopen
      exact ((unicodeLiteral_local c).suffix h).trans ⟨['&', '\x27'], rfl⟩
    · exact (wordToken_local d [c]).suffix h
  follow {w R R' t} h hR := by
    rw [opensUnicode_alike (hR.append w)]
    split at h
    · next hopen =>
      rw [if_pos hopen]
      obtain ⟨cs, hcs⟩ := (opensUnicode_iff _).mp hopen
      rw [hcs] at h
      have hsuffix := (unicodeLiteral_local c).suffix h
      obtain ⟨w', rfl, hw'⟩ := exists_of_cons_eq_append hcs (hsuffix.trans (List.suffix_cons _ _))
      obtain ⟨w'', rfl, rfl⟩ := exists_of_cons_eq_append hw'.symm hsuffix
      exact (unicodeLiteral_local c).follow h hR
    · next hopen =>
      rw [if_neg hopen]
      exact (wordToken_local d [c]).follow h hR
  trim {w B R t} h hB hblank := by
    rw [opensUnicode_alike (.trimmed w hB hblank R)]
    split at h
    · next hopen =>
      -- a literal ends in its quote
      obtain ⟨cs, hcs⟩ := (opensUnicode_iff _).mp hopen
      rw [hcs] at h
      obtain ⟨⟨text, rest⟩, hread, heq⟩ := bind_eq_ok_iff.mp h
      cases heq
      obtain ⟨u, hu, hend, -, -⟩ := unicodeText_closes hread
      have hlast : ('&' :: '\x27' :: u).getLast? = some '\x27' := by simp [List.getLast?_cons, hu]
      have hend : cs = u ++ R := hend
      exact (false_of_getLast? (hcs.trans (by rw [hend]; rfl)) hB hblank hlast (by decide)).elim
    · next hopen =>
      rw [if_neg hopen]
      exact (wordToken_local d [c]).trim h hB hblank

/-- What starts with a letter: a literal or a word. -/
def letterOrWord (d : Dialect) (c : Char) (cs : List Char) : Step :=
  (letterToken d c cs).getD (.ok (wordToken d [c] cs))

/-- A letter that opens no literal begins a word. -/
theorem letterOrWord_of_none {c : Char} {cs : List Char} (h : letterToken d c cs = none) :
    letterOrWord d c cs = .ok (wordToken d [c] cs) := by
  rw [letterOrWord, h]
  rfl

/-- A letter opens a literal or begins a word, and either depends on the next character only. -/
theorem letterOrWord_local (d : Dialect) (c : Char) : Local (letterOrWord d c) := by
  have hword := wordToken_local d [c]
  have hquote := apostrophe_class
  have hdouble : Visible (· == '"') := class_eq (by decide) (by decide)
  by_cases hn : c = 'n' ∨ c = 'N'
  · rw [eq_whenHead (h := letterOrWord d c) (m := '\x27')
      (f := fun cs => stringLiteral .national '\x27' d.backslashEscapes ('\x27' :: cs))
      (g := fun cs => .ok (wordToken d [c] cs))]
    · exact .whenHead hquote (fun _ => stringLiteral_local _ _ hquote) hword
    · rcases hn with rfl | rfl <;> exact fun cs => rfl
    · refine fun cs hcs => letterOrWord_of_none ?_
      unfold letterToken
      rcases hn with rfl | rfl <;> split <;> simp_all
  by_cases hx : c = 'x' ∨ c = 'X'
  · rw [eq_whenHead (h := letterOrWord d c) (m := '\x27')
      (f := fun cs => stringLiteral .hex '\x27' true ('\x27' :: cs))
      (g := fun cs => .ok (wordToken d [c] cs))]
    · exact .whenHead hquote (fun _ => stringLiteral_local _ _ hquote) hword
    · rcases hx with rfl | rfl <;> exact fun cs => rfl
    · refine fun cs hcs => letterOrWord_of_none ?_
      unfold letterToken
      rcases hx with rfl | rfl <;> split <;> simp_all
  by_cases hb : (c = 'b' ∨ c = 'B') ∧ d.bitLiterals = true
  · -- either quote starts a bit string
    obtain ⟨hb, hd⟩ := hb
    rw [eq_whenHead (h := letterOrWord d c) (m := '\x27')
      (f := fun cs => stringLiteral .bits '\x27' false ('\x27' :: cs))
      (g := whenHead (· == '"') (fun _ cs => stringLiteral .bitsDouble '"' false ('"' :: cs))
        fun cs => .ok (wordToken d [c] cs))]
    · exact .whenHead hquote (fun _ => stringLiteral_local _ _ hquote)
        (.whenHead hdouble (fun _ => stringLiteral_local _ _ hdouble) hword)
    · rcases hb with rfl | rfl <;> intro cs <;> simp [letterOrWord, letterToken, hd]
    · intro cs hcs
      have hnone : ∀ cs : List Char, cs.head?.any (· == '\x27') = false →
          cs.head?.any (· == '"') = false → letterToken d c cs = none := by
        intro cs h h'
        unfold letterToken
        rcases hb with rfl | rfl <;> split <;> simp_all
      cases cs with
      | nil => rfl
      | cons x cs =>
        by_cases hx : x = '"'
        · subst hx
          rcases hb with rfl | rfl <;> simp [letterOrWord, letterToken, hd, whenHead]
        · rw [whenHead, if_neg (by simpa using hx)]
          exact letterOrWord_of_none (hnone _ hcs (by simpa using hx))
  by_cases he : (c = 'e' ∨ c = 'E') ∧ d.escapeLiterals = true
  · obtain ⟨he, hd⟩ := he
    rw [eq_whenHead (h := letterOrWord d c) (m := '\x27')
      (f := fun cs => escapedLiteral (c :: '\x27' :: cs)) (g := fun cs => .ok (wordToken d [c] cs))]
    · exact .whenHead hquote (fun _ => escapedLiteral_local c) hword
    · rcases he with rfl | rfl <;> intro cs <;> simp [letterOrWord, letterToken, hd]
    · refine fun cs hcs => letterOrWord_of_none ?_
      unfold letterToken
      rcases he with rfl | rfl <;> split <;> simp_all
  by_cases hu : (c = 'u' ∨ c = 'U') ∧ d.escapeLiterals = true
  · obtain ⟨hu, hd⟩ := hu
    have h : letterOrWord d c = fun cs =>
        if opensUnicode cs then unicodeLiteral (c :: cs) else .ok (wordToken d [c] cs) := by
      funext cs
      by_cases hopen : opensUnicode cs = true
      · obtain ⟨cs, rfl⟩ := (opensUnicode_iff cs).mp hopen
        rcases hu with rfl | rfl <;> simp [letterOrWord, letterToken, hd, hopen]
      · have hne : ∀ rest, ¬cs = '&' :: '\x27' :: rest := fun rest h =>
          hopen ((opensUnicode_iff cs).mpr ⟨rest, h⟩)
        have hnone : letterToken d c cs = none := by
          unfold letterToken
          rcases hu with rfl | rfl <;> split <;> simp_all
        rw [letterOrWord_of_none hnone, if_neg hopen]
    rw [h]
    exact unicodeOrWord_local c
  have h : letterOrWord d c = fun cs => .ok (wordToken d [c] cs) := by
    funext cs
    have hnone : letterToken d c cs = none := by
      unfold letterToken
      split
      · rw [if_neg (by simpa using hn), if_neg (by simpa using hx), if_neg (by simpa using hb),
          if_neg (by simpa using he)]
      · exact if_neg (by simpa using hb)
      · exact if_neg (by simpa using hu)
      · rfl
    rw [letterOrWord_of_none hnone]
  rw [h]
  exact hword

/-! ### Everything else -/

/-- A blank behind `%` does not extend it. -/
theorem percent_eq (d : Dialect) (cs : List Char) :
    symbolToken d '%' cs = .ok (extensible d "%" cs) := by
  cases cs with
  | nil => cases d <;> rfl
  | cons b cs =>
    by_cases hb : Text.isBlank b = true
    -- a blank is no part of an operator
    · have hpart : isOperatorPart b = false := by
        rw [Bool.eq_false_iff]
        intro hpart
        have hall : ∀ c ∈ "+-*/<>=~!@#%^&|\x60?".toList, Text.isBlank c = false := by decide
        have hmem : b ∈ "+-*/<>=~!@#%^&|\x60?".toList := by
          simpa only [isOperatorPart, List.contains_eq_mem, decide_eq_true_eq] using hpart
        rw [hall b hmem] at hb
        cases hb
      simp [symbolToken, extensible, hb, hpart]
    · simp [symbolToken, hb]

/-- The readers of `symbolToken` are local, except those of comments and of words with `@`. -/
theorem symbolToken_local {c : Char} (hdash : c ≠ '-') (hhash : c = '#' → d.hashComments = false)
    (hat : c = '@' → d.startsWord '@' = false) : Local (symbolToken d c) := by
  -- most symbols are read along a tree of operators
  have hread : ∀ {tree : Operators}, tree.isPlain = true → (∀ cs, symbolToken d c cs = tree.read d cs) →
      Local (symbolToken d c) := fun hplain heq => by
    rw [show symbolToken d c = _ from funext heq]
    exact Operators.read_local d _ hplain
  -- the symbols one by one; a slash may open a comment
  by_cases hslash : c = '/'
  · subst hslash
    rw [eq_whenHead (h := symbolToken d '/') (m := '*') (f := blockComment d)
      (g := fun cs => .ok (.symbol "/", cs)) (fun cs => rfl)]
    · exact .whenHead (class_eq (by decide) (by decide)) (fun _ => blockComment_local d) (.keep _)
    · intro cs hcs
      cases cs with
      | nil => rfl
      | cons x cs =>
        have hx : x ≠ '*' := by simpa using hcs
        simp [symbolToken, hx]
  by_cases hpercent : c = '%'
  · subst hpercent
    rw [show symbolToken d '%' = _ from funext (percent_eq d)]
    exact extensible_local d "%"
  by_cases hbar : c = '|'
  · subst hbar
    exact hread (by cases d <;> decide) fun cs => barToken_eq d cs
  by_cases heq : c = '='
  · subst heq
    exact hread (by decide) fun cs => equalsToken_eq d cs
  by_cases hbang : c = '!'
  · subst hbang
    exact hread (by decide) fun cs => bangToken_eq d cs
  by_cases hless : c = '<'
  · subst hless
    exact hread (by cases d <;> decide) fun cs => lessToken_eq d cs
  by_cases hgreater : c = '>'
  · subst hgreater
    exact hread (by cases d <;> decide) fun cs => greaterToken_eq d cs
  by_cases hcolon : c = ':'
  · subst hcolon
    exact hread (by decide) fun cs => colonToken_eq d cs
  by_cases hampersand : c = '&'
  · subst hampersand
    exact hread (by cases d <;> decide) fun cs => ampersandToken_eq d cs
  by_cases hcaret : c = '^'
  · subst hcaret
    rw [eq_whenHead (h := symbolToken d '^') (m := '@') (f := fun cs => .ok (.symbol "^@", cs))
      (g := fun cs => .ok (.symbol "^", cs)) (fun cs => rfl)]
    · exact .whenHead (class_eq (by decide) (by decide)) (fun _ => .keep _) (.keep _)
    · intro cs hcs
      cases cs with
      | nil => rfl
      | cons x cs =>
        have hx : x ≠ '@' := by simpa using hcs
        simp [symbolToken, hx]
  by_cases hhash' : c = '#'
  · subst hhash'
    have hplain : ∀ b, (Operators.hash b).isPlain = true := by decide
    refine hread (hplain d.customOperators) fun cs => ?_
    rw [← hashToken_eq]
    simp [symbolToken, hhash rfl]
  by_cases htilde : c = '~'
  · subst htilde
    exact hread (by cases d <;> decide) fun cs => tildeToken_eq d cs
  by_cases hat' : c = '@'
  · subst hat'
    exact hread (by cases d <;> decide) fun cs => atToken_eq d cs (hat rfl)
  -- a question mark begins an operator or a placeholder
  by_cases hquestion : c = '?'
  · subst hquestion
    cases hd : d.customOperators with
    | true =>
      have hplain : Operators.question.isPlain = true := by decide
      refine hread hplain fun cs => ?_
      rw [← questionToken_eq]
      simp [symbolToken, hd]
    | false =>
      rw [show symbolToken d '?' = whileIn Text.isNumeric fun digits =>
        .ok (.placeholder (String.ofList ('?' :: digits))) from funext fun cs => by
          simp [symbolToken, hd, whileIn]]
      exact .whileIn ⟨⟨by decide, by decide⟩, by decide⟩ _
  -- what is left: names of a dialect, a dollar, a blank, a symbol of its own
  have hother : symbolToken d c = fun cs =>
      if d.startsWord c then .ok (wordToken d [c] cs)
      else if c = '$' then
        if d.dollarPlaceholders then .ok (dollarPlaceholder cs) else dollarQuoted cs
      else if Text.isBlank c then .ok (.blank .space, cs)
      else .ok (.symbol c.toString, cs) := by
    funext cs
    unfold symbolToken
    split <;> first | contradiction | rfl
  rw [hother]
  cases d.startsWord c
  · by_cases hdollar : c = '$'
    · simp only [hdollar, Bool.false_eq_true, if_false, if_true]
      cases d.dollarPlaceholders
      · exact dollarQuoted_local
      · exact dollarPlaceholder_local
    · simp only [hdollar, Bool.false_eq_true, if_false]
      cases Text.isBlank c
      · exact .keep _
      · exact .keep _
  · exact wordToken_local d [c]

/-! ### The readers that are not local -/

/-- Two signs take the next character along whatever it is, unless it is a space. -/
theorem atToken_two {c : Char} (hc : c ≠ ' ') (cs : List Char) :
    atToken .mysql ('@' :: c :: cs) = .ok (wordToken .mysql ['@', '@', c] cs) := by
  have hcustom : Dialect.mysql.customOperators = false := rfl
  have hstart : Dialect.mysql.startsWord '@' = true := rfl
  simp [atToken, hcustom, hstart, hc]

/-- A sign takes the next character along, unless it is a space or a quote or makes an operator. -/
theorem atToken_one {c : Char} (hc : c ∉ ['@', '>', '?', ' ', '\x27', '"', '\x60']) (cs : List Char) :
    atToken .mysql (c :: cs) = .ok (wordToken .mysql ['@', c] cs) := by
  have hcustom : Dialect.mysql.customOperators = false := rfl
  have hstart : Dialect.mysql.startsWord '@' = true := rfl
  unfold atToken
  simp_all

/-- Where `@` starts a word, it takes the next character along or stops before it. -/
theorem atToken_cases (cs : List Char) :
    (∃ u v f, cs = u ++ v ∧ Local f ∧ ∀ S, atToken .mysql (u ++ S) = f S) ∨
      ∃ u R t, (u = [] ∨ u = ['@']) ∧ cs = u ++ R ∧ atToken .mysql cs = .ok (t, R) ∧
        atToken .mysql u = .ok (t, []) ∧
        ∀ x more, R = x :: more → x.isDigit = false ∧ x ≠ '/' ∧
          ∀ S, atToken .mysql (u ++ x :: S) = .ok (t, x :: S) := by
  -- MySQL reads names behind `@` and `@@`, and few characters end them at once
  cases cs with
  | nil => exact .inr ⟨[], [], _, .inl rfl, rfl, rfl, rfl, by simp⟩
  | cons c cs =>
    by_cases hat : c = '@'
    · subst hat
      cases cs with
      | nil => exact .inr ⟨['@'], [], _, .inr rfl, rfl, rfl, rfl, by simp⟩
      | cons c cs =>
        by_cases hc : c = ' '
        · subst hc
          refine .inr ⟨['@'], ' ' :: cs, .symbol "@@", .inr rfl, rfl, rfl, rfl, fun x more h => ?_⟩
          cases h
          exact ⟨by decide, by decide, fun S => rfl⟩
        · exact .inl ⟨['@', c], cs, _, rfl, wordToken_local .mysql ['@', '@', c], atToken_two hc⟩
    -- two operators begin with `@`
    by_cases hgreater : c = '>'
    · subst hgreater
      exact .inl ⟨['>'], cs, _, rfl, .keep (.symbol "@>"), fun S => rfl⟩
    by_cases hquestion : c = '?'
    · subst hquestion
      exact .inl ⟨['?'], cs, _, rfl, .keep (.symbol "@?"), fun S => rfl⟩
    -- a blank or a quote ends the sign at once
    by_cases hstop : c ∈ [' ', '\x27', '"', '\x60']
    · have hread : ∀ S, atToken .mysql (c :: S) = .ok (.symbol "@", c :: S) := by
        simp only [List.mem_cons, List.not_mem_nil, or_false] at hstop
        rcases hstop with rfl | rfl | rfl | rfl <;> exact fun S => rfl
      refine .inr ⟨[], c :: cs, _, .inl rfl, rfl, hread cs, rfl, fun x more h => ?_⟩
      cases h
      refine ⟨?_, ?_, hread⟩
      · simp only [List.mem_cons, List.not_mem_nil, or_false] at hstop
        rcases hstop with rfl | rfl | rfl | rfl <;> decide
      · rintro rfl
        exact absurd hstop (by decide)
    · exact .inl ⟨[c], cs, _, rfl, wordToken_local .mysql ['@', c], atToken_one (by simp_all)⟩

/-- What becomes of a step that leaves `R` when `R'` stands in the place of `R`. -/
inductive Followed (d : Dialect) (c : Char) (read : List Char → Step) (w R R' : List Char)
    (t : Token) : Prop
  /-- It reads the same token. -/
  | kept (h : read (w ++ R') = .ok (t, R'))
  /-- At the end of the text, it takes the next character along. -/
  | swallowed (hR : R = []) (hclose : R'.head? = some ')' → isOperator t = true)
      (h : read (w ++ R') = .ok (t, R'.tail))
  /-- A line comment that the end of the text has ended goes on. -/
  | comment (hR : R = []) (text : List Char) (htext : ∀ x ∈ text, endsLine d x = false)
      (ht : t = .blank (.lineComment (String.ofList text)))
      (h : ∀ S, read (w ++ S) = .ok (lineComment d (text ++ S)))
  /-- Two dashes at the end of the text may start a comment. -/
  | dashes (hd : d.dashCommentsNeedSpace = true) (hc : c = '-') (hw : w = []) (hR : R = ['-'])
  /-- Two dashes before a slash start a comment where a space takes its place. -/
  | opened (hd : d.dashCommentsNeedSpace = true) (hc : c = '-') (hw : w = []) (S S' : List Char)
      (hR : R = '-' :: '/' :: S) (hR' : R' = '-' :: ' ' :: S')
  /-- A sign at the end of the text may start a word. -/
  | sign (hd : d = .mysql) (hc : c = '@') (hw : w = [] ∨ w = ['@']) (hR : R = [])

/-- What a local reader takes it takes before any text that begins alike. -/
theorem Local.followed {c : Char} {read : List Char → Step} (hread : Local read)
    {w R R' : List Char} {t : Token} (h : read (w ++ R) = .ok (t, R)) (hR : Alike R R') :
    Followed d c read w R R' t := by
  rcases hread.follow h hR with h | ⟨hnil, hclose, h⟩
  · exact .kept h
  · exact .swallowed hnil hclose h

/-- A sign that stops before the next character stops there again. -/
theorem atToken_followed {w R R' : List Char} {t : Token}
    (h : atToken .mysql (w ++ R) = .ok (t, R)) (hR : Alike R R') :
    Followed .mysql '@' (atToken .mysql) w R R' t := by
  rcases atToken_cases (w ++ R) with
    ⟨u, v, f, hcs, hf, hread⟩ | ⟨u, v, t', hu, hcs, hread, hnil, hstop⟩
  -- behind the sign a local reader goes on
  · rw [hcs, hread] at h
    obtain ⟨v, rfl⟩ := hf.suffix h
    obtain rfl : w = u ++ v := List.append_cancel_right (hcs.trans (List.append_assoc u v R).symm)
    rcases hf.follow h hR with h' | ⟨hnil, hclose, h'⟩
    · exact .kept (by rw [List.append_assoc, hread, h'])
    · exact .swallowed hnil hclose (by rw [List.append_assoc, hread, h'])
  -- the sign is left alone; what stopped it is no digit and no slash
  · rw [h] at hread
    obtain ⟨rfl, rfl⟩ := Prod.mk.inj (Except.ok.inj hread)
    obtain rfl : w = u := List.append_cancel_right hcs
    cases hR with
    | stop more hb => exact .sign rfl rfl hu rfl
    | trim more hb => exact .kept (by rw [List.append_nil, hnil])
    | digits cs cs' hc hc' =>
      rw [(hstop _ _ rfl).1] at hc
      cases hc
    | slash cs cs' => exact absurd rfl (hstop _ _ rfl).2.1
    | cons c h => exact .kept ((hstop _ _ rfl).2.2 _)

/-- A line comment takes the front of a text. -/
theorem lineComment_suffix (d : Dialect) (cs : List Char) : (lineComment d cs).2 <:+ cs :=
  (List.drop_suffix _ _).trans (List.drop_suffix _ _)

theorem lineComment_cons_suffix (d : Dialect) (c : Char) (cs : List Char) :
    (lineComment d (c :: cs)).2 <:+ cs := by
  show ((c :: cs).drop _).drop 1 <:+ cs
  rw [List.drop_drop, List.drop_succ_cons]
  exact List.drop_suffix _ _

/-- A line comment in front of `R` goes on if `R` is the end of the text. -/
theorem lineComment_followed {c : Char} {read : List Char → Step} {u w R : List Char} {t : Token}
    (hread : ∀ S, read (u ++ (w ++ S)) = .ok (lineComment d (w ++ S)))
    (h : lineComment d (w ++ R) = (t, R)) (R' : List Char) :
    Followed d c read (u ++ w) R R' t := by
  rcases lineComment_eq h with hS | ⟨hnil, hw, ht⟩
  · exact .kept (by rw [List.append_assoc, hread, hS])
  · exact .comment hnil w hw ht fun S => by rw [List.append_assoc, hread]

theorem dash_class : Visible (· == '-') := class_eq (by decide) (by decide)

/-- A single dash begins an operator. -/
theorem dashToken_of_not_dash {cs : List Char} (h : cs.head?.any (· == '-') = false) :
    dashToken d cs = minusToken d cs := by
  unfold dashToken
  split
  · cases h
  · rfl

/-- Two dashes open a comment; some dialects want a blank behind them. -/
theorem dashToken_comment {cs : List Char}
    (h : d.dashCommentsNeedSpace = true → cs.head? = some ' ') :
    dashToken d ('-' :: cs) = lineComment d cs := by
  have hnot : ¬(d.dashCommentsNeedSpace && cs.head? != some ' ') = true := by simpa using h
  rw [dashToken, if_neg hnot]

/-- Two dashes before anything but a space are no comment, where comments need one. -/
theorem dashToken_minus {cs : List Char} (hd : d.dashCommentsNeedSpace = true)
    (h : cs.head? ≠ some ' ') : dashToken d ('-' :: cs) = (.symbol "-", '-' :: cs) := by
  have hcond : (d.dashCommentsNeedSpace && cs.head? != some ' ') = true := by simp [hd, h]
  rw [dashToken, if_pos hcond]
  cases d with
  | mysql => rfl
  | postgresql => cases hd
  | sqlite => cases hd

/-- An operator that begins with a dash depends on the next character only. -/
theorem minusToken_local (d : Dialect) : Local fun cs => .ok (minusToken d cs) := by
  simp only [minusToken_eq]
  exact Operators.read_local d _ (by decide)

/-- A dash token takes the front of a text. -/
theorem dashToken_suffix (d : Dialect) (cs : List Char) : (dashToken d cs).2 <:+ cs := by
  unfold dashToken
  split
  · split
    · exact (minusToken_local d).suffix rfl
    · exact (lineComment_suffix d _).trans (List.suffix_cons _ _)
  · exact (minusToken_local d).suffix rfl

/-- Two dashes start a comment, or at the end of the text they may come to start one. -/
theorem dashToken_followed {w R R' : List Char} {t : Token}
    (h : dashToken d (w ++ R) = (t, R)) (hR : Alike R R') :
    Followed d '-' (fun cs => .ok (dashToken d cs)) w R R' t := by
  cases hhead : (w ++ R).head?.any (· == '-') with
  | false =>
    have hhead' : (w ++ R').head?.any (· == '-') = false :=
      dash_class.head_of_not (hR.append w) hhead
    rw [dashToken_of_not_dash hhead] at h
    rcases (minusToken_local d).follow (congrArg Except.ok h) hR with h' | ⟨hnil, hclose, h'⟩
    · exact .kept (by rw [dashToken_of_not_dash hhead', h'])
    · exact .swallowed hnil hclose (by rw [dashToken_of_not_dash hhead', h'])
  | true =>
    obtain ⟨more, hcs⟩ : ∃ more, w ++ R = '-' :: more := by
      cases hcs : w ++ R with
      | nil =>
        rw [hcs] at hhead
        cases hhead
      | cons c more =>
        rw [hcs] at hhead
        exact ⟨more, by rw [beq_iff_eq.mp hhead]⟩
    by_cases hcomment : d.dashCommentsNeedSpace = true → more.head? = some ' '
    · -- a comment, which takes the space along where it needs one
      rw [hcs, dashToken_comment hcomment] at h
      have hsuffix : R <:+ more := by
        have hsuffix := lineComment_suffix d more
        rwa [h] at hsuffix
      obtain ⟨w, rfl, rfl⟩ := exists_of_cons_eq_append hcs hsuffix
      refine lineComment_followed (u := ['-']) (fun S => ?_) h R'
      rw [List.singleton_append, dashToken_comment fun hd => ?_]
      cases w with
      | cons c w => exact hcomment hd
      | nil =>
        cases R with
        | nil => cases hcomment hd
        | cons c R =>
          have hlen := (lineComment_cons_suffix d c R).length_le
          rw [List.nil_append] at h
          rw [h] at hlen
          exact absurd hlen (by simp)
    · -- a dash, and another one behind it
      obtain ⟨hd, hspace⟩ : d.dashCommentsNeedSpace = true ∧ more.head? ≠ some ' ' := by
        simpa using hcomment
      rw [hcs, dashToken_minus hd hspace] at h
      obtain ⟨rfl, hrest⟩ := Prod.mk.inj h
      rw [hrest] at hcs
      obtain rfl : w = [] := List.append_left_eq_self.mp hcs
      rw [← hrest] at hR
      cases hR with
      | trim more hb => cases hb
      | digits cs cs' hc _ => cases hc
      | @cons c cs cs' hmore =>
        by_cases hspace' : cs'.head? = some ' '
        · cases hmore with
          | stop more hb => exact .dashes hd rfl rfl hrest.symm
          | trim more hb => cases hspace'
          | digits cs cs' hc hc' =>
            cases hspace'
            cases hc'
          | slash cs cs' => exact .opened hd rfl rfl cs cs' hrest.symm rfl
          | cons c h => exact absurd hspace' hspace
        · exact .kept (congrArg Except.ok (dashToken_minus hd hspace'))

/-! ### One step -/

/-- No blank closes a quoted name. -/
theorem identifierQuote_class {c close : Char} (h : d.identifierQuote? c = some close) :
    Visible (· == close) := by
  -- names are closed by a double quote, a backtick or a bracket, each dialect having its own
  have hclose : close = '"' ∨ close = '\x60' ∨ close = ']' := by
    unfold Dialect.identifierQuote? at h
    cases d with
    | postgresql =>
      dsimp only at h
      split at h
      · exact .inl (Option.some.inj h).symm
      · cases h
    | mysql =>
      dsimp only at h
      split at h
      · exact .inr (.inl (Option.some.inj h).symm)
      · cases h
    | sqlite =>
      dsimp only at h
      split at h
      · next hc =>
        obtain rfl := Option.some.inj h
        simp only [Bool.or_eq_true, decide_eq_true_eq] at hc
        rcases hc with rfl | rfl
        · exact .inl rfl
        · exact .inr (.inl rfl)
      · split at h
        · exact .inr (.inr (Option.some.inj h).symm)
        · cases h
  rcases hclose with rfl | rfl | rfl <;> exact class_eq (by decide) (by decide)

/-- **Readers.** A step reads locally, or it reads a dash, a line comment or a sign that starts
    words. -/
theorem step_cases (d : Dialect) (previous : Option Token) (c : Char) :
    Local (step d previous c) ∨
      (c = '-' ∧ step d previous c = fun cs => .ok (dashToken d cs)) ∨
      (c = '#' ∧ step d previous c = fun cs => .ok (lineComment d cs)) ∨
      (c = '@' ∧ d = .mysql ∧ step d previous c = atToken .mysql) := by
  -- the branches of a step in their order, each of a local reader
  by_cases hspace : c = ' '
  · subst hspace
    exact .inl (.keep (.blank .space))
  by_cases htab : c = '\t'
  · subst htab
    exact .inl (.keep (.blank .tab))
  by_cases hnewline : c = '\n'
  · subst hnewline
    exact .inl (.keep (.blank .newline))
  -- a return takes the line feed behind it along
  by_cases hreturn : c = '\r'
  · subst hreturn
    left
    rw [eq_whenHead (h := step d previous '\r') (m := '\n')
      (f := fun cs => .ok (.blank .newline, cs)) (g := fun cs => .ok (.blank .newline, cs))
      (fun cs => rfl)]
    · exact .swallowOne _ (by decide) (by decide) (by decide) (by decide)
    · intro cs hcs
      cases cs with
      | nil => rfl
      | cons x cs =>
        have hx : x ≠ '\n' := by simpa using hcs
        simp [step, hx]
  by_cases hquote : c = '\x27'
  · subst hquote
    exact .inl (stringLiteral_local .single d.backslashEscapes apostrophe_class)
  -- a double quote opens a name in some dialects and a literal in others
  cases hident : d.identifierQuote? c with
  | some close =>
    left
    have h : step d previous c = fun cs => quotedIdentifier c close (c :: cs) :=
      funext fun cs => by simp [step, hspace, htab, hnewline, hreturn, hquote, hident]
    rw [h]
    exact quotedIdentifier_local c (identifierQuote_class hident)
  | none =>
    by_cases hdouble : c = '"'
    · left
      subst hdouble
      have h : step d previous '"' =
          fun cs => stringLiteral .double '"' d.backslashEscapes ('"' :: cs) :=
        funext fun cs => by simp [step, hident]
      rw [h]
      exact stringLiteral_local .double d.backslashEscapes (class_eq (by decide) (by decide))
    by_cases hnumber : c.isDigit = true ∨ c = '.'
    · left
      have h : step d previous c = fun cs => numberOrPeriod d previous (c :: cs) :=
        funext fun cs => by
          simp [step, hspace, htab, hnewline, hreturn, hquote, hident, hdouble, hnumber]
      rw [h]
      exact numberOrPeriod_local d previous hnumber
    by_cases halpha : c.isAlpha = true
    · left
      have h : step d previous c = letterOrWord d c := funext fun cs => by
        simp [step, hspace, htab, hnewline, hreturn, hquote, hident, hdouble, hnumber, halpha,
          letterOrWord]
      rw [h]
      exact letterOrWord_local d c
    have h : step d previous c = symbolToken d c := funext fun cs => by
      simp [step, hspace, htab, hnewline, hreturn, hquote, hident, hdouble, hnumber, halpha]
    rw [h]
    -- the three symbols that may open a line comment or a variable are not local
    by_cases hdash : c = '-'
    · subst hdash
      exact .inr (.inl ⟨rfl, rfl⟩)
    by_cases hhash : c = '#' ∧ d.hashComments = true
    · obtain ⟨rfl, hd⟩ := hhash
      exact .inr (.inr (.inl ⟨rfl, funext fun cs => by simp [symbolToken, hd]⟩))
    by_cases hat : c = '@' ∧ d.startsWord '@' = true
    · obtain ⟨rfl, hd⟩ := hat
      cases d with
      | mysql => exact .inr (.inr (.inr ⟨rfl, rfl, rfl⟩))
      | postgresql => cases hd
      | sqlite => cases hd
    · exact .inl (symbolToken_local hdash (by simpa using hhash) (by simpa using hat))

variable {previous : Option Token} {c : Char} {t : Token}

/-- A step leaves the end of its text. -/
theorem step_suffix {cs R : List Char} (h : step d previous c cs = .ok (t, R)) : R <:+ cs := by
  -- the last three readers take the front of a text by lemmas of their own
  rcases step_cases d previous c with hread | ⟨-, hread⟩ | ⟨-, hread⟩ | ⟨-, rfl, hread⟩
  · exact hread.suffix h
  · rw [hread] at h
    have hsuffix := dashToken_suffix d cs
    rwa [Except.ok.inj h] at hsuffix
  · rw [hread] at h
    have hsuffix := lineComment_suffix d cs
    rwa [Except.ok.inj h] at hsuffix
  · rw [hread] at h
    rcases atToken_cases cs with ⟨u, v, f, rfl, hf, hu⟩ | ⟨u, v, t', -, rfl, hv, -, -⟩
    · rw [hu] at h
      exact (hf.suffix h).trans (List.suffix_append u v)
    · rw [h] at hv
      cases hv
      exact List.suffix_append u _

/-- **One step.** What becomes of a step when text that looks alike comes to stand behind it. -/
theorem step_followed {w R R' : List Char} (h : step d previous c (w ++ R) = .ok (t, R))
    (hR : Alike R R') : Followed d c (step d previous c) w R R' t := by
  rcases step_cases d previous c with hread | ⟨rfl, hread⟩ | ⟨rfl, hread⟩ | ⟨rfl, rfl, hread⟩
  · exact hread.followed h hR
  · rw [hread] at h ⊢
    exact dashToken_followed (Except.ok.inj h) hR
  · rw [hread] at h ⊢
    exact lineComment_followed (u := []) (fun S => rfl) (Except.ok.inj h) R'
  · rw [hread] at h ⊢
    exact atToken_followed h hR

/-- All that a step sees of the token before it: whether it is a word, and whether it is a
    point. -/
theorem step_previous {p p' : Option Token} (hword : afterWord p = afterWord p')
    (hpoint : (p == some (.symbol ".")) = (p' == some (.symbol "."))) (c : Char) (cs : List Char) :
    step d p c cs = step d p' c cs := by
  simp only [step, numberOrPeriod, decimalToken, hword, hpoint]

end QueryGate.Sql.Lexer
