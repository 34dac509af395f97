import QueryGate.Proofs.Lexing.Separators

namespace QueryGate.Sql

open Lexer Text

/-!
# Reading words

An unquoted word is read by what its first character is: a letter or another character that starts
words, a digit, or `@`.

* `Lexer.step_startsWord`, `Lexer.step_wideBlank` — what is no letter but starts words;
* `Lexer.step_blank` — a blank is read alone, with a line feed, or as a letter;
* `Lexer.numberOrPeriod_eq_afterMantissa` — what digits start goes on behind them;
* `BareWord` — a text that is read as one unquoted word where nothing follows it;
* `Lexer.step_bareWord_period` — it is read as the same word before a period.
-/

variable {d : Dialect} {p : Option Token}

namespace Lexer

/-! ### Words -/

/-- No literal starts where a letter has no quote behind it. -/
theorem letterToken_of_head {c : Char} {cs : List Char}
    (h : ∀ x ∈ cs.head?, x ∉ ['\x27', '"', '&']) : letterToken d c cs = none := by
  unfold letterToken
  split
  · exact absurd (by decide) (h '\x27' rfl)
  · exact absurd (by decide) (h '"' rfl)
  · exact absurd (by decide) (h '&' rfl)
  · rfl

/-- What starts words and is no letter starts one, whatever follows. -/
theorem step_startsWord {c : Char} (hc : d.startsWord c = true) (halpha : c.isAlpha = false)
    (hat : c ≠ '@') (cs : List Char) : step d p c cs = .ok (wordToken d [c] cs) := by
  -- no character that is read by a rule of its own starts words
  have hspecial : ∀ x ∈ " \t\n\r\x27\"\x60[.-/%|=!<>:&^#~?".toList, c ≠ x := by
    have hall : ∀ x ∈ " \t\n\r\x27\"\x60[.-/%|=!<>:&^#~?".toList, d.startsWord x = false := by
      cases d <;> decide
    rintro x hx rfl
    rw [hall c hx] at hc
    cases hc
  have hquote : d.identifierQuote? c = none := by
    cases d <;> simp [Dialect.identifierQuote?, hspecial '"' (by decide),
      hspecial '\x60' (by decide), hspecial '[' (by decide)]
  unfold step
  rw [if_neg (hspecial ' ' (by decide)), if_neg (hspecial '\t' (by decide)),
    if_neg (hspecial '\n' (by decide)), if_neg (hspecial '\r' (by decide)),
    if_neg (hspecial '\x27' (by decide)), hquote]
  dsimp only
  rw [if_neg (hspecial '"' (by decide)),
    if_neg (by simp [isDigit_of_startsWord hc, hspecial '.' (by decide)]), halpha,
    if_neg Bool.false_ne_true]
  unfold symbolToken
  split
  all_goals first
    | exact absurd rfl (hspecial _ (by decide))
    | exact absurd rfl hat
    | exact if_pos hc

/-- Every dialect takes a blank beyond ASCII for a letter. -/
theorem startsWord_of_blank (d : Dialect) {x : Char} (hx : isBlank x = true)
    (hascii : ¬x.toNat < 128) : d.startsWord x = true := by
  have hrange : x.toNat ≤ 0xffff := by
    rw [isBlank] at hx
    simp only [hascii, if_false, Bool.or_eq_true, beq_iff_eq, Bool.and_eq_true,
      decide_eq_true_eq] at hx
    omega
  cases d
  · simp [Dialect.startsWord]; omega
  · simp [Dialect.startsWord]; omega
  · simp [Dialect.startsWord]; omega

/-- A blank beyond ASCII is read as a letter. -/
theorem step_wideBlank {c : Char} (hc : isBlank c = true) (hascii : ¬c.toNat < 128)
    (cs : List Char) : step d p c cs = .ok (wordToken d [c] cs) := by
  have halpha : c.isAlpha = false := by
    have hval : c.val.toNat = c.toNat := rfl
    simp only [Char.isAlpha, Char.isUpper, Char.isLower, ge_iff_le, UInt32.le_iff_toNat_le,
      Bool.or_eq_false_iff, Bool.and_eq_false_iff, decide_eq_false_iff_not, hval]
    have hz : 'z'.val.toNat = 122 := rfl
    have hZ : 'Z'.val.toNat = 90 := rfl
    omega
  have hat : c ≠ '@' := by
    rintro rfl
    exact hascii (by decide)
  exact step_startsWord (startsWord_of_blank d hc hascii) halpha hat cs

/-- The blanks in ASCII. -/
theorem mem_of_isBlank {c : Char} (hc : isBlank c = true) (hascii : c.toNat < 128) :
    c ∈ [' ', '\t', '\n', '\x0b', '\x0c', '\r'] := by
  have hall : ∀ n < 128, isBlank (Char.ofNat n) = true →
      Char.ofNat n ∈ [' ', '\t', '\n', '\x0b', '\x0c', '\r'] := by decide
  have hchar := hall c.toNat hascii
  rw [Char.ofNat_toNat] at hchar
  exact hchar hc

/-- A blank is read alone, or with the line feed behind it, or, where dialects take it for a letter,
    as the start of a word. -/
theorem step_blank {c : Char} {cs R : List Char} {t : Token} (hc : isBlank c = true)
    (h : step d p c cs = .ok (t, R)) :
    t.isTrivia = true ∧ (R = cs ∨ cs = '\n' :: R) ∨
      128 ≤ c.toNat ∧ ∃ more, t = .word (String.ofList (c :: more)) none := by
  by_cases hascii : c.toNat < 128
  · left
    have hmem := mem_of_isBlank hc hascii
    simp only [List.mem_cons, List.not_mem_nil, or_false] at hmem
    rcases hmem with rfl | rfl | rfl | rfl | rfl | rfl
    · cases h
      exact ⟨rfl, .inl rfl⟩
    · cases h
      exact ⟨rfl, .inl rfl⟩
    · cases h
      exact ⟨rfl, .inl rfl⟩
    · cases d <;> (cases h; exact ⟨rfl, .inl rfl⟩)
    · cases d <;> (cases h; exact ⟨rfl, .inl rfl⟩)
    · -- a line feed behind a carriage return is taken along
      unfold step at h
      rw [if_neg (by decide), if_neg (by decide), if_neg (by decide), if_pos rfl] at h
      split at h
      · cases h
        exact ⟨rfl, .inr rfl⟩
      · cases h
        exact ⟨rfl, .inl rfl⟩
  · right
    rw [step_wideBlank hc hascii] at h
    cases h
    exact ⟨Nat.le_of_not_lt hascii, _, rfl⟩

/-- A blank that is read as one is cut at the start of a text, with the rest of its line end. -/
theorem trimStart_of_step {c : Char} {cs R : List Char} {t : Token} (hc : isBlank c = true)
    (h : step d p c cs = .ok (t, R)) (ht : t.isTrivia = true) :
    trimStart (c :: cs) = trimStart R := by
  have hcut : ∀ {x : Char} (xs : List Char), isBlank x = true →
      trimStart (x :: xs) = trimStart xs := fun _ hx => List.dropWhile_cons_of_pos hx
  rcases step_blank hc h with ⟨-, rfl | rfl⟩ | ⟨-, more, rfl⟩
  · exact hcut _ hc
  · rw [hcut _ hc, hcut _ (by decide)]
  · cases ht

theorem period_continues (d : Dialect) : d.continuesWord '.' = false := by
  cases d <;> decide

/-- A run that takes a whole text stops before a period behind it. -/
theorem takeWhile_period {cs : List Char}
    (h : cs.drop (cs.takeWhile d.continuesWord).length = []) :
    (∀ x ∈ cs, d.continuesWord x = true) ∧
      ∀ S, (cs ++ '.' :: S).takeWhile d.continuesWord = cs := by
  have hrun : cs.takeWhile d.continuesWord = cs := by
    have hiff := drop_takeWhile_eq_iff d.continuesWord cs []
    rw [List.append_nil] at hiff
    exact hiff.mp h
  have hall : ∀ x ∈ cs, d.continuesWord x = true := List.takeWhile_eq_self_iff.mp hrun
  exact ⟨hall, fun S => (Class.takeWhile_eq_iff _ _ _).mpr ⟨hall, period_continues d⟩⟩

/-- A word that takes a whole text stops before a period behind it. -/
theorem wordToken_period {start cs : List Char} {t : Token} (h : wordToken d start cs = (t, []))
    (S : List Char) :
    wordToken d start (cs ++ '.' :: S) = (.word (String.ofList (start ++ cs)) none, '.' :: S) := by
  rw [wordToken, (takeWhile_period (congrArg Prod.snd h)).2 S, List.drop_left]

/-- What continues a word opens no literal. -/
theorem not_opens_of_continues {x : Char} (hx : d.continuesWord x = true) :
    x ∉ ['\x27', '"', '&'] := by
  have hall : ∀ y ∈ ['\x27', '"', '&'], d.continuesWord y = false := by cases d <;> decide
  intro hmem
  rw [hall x hmem] at hx
  cases hx

/-! ### Words that digits start -/

/-- What is read after the digits of a number is read after those that digits start a word with. -/
theorem numberOrPeriod_eq_afterMantissa {c x : Char} {ds tail : List Char}
    (hseparators : d.digitSeparators = false) (hds : ∀ y ∈ c :: ds, y.isDigit = true)
    (hx : x.isDigit = false) (hpoint : x ≠ '.') (hhex : c :: ds = ['0'] → x ≠ 'x') :
    numberOrPeriod d p (c :: (ds ++ x :: tail)) = .ok (afterMantissa d p (c :: ds) (x :: tail)) := by
  have hc : c.isDigit = true := hds c (List.mem_cons_self ..)
  have hruns : runs d.digitSeparators Char.isDigit (x :: tail) = false := by
    rw [runs, hx, hseparators, Bool.false_and, Bool.false_and]
    rfl
  -- the mantissa is no lone period
  have hnot : (c :: ds == ['.']) = false := by
    rw [beq_eq_false_iff_ne]
    intro h
    rw [(List.cons.inj h).1] at hc
    cases hc
  -- the run of digits ends at `x`, which is neither a period nor the mark of a hexadecimal number
  rw [numberOrPeriod_digit d p hc,
    digitRun_append (fun y hy => hds y (List.mem_cons_of_mem c hy)) hruns,
    afterWhole_of_ne fun hzero => by simpa using hhex hzero, decimalToken_eq,
    pointed_of_not_point (by simpa using hpoint)]
  simp only [decimalFrom, List.append_nil, hnot, Bool.false_and, digitRun_of_not_runs hruns,
    Bool.false_eq_true, if_false]

/-- Without an exponent, a word of a mantissa and all that follows it stops before a period. -/
theorem unmarked_period {mantissa rest : List Char} {t : Token}
    (h : unmarked d mantissa rest = (t, []))
    (ht : t = .word (String.ofList (mantissa ++ rest)) none) (S : List Char) :
    unmarked d mantissa (rest ++ '.' :: S) = (t, '.' :: S) := by
  unfold unmarked at h
  cases hd : d.numericWords with
  -- without words that begin with digits a word cannot come out
  | false =>
    rw [hd] at h
    subst ht
    exact absurd h numberToken_ne_word
  | true =>
    rw [hd, if_pos rfl] at h
    dsimp only at h
    split at h
    · subst ht
      exact absurd h numberToken_ne_word
    · next hne =>
      -- the period ends the word where the text ended it before
      obtain ⟨hall, hlonger⟩ := takeWhile_period (congrArg Prod.snd h)
      rw [List.takeWhile_eq_self_iff.mpr hall] at hne
      rw [unmarked, hd, if_pos rfl, hlonger S, if_neg hne, List.drop_left, ht]

/-- A word of a mantissa and all that follows it stops before a period. -/
theorem afterMantissa_period {mantissa rest : List Char}
    (h : afterMantissa d p mantissa rest = (.word (String.ofList (mantissa ++ rest)) none, []))
    (S : List Char) :
    afterMantissa d p mantissa (rest ++ '.' :: S)
      = (.word (String.ofList (mantissa ++ rest)) none, '.' :: S) := by
  have hmarked : ∀ {text R T : List Char} {word : String},
      marked d p text R = (.word word none, T) →
        R = T ∧ ∀ S, marked d p text S = (.word word none, S) := by
    intro text R T word h
    unfold marked at h
    split at h
    · next hcond =>
      cases h
      exact ⟨rfl, fun S => if_pos hcond⟩
    · exact absurd h numberToken_ne_word
  unfold afterMantissa at h
  split at h
  · next hexponent =>
    have hexponent' : exponentOf (rest ++ '.' :: S) = .none := by
      rw [exponentOf_eq_none_iff] at hexponent ⊢
      cases rest with
      | nil => rfl
      | cons x rest => exact hexponent
    rw [afterMantissa, hexponent']
    exact unmarked_period h rfl S
  · next hexponent =>
    -- a mark alone is not taken, so it would be left
    obtain ⟨rfl, -⟩ := hmarked h
    cases hexponent
  · next e R hexponent =>
    obtain ⟨rfl, hsame⟩ := hmarked h
    obtain ⟨hrest, -, -, hagain⟩ := exponentOf_eq_digits hexponent
    rw [List.append_nil] at hrest
    subst hrest
    rw [afterMantissa, hagain ('.' :: S) rfl]
    exact hsame _

/-- A word that digits start and that takes a whole text stops before a period behind it. -/
theorem numberOrPeriod_period {c : Char} {cs : List Char} (hd : d.numericWords = true)
    (hc : c.isDigit = true) (hpoint : '.' ∉ cs)
    (h : numberOrPeriod d p (c :: cs) = .ok (.word (String.ofList (c :: cs)) none, []))
    (S : List Char) :
    numberOrPeriod d p (c :: (cs ++ '.' :: S))
      = .ok (.word (String.ofList (c :: cs)) none, '.' :: S) := by
  have hseparators : d.digitSeparators = false := by
    cases d with
    | mysql => rfl
    | postgresql => cases hd
    | sqlite => cases hd
  have hsplit : cs.takeWhile Char.isDigit ++ cs.dropWhile Char.isDigit = cs :=
    List.takeWhile_append_dropWhile
  have hfirst := List.head?_dropWhile_not Char.isDigit cs
  have hds : ∀ y ∈ c :: cs.takeWhile Char.isDigit, y.isDigit = true := List.forall_mem_cons.mpr
    ⟨hc, fun y hy => List.all_eq_true.mp List.all_takeWhile y hy⟩
  generalize cs.takeWhile Char.isDigit = ds at hsplit hds
  generalize cs.dropWhile Char.isDigit = tail at hsplit hfirst
  subst hsplit
  cases tail with
  | nil =>
    -- digits alone are a number
    have hnumber : numberOrPeriod d p (c :: ds ++ [])
        = .ok (.number (String.ofList (c :: ds)) false, []) :=
      numberOrPeriod_digits hds (List.cons_ne_nil c ds) rfl fun _ => rfl
    cases hnumber.symm.trans h
  | cons x tail =>
    have hx : x.isDigit = false := by simpa using hfirst
    have hne : x ≠ '.' := by
      rintro rfl
      exact hpoint (by simp)
    have hhex : c :: ds = ['0'] → x ≠ 'x' := by
      rintro hzero rfl
      obtain ⟨rfl, rfl⟩ := List.cons.inj hzero
      cases d with
      | mysql => cases h
      | postgresql => cases hd
      | sqlite => cases hd
    rw [numberOrPeriod_eq_afterMantissa hseparators hds hx hne hhex] at h
    rw [List.append_assoc, List.cons_append,
      numberOrPeriod_eq_afterMantissa hseparators hds hx hne hhex]
    exact congrArg Except.ok (afterMantissa_period (Except.ok.inj h) S)

/-! ### Words that `@` starts -/

/-- A word that `@` starts and that takes a whole text stops before a period behind it. -/
theorem atToken_period {cs : List Char} (hpoint : '.' ∉ cs)
    (h : atToken .mysql cs = .ok (.word (String.ofList ('@' :: cs)) none, [])) (S : List Char) :
    atToken .mysql (cs ++ '.' :: S) = .ok (.word (String.ofList ('@' :: cs)) none, '.' :: S) := by
  rcases cs with _ | ⟨a, cs⟩
  · cases h
  by_cases hat : a = '@'
  · subst hat
    rcases cs with _ | ⟨x, cs⟩
    · cases h
    by_cases hx : x = ' '
    · subst hx
      cases h
    rw [atToken_two hx] at h
    rw [List.cons_append, List.cons_append, atToken_two hx, wordToken_period (Except.ok.inj h)]
    rfl
  by_cases hgreater : a = '>'
  · subst hgreater
    cases h
  by_cases hquestion : a = '?'
  · subst hquestion
    cases h
  -- before these the sign stands for itself
  by_cases hstop : a ∈ [' ', '\x27', '"', '\x60']
  · simp only [List.mem_cons, List.not_mem_nil, or_false] at hstop
    rcases hstop with rfl | rfl | rfl | rfl <;> cases h
  have ha : a ∉ ['@', '>', '?', ' ', '\x27', '"', '\x60'] := by simp_all
  rw [atToken_one ha] at h
  rw [List.cons_append, atToken_one ha, wordToken_period (Except.ok.inj h)]
  rfl

end Lexer

/-! ### Bare words -/

/-- A text that is read as one unquoted word behind a token, where nothing follows it. -/
def BareWord (d : Dialect) (p : Option Token) (cs : List Char) : Prop :=
  ∃ c w, cs = c :: w ∧ step d p c w = .ok (.word (String.ofList cs) none, [])

/-- A bare word is read as the same word before a period. -/
theorem Lexer.step_bareWord_period {c : Char} {w : List Char} (hpoint : '.' ∉ c :: w)
    (h : step d p c w = .ok (.word (String.ofList (c :: w)) none, [])) (S : List Char) :
    step d p c (w ++ '.' :: S) = .ok (.word (String.ofList (c :: w)) none, '.' :: S) := by
  obtain ⟨hc, hw⟩ := not_or.mp (List.mem_cons.not.mp hpoint)
  -- words with `@` are read by rules of their own
  by_cases hat : d = .mysql ∧ c = '@'
  · obtain ⟨rfl, rfl⟩ := hat
    exact atToken_period hw h S
  rcases step_bareWord h with ⟨hstart, hword⟩ | ⟨hdigit | hperiod, hd, hread⟩ | hmysql
  · have hne : c ≠ '@' := by
      rintro rfl
      cases d with
      | mysql => exact hat ⟨rfl, rfl⟩
      | postgresql => cases hstart
      | sqlite => cases hstart
    have hlonger := wordToken_period hword S
    cases halpha : c.isAlpha with
    | false => rw [step_startsWord hstart halpha hne, hlonger]; rfl
    | true =>
      -- neither the next letter nor the period makes a literal of it
      have hhead : ∀ x ∈ (w ++ '.' :: S).head?, x ∉ ['\x27', '"', '&'] := by
        intro x hx
        cases w with
        | nil =>
          cases hx
          decide
        | cons y w =>
          obtain rfl : y = x := Option.some.inj hx
          have hall := (takeWhile_period (congrArg Prod.snd hword)).1
          exact not_opens_of_continues (hall y (List.mem_cons_self ..))
      rw [step_letter halpha, letterOrWord_of_none (letterToken_of_head hhead), hlonger]
      rfl
  · rw [step_digit hdigit]
    exact numberOrPeriod_period hd hdigit hw hread S
  · exact absurd hperiod.symm hc
  · exact absurd hmysql hat

/-- A bare word starts with no quote. -/
theorem BareWord.head {cs : List Char} (h : BareWord d p cs) :
    ∀ c ∈ cs.head?, c ∉ ['"', '\x60', '['] := by
  obtain ⟨c, w, rfl, hstep⟩ := h
  rintro x hx hquote
  cases hx
  rcases step_bareWord hstep with ⟨hstart, -⟩ | ⟨hdigit | rfl, -⟩ | ⟨-, rfl⟩
  · have hall : ∀ y ∈ ['"', '\x60', '['], d.startsWord y = false := by cases d <;> decide
    rw [hall c hquote] at hstart
    cases hstart
  · have hall : ∀ y ∈ ['"', '\x60', '['], y.isDigit = false := by decide
    rw [hall c hquote] at hdigit
    cases hdigit
  · exact absurd hquote (by decide)
  · exact absurd hquote (by decide)

end QueryGate.Sql
