import Mathlib
import QueryGate.Proofs.TableSpelling
import QueryGate.Yaml.Writer

namespace QueryGate.Yaml

/-!
# Scalars that were written

Both ways in which a scalar is written are read back, and the reader stops right behind them:

* `hexValue?_hexText`, `escape?_hexText` — digits behind a backslash give back their character;
* `readQuoted_quotedText` — a text in double quotes gives back the text, whatever it holds;
* `readPlain_word` — letters and digits stand for themselves.

Of the characters in double quotes only a space can be a gap, as every other one is escaped.  So the
reader goes through a quoted text word by word, with spaces between the words.
-/

/-! ### Digits -/

/-- Digits are read back by a reader that takes one digit after another. -/
theorem foldlM_toDigits {base : Nat} (hbase : 1 < base) {f : Nat → Char → Option Nat}
    (hf : ∀ n d, d < base → f n (Nat.digitChar d) = some (base * n + d)) (n : Nat) :
    (Nat.toDigits base n).foldlM f 0 = some n := by
  induction n using Nat.strong_induction_on with
  | h n ih =>
    by_cases hn : n < base
    · rw [Nat.toDigits_of_lt_base hn]
      simp [hf 0 n hn]
    · have hpos : 0 < n := by omega
      rw [Nat.toDigits_of_base_le hbase (by omega), List.foldlM_append,
        ih _ (Nat.div_lt_self hpos hbase)]
      simp [hf _ _ (Nat.mod_lt n (by omega)), Nat.div_add_mod]

/-- What holds of every digit of a base holds of the digits of a number. -/
theorem forall_mem_toDigits {base : Nat} (hbase : 1 < base) {p : Char → Prop}
    (hp : ∀ d < base, p (Nat.digitChar d)) (n : Nat) : ∀ ch ∈ Nat.toDigits base n, p ch := by
  induction n using Nat.strong_induction_on with
  | h n ih =>
    by_cases hn : n < base
    · rw [Nat.toDigits_of_lt_base hn]
      exact List.forall_mem_singleton.mpr (hp n hn)
    · have hpos : 0 < n := by omega
      rw [Nat.toDigits_of_base_le hbase (by omega), List.forall_mem_append]
      exact ⟨ih _ (Nat.div_lt_self hpos hbase),
        List.forall_mem_singleton.mpr (hp _ (Nat.mod_lt n (by omega)))⟩

/-- Hexadecimal digits read back as their value. -/
theorem hexDigit?_digitChar {d : Nat} (h : d < 16) : hexDigit? (Nat.digitChar d) = some d := by
  decide +revert

/-- A hexadecimal number is read back, with zeros before it or without. -/
theorem hexValue?_hexText (width n : Nat) : hexValue? (hexText width n) = some n := by
  have hzeros (k : Nat) : (List.replicate k '0').foldlM
      (fun n c => (16 * n + ·) <$> hexDigit? c) 0 = some 0 := by
    induction k with
    | zero => rfl
    | succ k ih => exact ih
  rw [hexText, List.leftpad, hexValue?, List.foldlM_append, hzeros]
  exact foldlM_toDigits (by decide) (fun n d h => by simp [hexDigit?_digitChar h]) n

/-- A number that fits is written with the given width. -/
theorem length_hexText {width n : Nat} (hwidth : 0 < width) (h : n < 16 ^ width) :
    (hexText width n).length = width := by
  rw [hexText, List.length_leftpad]
  exact max_eq_left ((Nat.length_toDigits_le_iff (by decide) hwidth).mpr h)

/-- Eight digits are enough for every character. -/
theorem length_hexText_toNat (ch : Char) : (hexText 8 ch.toNat).length = 8 :=
  length_hexText (by decide) (ch.val.toNat_lt)

/-- The code of a character in eight digits is an escape for it. -/
theorem escape?_hexText (ch : Char) (cs : List Char) :
    escape? ('U' :: (hexText 8 ch.toNat ++ cs)) = some (ch, 9) := by
  have hlength := length_hexText_toNat ch
  have hnamed : namedEscape? 'U' = none := by decide
  have hwidth : escapeWidth? 'U' = some 8 := by decide
  have hvalid : ch.toNat.isValidChar := ch.valid
  have htake : (hexText 8 ch.toNat ++ cs).take 8 = hexText 8 ch.toNat := List.take_left' hlength
  simp [escape?, hnamed, hwidth, htake, hlength, hexValue?_hexText, scalarValue?, hvalid]

/-! ### Cursors -/

namespace Cursor

variable {c : Cursor} {cs : List Char} {ch mark : Char}

@[simp]
theorem skip_zero : c.skip 0 = c := rfl

@[simp]
theorem rest_skip (n : Nat) : (c.skip n).rest = c.rest.drop n := rfl

@[simp]
theorem column_skip (n : Nat) : (c.skip n).column = c.column + n := rfl

theorem skip_skip (a b : Nat) : (c.skip a).skip b = c.skip (a + b) := by
  simp [skip, Nat.add_assoc]

/-- Behind a text that stands at the cursor. -/
theorem rest_skip_append {front : List Char} (h : c.rest = front ++ cs) :
    (c.skip front.length).rest = cs := by
  rw [rest_skip, h, List.drop_left]

/-- At a character that ends no line there is no line break. -/
theorem lineBreak?_eq_none (hrest : c.rest = ch :: cs) (hch : isBreak ch = false) :
    c.lineBreak? = none := by
  simp only [isBreak, Bool.or_eq_false_iff, beq_eq_false_iff_ne, List.contains_cons] at hch
  simp [lineBreak?, hrest, isBreak, hch]

/-- No document starts or ends within a line. -/
theorem atDocumentMark_eq_false (h : 0 < c.column) : c.atDocumentMark = false := by
  simp [atDocumentMark, atMark, Nat.ne_of_gt h]

end Cursor

variable {c : Cursor} {cs text : List Char} {ch : Char}

/-! ### Characters in double quotes -/

theorem escaped_of_literal (h : isLiteral ch = true) : escaped ch = [ch] := by
  rw [escaped, if_pos h]

/-- Any other character is written by its code point. -/
theorem escaped_of_not_literal (h : isLiteral ch = false) :
    escaped ch = '\\' :: 'U' :: hexText 8 ch.toNat := by
  rw [escaped, h, if_neg Bool.false_ne_true]

theorem escaped_space : escaped ' ' = [' '] := by decide

theorem flatMap_escaped_spaces (n : Nat) :
    (List.replicate n ' ').flatMap escaped = List.replicate n ' ' := by
  induction n with
  | zero => rfl
  | succ n ih =>
    rw [List.replicate_succ, List.flatMap_cons, escaped_space, ih, List.singleton_append]

/-- Escaping makes no text shorter. -/
theorem length_le_flatMap_escaped (cs : List Char) : cs.length ≤ (cs.flatMap escaped).length := by
  induction cs with
  | nil => rfl
  | cons ch cs ih =>
    have hpos : 0 < (escaped ch).length := by
      rw [escaped]
      split <;> simp
    rw [List.flatMap_cons, List.length_append, List.length_cons]
    omega

theorem isGap_of_isLiteral (h : isLiteral ch = true) (hne : ch ≠ ' ') : isGap ch = false := by
  simp only [isLiteral, Bool.and_eq_true, bne_iff_ne, Bool.not_eq_true'] at h
  simp [isGap, isBlank, hne, h]

/-- What stands for a character that is no space does not start with a gap. -/
theorem exists_escaped_cons (hne : ch ≠ ' ') :
    ∃ first more, escaped ch = first :: more ∧ isGap first = false := by
  cases hliteral : isLiteral ch with
  | true => exact ⟨ch, [], escaped_of_literal hliteral, isGap_of_isLiteral hliteral hne⟩
  | false => exact ⟨'\\', _, escaped_of_not_literal hliteral, by decide⟩

/-! ### Words in double quotes -/

/-- One character of a word is read from what stands for it. -/
theorem quotedWord_step (hne : ch ≠ ' ') (hrest : c.rest = escaped ch ++ cs) (fuel : Nat) :
    quotedWord '"' (fuel + 1) text c =
      quotedWord '"' fuel (text ++ [ch]) (c.skip (escaped ch).length) := by
  -- a literal character stands for itself, any other for its code
  cases hliteral : isLiteral ch with
  | true =>
    have hgap := isGap_of_isLiteral hliteral hne
    rw [escaped_of_literal hliteral] at hrest ⊢
    simp only [isLiteral, Bool.and_eq_true, bne_iff_ne] at hliteral
    simp [quotedWord, hrest, hgap, hliteral]
  | false =>
    rw [escaped_of_not_literal hliteral] at hrest ⊢
    have hgap : isGap '\\' = false := by decide
    have hbehind : (c.skip 1).rest = 'U' :: (hexText 8 ch.toNat ++ cs) := by
      rw [Cursor.rest_skip, hrest, List.cons_append, List.cons_append, List.drop_one,
        List.tail_cons]
    have hbreak := Cursor.lineBreak?_eq_none hbehind (by decide)
    simp [quotedWord, hrest, hgap, hbreak, escape?_hexText, length_hexText_toNat]

/-- A word is read up to the space or the quote behind it. -/
theorem quotedWord_escaped {w : List Char} (hw : ' ' ∉ w) {stop : Char}
    (hstop : stop = ' ' ∨ stop = '"') {fuel : Nat} (hfuel : w.length < fuel)
    (hrest : c.rest = w.flatMap escaped ++ stop :: cs) (text : List Char) :
    quotedWord '"' fuel text c = some (text ++ w, false, c.skip (w.flatMap escaped).length) := by
  -- by induction on the word; it ends before a space or before the closing quote
  obtain ⟨fuel, rfl⟩ := Nat.exists_eq_succ_of_ne_zero (Nat.ne_zero_of_lt hfuel)
  induction w generalizing fuel text c with
  | nil =>
    obtain rfl | rfl := hstop
    · have hgap : isGap ' ' = true := by decide
      simp [quotedWord, hrest, hgap]
    · have hgap : isGap '"' = false := by decide
      simp [quotedWord, hrest, hgap]
  | cons ch w ih =>
    rw [List.mem_cons, not_or] at hw
    obtain ⟨hne, hw⟩ := hw
    obtain ⟨fuel, rfl⟩ := Nat.exists_eq_succ_of_ne_zero
      (Nat.ne_zero_of_lt (Nat.lt_of_succ_lt_succ hfuel))
    rw [List.flatMap_cons, List.append_assoc] at hrest
    rw [quotedWord_step (Ne.symm hne) hrest,
      ih hw (Cursor.rest_skip_append hrest) _ fuel (Nat.lt_of_succ_lt_succ hfuel), Cursor.skip_skip]
    simp

/-! ### Spaces in double quotes -/

/-- Spaces are a gap up to a character that is none. -/
theorem readGap_spaces {n : Nat} (hch : isGap ch = false) {fuel : Nat} (hfuel : n < fuel)
    (hrest : c.rest = List.replicate n ' ' ++ ch :: cs) (indent : Nat) (blanks : List Char) :
    readGap indent fuel ⟨blanks, none, false⟩ c =
      some (⟨blanks ++ List.replicate n ' ', none, false⟩, c.skip n) := by
  obtain ⟨fuel, rfl⟩ := Nat.exists_eq_succ_of_ne_zero (Nat.ne_zero_of_lt hfuel)
  -- by induction on the number of spaces; a visible character ends the gap
  induction n generalizing fuel blanks c with
  | zero =>
    simp only [isGap, Bool.or_eq_false_iff] at hch
    rw [List.replicate_zero, List.nil_append] at hrest
    simp [readGap, Cursor.lineBreak?_eq_none hrest hch.2, hrest, hch.1]
  | succ n ih =>
    obtain ⟨fuel, rfl⟩ := Nat.exists_eq_succ_of_ne_zero
      (Nat.ne_zero_of_lt (Nat.lt_of_succ_lt_succ hfuel))
    rw [List.replicate_succ, List.cons_append] at hrest
    have hbreak : c.lineBreak? = none := Cursor.lineBreak?_eq_none hrest (by decide)
    have hblank : isBlank ' ' = true := by decide
    have hafter : (c.skip 1).rest = List.replicate n ' ' ++ ch :: cs := by
      rw [Cursor.rest_skip, hrest, List.drop_one, List.tail_cons]
    have hread := ih hafter (blanks ++ [' ']) fuel (Nat.lt_of_succ_lt_succ hfuel)
    rw [Cursor.skip_skip, Nat.add_comm 1 n, List.append_assoc, List.singleton_append,
      ← List.replicate_succ] at hread
    rw [readGap, hbreak, hrest]
    simp only [hblank, if_true, Option.isNone_none]
    exact hread

/-- Spaces before a visible character are a gap without a line break. -/
theorem gapFrom_spaces {n : Nat} (hch : isGap ch = false)
    (hrest : c.rest = List.replicate n ' ' ++ ch :: cs) (indent : Nat) :
    gapFrom indent .empty c = some (⟨List.replicate n ' ', none, false⟩, c.skip n) := by
  have hfuel : n < c.rest.length + 1 := by
    rw [hrest, List.length_append, List.length_replicate]
    omega
  exact readGap_spaces hch hfuel hrest indent []

/-! ### Texts in double quotes -/

/-- A text with a space in it has a word before its first spaces. -/
theorem exists_word_of_space (h : ' ' ∈ cs) : ∃ w n more,
    cs = w ++ (List.replicate (n + 1) ' ' ++ more) ∧ ' ' ∉ w ∧ more.head? ≠ some ' ' := by
  obtain ⟨w, more, rfl, hw⟩ := List.eq_append_cons_of_mem h
  have hspaces : more.takeWhile (· == ' ') =
      List.replicate (more.takeWhile (· == ' ')).length ' ' :=
    List.eq_replicate_of_mem fun ch hch => by simpa using List.mem_takeWhile_imp hch
  refine ⟨w, (more.takeWhile (· == ' ')).length, more.dropWhile (· == ' '), ?_, hw, ?_⟩
  · rw [List.replicate_succ, List.cons_append, ← hspaces, List.takeWhile_append_dropWhile]
  · intro hhead
    have hnot := List.head?_dropWhile_not (· == ' ') more
    rw [hhead] at hnot
    exact absurd hnot (by decide)

/-- What stands behind spaces in double quotes is no gap. -/
theorem exists_after_spaces {more : List Char} (h : more.head? ≠ some ' ') (cs : List Char) :
    ∃ ch after, more.flatMap escaped ++ '"' :: cs = ch :: after ∧ isGap ch = false := by
  cases more with
  | nil => exact ⟨'"', cs, rfl, by decide⟩
  | cons ch more =>
    have hne : ch ≠ ' ' := by simpa using h
    obtain ⟨first, behind, hfirst, hgap⟩ := exists_escaped_cons hne
    exact ⟨first, behind ++ (more.flatMap escaped ++ '"' :: cs), by simp [hfirst], hgap⟩

/-- There is enough fuel for a word at the cursor. -/
theorem length_lt_of_rest {w : List Char} (hrest : c.rest = w.flatMap escaped ++ cs) :
    w.length < c.rest.length + 1 := by
  have hle := length_le_flatMap_escaped w
  rw [hrest, List.length_append]
  omega

/-- The last word ends the text. -/
theorem quotedLines_word {w : List Char} (hw : ' ' ∉ w) (fuel : Nat) (hcolumn : 0 < c.column)
    (hrest : c.rest = w.flatMap escaped ++ '"' :: cs) : quotedLines '"' (fuel + 1) text c =
      some (text ++ w, c.skip ((w.flatMap escaped).length + 1)) := by
  have hempty : c.rest.isEmpty = false := by simp [hrest]
  have hword := quotedWord_escaped hw (.inr rfl) (length_lt_of_rest hrest) hrest text
  have hhead : (c.skip (w.flatMap escaped).length).rest.head? = some '"' := by
    rw [Cursor.rest_skip_append hrest, List.head?_cons]
  simp only [quotedLines, Cursor.atDocumentMark_eq_false hcolumn, hempty, Bool.or_self, hword,
    hhead, Option.bind_eq_bind, Option.bind_some, Bool.false_eq_true, if_false, BEq.rfl, if_true,
    Cursor.skip_skip]
  rfl

/-- A word with spaces behind it is added to the text as it is. -/
theorem quotedLines_spaces {w : List Char} (hw : ' ' ∉ w) {n : Nat} (hch : isGap ch = false)
    (fuel : Nat) (hcolumn : 0 < c.column)
    (hrest : c.rest = w.flatMap escaped ++ (List.replicate (n + 1) ' ' ++ ch :: cs)) :
    quotedLines '"' (fuel + 1) text c =
      quotedLines '"' fuel (text ++ w ++ List.replicate (n + 1) ' ')
        (c.skip ((w.flatMap escaped).length + (n + 1))) := by
  have hempty : c.rest.isEmpty = false := by simp [hrest]
  -- the word before the first space
  have hword := quotedWord_escaped hw (.inl rfl) (length_lt_of_rest hrest) hrest text
  have hafter := Cursor.rest_skip_append hrest
  have hhead : (c.skip (w.flatMap escaped).length).rest.head? = some ' ' := by
    rw [hafter, List.replicate_succ, List.cons_append, List.head?_cons]
  -- the spaces, which are kept since no line ends
  have hgap := gapFrom_spaces hch hafter 0
  simp only [quotedLines, Cursor.atDocumentMark_eq_false hcolumn, hempty, Bool.or_self, hword,
    hhead, Option.bind_eq_bind, Option.bind_some, Bool.false_eq_true, if_false]
  rw [if_neg (by decide), hgap]
  simp only [Gap.text, Option.bind_some, Cursor.skip_skip]

/-- A quoted text is read to its end, word by word. -/
theorem quotedLines_escaped {inside : List Char} {fuel : Nat} (hfuel : inside.length < fuel)
    (hcolumn : 0 < c.column) (hrest : c.rest = inside.flatMap escaped ++ '"' :: cs) :
    quotedLines '"' fuel text c =
      some (text ++ inside, c.skip ((inside.flatMap escaped).length + 1)) := by
  induction fuel generalizing inside text c with
  | zero => exact absurd hfuel (Nat.not_lt_zero _)
  | succ fuel ih =>
    by_cases hspace : ' ' ∈ inside
    -- one word and its spaces are read, and what is left is shorter
    · obtain ⟨w, n, more, rfl, hw, hmore⟩ := exists_word_of_space hspace
      obtain ⟨ch, after, hafter, hch⟩ := exists_after_spaces hmore cs
      simp only [List.flatMap_append, flatMap_escaped_spaces, List.append_assoc] at hrest
      have hbehind : (c.skip ((w.flatMap escaped).length + (n + 1))).rest =
          more.flatMap escaped ++ '"' :: cs := by
        rw [← Cursor.skip_skip, Cursor.rest_skip, Cursor.rest_skip_append hrest,
          List.drop_left' List.length_replicate]
      have hshorter : more.length < fuel := by
        simp only [List.length_append, List.length_replicate] at hfuel
        omega
      have hlater : 0 < (c.skip ((w.flatMap escaped).length + (n + 1))).column :=
        Nat.add_pos_left hcolumn _
      rw [hafter] at hrest
      rw [quotedLines_spaces hw hch fuel hcolumn hrest, ih hshorter hlater hbehind,
        Cursor.skip_skip]
      simp [flatMap_escaped_spaces, Nat.add_assoc]
    · exact quotedLines_word hspace fuel hcolumn hrest

/-- **Quoted texts.** A text in double quotes is read back, and nothing behind it is touched. -/
theorem readQuoted_quotedText {s : String} (hrest : c.rest = quotedText s ++ cs) :
    readQuoted '"' c = some (s.toList, c.skip (quotedText s).length) := by
  have hinside : (c.skip 1).rest = s.toList.flatMap escaped ++ '"' :: cs := by
    simp [hrest, quotedText]
  have hfuel : s.toList.length < c.rest.length + 1 := by
    have hle := length_le_flatMap_escaped s.toList
    simp only [hrest, quotedText, List.length_append, List.length_cons]
    omega
  rw [readQuoted, quotedLines_escaped hfuel (Nat.succ_pos _) hinside, Cursor.skip_skip]
  simp [quotedText, Nat.add_comm]

/-! ### Plain words -/

/-- A letter or a digit is no other character. -/
theorem ne_of_isAlphanum {other : Char} (h : ch.isAlphanum = true)
    (hother : other.isAlphanum = false) : ch ≠ other := by
  rintro rfl
  exact Bool.false_ne_true (hother.symm.trans h)

/-- Letters and digits are printed as they are, and mean nothing else in a document. -/
theorem wordChar_spec (h : ch.isAlphanum = true) :
    isGap ch = false ∧ Layout.indicators.contains ch = false ∧ isPrintable ch = true := by
  have hascii : ch.toNat < 128 := (TableName.wordChar_spec (by rw [h, Bool.true_or])).1
  have hcodes : ∀ n < 128, (Char.ofNat n).isAlphanum = true → isGap (Char.ofNat n) = false ∧
      Layout.indicators.contains (Char.ofNat n) = false ∧ isPrintable (Char.ofNat n) = true := by
    decide
  exact Text.forall_ascii (p := fun c => c.isAlphanum = true → isGap c = false ∧
    Layout.indicators.contains c = false ∧ isPrintable c = true) hcodes ch hascii h

/-- What ends an item or an entry of a flow collection. -/
def IsEnder (ch : Char) : Prop := ch ∈ [',', ']', '\x7d']

/-- Such a character is no gap and no part of a plain scalar. -/
theorem IsEnder.spec (h : IsEnder ch) (cs : List Char) :
    isGap ch = false ∧ plainWord true (ch :: cs) = some [] := by
  obtain rfl | rfl | rfl : ch = ',' ∨ ch = ']' ∨ ch = '\x7d' := by simpa [IsEnder] using h
  · exact ⟨by decide, rfl⟩
  · exact ⟨by decide, rfl⟩
  · exact ⟨by decide, rfl⟩

/-- A word is read up to what ends its item. -/
theorem plainWord_word {w : List Char} (hw : ∀ ch ∈ w, ch.isAlphanum = true) (hstop : IsEnder ch) :
    plainWord true (w ++ ch :: cs) = some w := by
  induction w with
  | nil => exact (hstop.spec cs).2
  | cons first w ih =>
    obtain ⟨hfirst, hw⟩ := List.forall_mem_cons.mp hw
    have hgap := (wordChar_spec hfirst).1
    have hcolon : (first == ':') = false :=
      beq_eq_false_iff_ne.mpr (ne_of_isAlphanum hfirst (by decide))
    have hends : ",[]\x7b\x7d".toList.contains first = false := by
      simp [ne_of_isAlphanum hfirst]
    rw [List.cons_append, plainWord, hgap, hcolon, hends, ih hw]
    rfl

/-- A word stands for itself in a flow collection. -/
theorem readPlain_word {w : List Char} (hne : w ≠ []) (hw : ∀ ch ∈ w, ch.isAlphanum = true)
    (hstop : IsEnder ch) (hcolumn : 0 < c.column) (hrest : c.rest = w ++ ch :: cs) (indent : Nat) :
    readPlain true indent c = some ⟨w, false, c.skip w.length⟩ := by
  have hhead : (c.rest.head? == some '#') = false := by
    obtain ⟨first, more, rfl⟩ := List.exists_cons_of_ne_nil hne
    rw [hrest, List.cons_append, List.head?_cons]
    simpa using ne_of_isAlphanum (hw first (List.mem_cons_self ..)) (by decide)
  have hword : plainWord true c.rest = some w := by rw [hrest, plainWord_word hw hstop]
  have hempty : w.isEmpty = false := List.isEmpty_eq_false_iff.mpr hne
  have hgap := gapFrom_spaces (n := 0) (hstop.spec cs).1 (Cursor.rest_skip_append hrest) indent
  rw [readPlain, plainWords, Cursor.atDocumentMark_eq_false hcolumn, hhead, hword]
  simp only [Bool.or_self, Bool.false_eq_true, if_false, Option.bind_eq_bind, Option.bind_some,
    hempty, hgap]
  rfl

/-! ### Characters of a document -/

/-- Hexadecimal digits may stand in a document. -/
theorem isPrintable_hexText (width n : Nat) : ∀ ch ∈ hexText width n, isPrintable ch = true := by
  rw [hexText, List.leftpad, List.forall_mem_append]
  refine ⟨fun ch hch => ?_, forall_mem_toDigits (by decide) (by decide) n⟩
  rw [List.eq_of_mem_replicate hch]
  decide

/-- Text in double quotes may stand in a document, whatever it stands for. -/
theorem isPrintable_quotedText (text : String) : ∀ ch ∈ quotedText text, isPrintable ch = true := by
  have hescaped : ∀ ch ∈ text.toList.flatMap escaped, isPrintable ch = true := by
    intro ch hch
    -- literal characters are printable, and codes are written with printable ones
    obtain ⟨inside, -, hch⟩ := List.mem_flatMap.mp hch
    cases hliteral : isLiteral inside with
    | true =>
      rw [escaped_of_literal hliteral, List.mem_singleton] at hch
      rw [isLiteral, Bool.and_eq_true] at hliteral
      exact hch ▸ hliteral.2
    | false =>
      rw [escaped_of_not_literal hliteral, List.mem_cons, List.mem_cons] at hch
      obtain rfl | rfl | hch := hch
      · decide
      · decide
      · exact isPrintable_hexText _ _ ch hch
  have hquote : isPrintable '"' = true := by decide
  rw [quotedText, List.forall_mem_append, List.forall_mem_cons]
  exact ⟨⟨hquote, hescaped⟩, List.forall_mem_singleton.mpr hquote⟩

end QueryGate.Yaml
