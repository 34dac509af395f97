import Mathlib
import QueryGate.Proofs.Acceptance
import QueryGate.Proofs.Lexing.Words
import QueryGate.Proofs.Offences
import QueryGate.Proofs.TableSpelling

namespace QueryGate

open Sql Text

/-!
# Forbidden words of a gate's own

A gate may forbid words besides those of its dialect, and its settings are checked for entries that
are no words.  The check is on characters, while the search for the entries is on tokens; the two
agree on entries that are read as words.

* `Text.eq_of_mem_lowerChar` — lower case makes no digit and no sign of another character;
* `Lexer.mem_separators_iff` — the separators are the blanks, parentheses and commas that no dialect
  takes for letters;
* `Lexer.readsAsWord` / `Lexer.step_readsAsWord` — plain words that are one token;
* `Gate.extraKeyword_blocks` — an entry that is read as a word blocks every statement in which it
  stands alone.
-/

/-! ### Lower case and digits -/

namespace Text

/-- The runs of lower case lead to characters, and to ASCII from the Kelvin sign alone. -/
theorem lowerRuns_image : ∀ r ∈ lowerRuns,
    128 ≤ r.first + r.shift ∧
        (r.last + r.shift < 0xd800 ∨ 0xdfff < r.first + r.shift ∧ r.last + r.shift < 0x110000) ∨
      r.first = 0x212a ∧ r.last = 0x212a ∧ r.shift = -8383 := by decide +kernel

/-- Lower case makes no digit and no sign of another character. -/
theorem eq_of_mem_lowerChar {c y : Char} (hy : y ∈ lowerChar c) (hascii : y.toNat < 128)
    (hletter : y.isAlpha = false) : c = y := by
  by_cases hc : c.toNat < 128
  · rw [lowerChar, if_pos hc, List.mem_singleton] at hy
    have hcodes : ∀ n < 128, (Char.ofNat n).toLower.isAlpha = false →
        Char.ofNat n = (Char.ofNat n).toLower := by decide
    subst hy
    exact forall_ascii (p := fun c => c.toLower.isAlpha = false → c = c.toLower) hcodes c hc hletter
  rw [lowerChar, if_neg hc] at hy
  split at hy
  · simp only [List.mem_cons, List.not_mem_nil, or_false] at hy
    rcases hy with rfl | rfl
    · exact absurd hletter (by decide)
    · exact absurd hascii (by decide)
  · split at hy
    · next n himage =>
      obtain ⟨r, hfind, rfl⟩ := Option.map_eq_some_iff.mp himage
      have hcovers := List.find?_some hfind
      simp only [Bool.and_eq_true, decide_eq_true_eq] at hcovers
      rw [List.mem_singleton] at hy
      rcases lowerRuns_image r (List.mem_of_find?_eq_some hfind) with
        ⟨hlow, hvalid⟩ | ⟨hfirst, hlast, hshift⟩
      · -- the image is a character beyond ASCII
        have hcode : (Int.ofNat c.toNat + r.shift).toNat.isValidChar := by
          simp only [Nat.isValidChar, Int.ofNat_eq_natCast]
          omega
        rw [hy, Char.toNat_ofNat, if_pos hcode] at hascii
        simp only [Int.ofNat_eq_natCast] at hascii
        omega
      · have hkelvin : c.toNat = 0x212a := by omega
        rw [hy, hkelvin, hshift] at hletter
        exact absurd hletter (by decide)
    · rw [List.mem_singleton] at hy
      exact absurd hascii (hy ▸ hc)

theorem lowerChar_ne_nil (c : Char) : lowerChar c ≠ [] := by
  unfold lowerChar
  repeat' split
  all_goals exact List.cons_ne_nil _ _

/-- A word whose lower case starts with a digit starts with that digit. -/
theorem head_of_lower_digit {text : String} {y : Char} (hy : y.isDigit = true)
    (h : (lower text).toList.head? = some y) : text.toList.head? = some y := by
  obtain ⟨hascii, hletter⟩ : y.toNat < 128 ∧ y.isAlpha = false := by
    have hall : ∀ x ∈ Lexer.tenDigits, x.toNat < 128 ∧ x.isAlpha = false := by decide
    exact hall y (Lexer.mem_tenDigits hy)
  rw [lower, String.toList_ofList, lowerChars] at h
  cases hcs : text.toList with
  | nil =>
    rw [hcs] at h
    cases h
  | cons c cs =>
    rw [hcs, lowerAfter] at h
    by_cases hsigma : c = 'Σ'
    -- the lower case of a sigma is no ASCII character
    · rw [if_pos hsigma, List.singleton_append, List.head?_cons, lowerSigma] at h
      have hbeyond : ¬(if nextIsCased [] && !nextIsCased cs then 'ς' else 'σ').toNat < 128 := by
        split <;> decide
      rw [Option.some.inj h] at hbeyond
      exact absurd hascii hbeyond
    -- for any other letter it is the digit only if the letter is
    · rw [if_neg hsigma, List.head?_append_of_ne_nil _ (lowerChar_ne_nil c)] at h
      exact congrArg some (eq_of_mem_lowerChar (List.mem_of_mem_head? h) hascii hletter)

/-- A plain word in another case is a plain word, and the same in lower case. -/
theorem lower_eq_of_plain {k w : String} (hk : isPlainWord k = true) (h : asciiEqual w k = true) :
    isPlainWord w = true ∧ lower w = asciiLower k := by
  have hlower : asciiLower w = asciiLower k := beq_iff_eq.mp h
  have hmap : w.toList.map Char.toLower = k.toList.map Char.toLower := String.ofList_inj.mp hlower
  obtain ⟨hne, hchars⟩ := TableName.isWordChar_of_plain hk
  -- letter case does not change what makes a word
  have hsame : ∀ c : Char, (c.toLower.isAlphanum || c.toLower == '_') = (c.isAlphanum || c == '_') :=
    toLower_congr (fun c => c.isAlphanum || c == '_') (by decide)
  have hword : ∀ c ∈ w.toList, (c.isAlphanum || c == '_') = true := by
    intro c hc
    obtain ⟨x, hx, hxc⟩ := List.mem_map.mp (hmap ▸ List.mem_map_of_mem hc)
    rw [← hsame, ← hxc, hsame]
    exact hchars x hx
  have hnonempty : w.toList ≠ [] := by
    intro hnil
    rw [hnil, List.map_nil] at hmap
    exact hne (List.map_eq_nil_iff.mp hmap.symm)
  refine ⟨?_, ?_⟩
  · rw [isPlainWord, List.all_eq_true.mpr hword, Bool.and_true, Bool.not_eq_true']
    exact Bool.eq_false_iff.mpr fun hempty =>
      hnonempty (String.toList_eq_nil_iff.mpr (String.isEmpty_iff.mp hempty))
  · rw [lower_of_ascii fun c hc => (TableName.wordChar_spec (hword c hc)).1, ← hlower, asciiLower]

end Text

/-! ### Words that are one token -/

namespace Sql.Lexer

/-- The separators are the blanks, parentheses and commas that a dialect does not take for letters. -/
theorem mem_separators_iff (d : Dialect) (x : Char) :
    x ∈ separators ↔ (isBlank x = true ∨ x ∈ ['(', ')', ',']) ∧ d.continuesWord x = false := by
  constructor
  · intro hx
    refine ⟨?_, continuesWord_separators d x hx⟩
    revert x
    decide
  · rintro ⟨hblank, hcontinues⟩
    -- the ASCII characters one by one
    by_cases hascii : x.toNat < 128
    · have hcodes : ∀ n < 128, (isBlank (Char.ofNat n) = true ∨ Char.ofNat n ∈ ['(', ')', ',']) →
          Char.ofNat n ∈ separators := by decide
      exact forall_ascii (p := fun x => (isBlank x = true ∨ x ∈ ['(', ')', ',']) → x ∈ separators)
        hcodes x hascii hblank
    -- a blank beyond ASCII starts a word, so it is no separator
    · have hsigns : ∀ x ∈ ['(', ')', ','], x.toNat < 128 := by decide
      have hstarts := startsWord_of_blank d (hblank.resolve_right fun h => hascii (hsigns x h)) hascii
      rw [Dialect.continuesWord, hstarts] at hcontinues
      cases hcontinues

variable {d : Dialect} {previous : Option Token} {c : Char} {cs after : List Char}

/-- Whether a word of letters, digits and underscores is one token: it starts with no digit, or
    digits may start words and the character that follows them starts no exponent and no hexadecimal
    digits. -/
def readsAsWord (d : Dialect) (w : List Char) : Bool :=
  match w.dropWhile Char.isDigit with
  | [] => false
  | x :: _ =>
    let ds := w.takeWhile Char.isDigit
    ds.isEmpty || d.numericWords && !isMark x && !(ds == ['0'] && x == 'x')

/-- The characters of a plain word. -/
def IsPlain (c : Char) : Prop := (c.isAlphanum || c == '_') = true

/-- Letters, digits and underscores continue a word in every dialect. -/
theorem IsPlain.continuesWord (h : IsPlain c) (d : Dialect) : d.continuesWord c = true := by
  simp only [IsPlain, Char.isAlphanum, Bool.or_eq_true, beq_iff_eq] at h
  rcases h with (h | h) | rfl
  · cases d <;> simp [Dialect.continuesWord, Dialect.startsWord, h]
  · cases d <;> simp [Dialect.continuesWord, h]
  · cases d <;> rfl

/-- Neither a plain character nor a separator is a quote or an ampersand. -/
theorem letterToken_of_plain (hcs : ∀ x ∈ cs, IsPlain x) (hafter : ∀ x ∈ after.head?, x ∈ separators)
    (c : Char) : letterToken d c (cs ++ after) = none := by
  have hhead : ∀ x ∈ (cs ++ after).head?, x ∉ ['\x27', '"', '&'] := by
    intro x hx hmem
    cases cs with
    | nil =>
      have hall : ∀ x ∈ separators, x ∉ ['\x27', '"', '&'] := by decide
      exact hall x (hafter x hx) hmem
    | cons y cs =>
      have hall : ∀ x ∈ ['\x27', '"', '&'], ¬((x.isAlphanum || x == '_') = true) := by decide
      exact hall y (Option.some.inj hx ▸ hmem) (hcs y (List.mem_cons_self ..))
  exact letterToken_of_head hhead

/-- A plain text before a separator is one word. -/
theorem takeWhile_of_plain (d : Dialect) (hcs : ∀ x ∈ cs, IsPlain x)
    (hafter : ∀ x ∈ after.head?, x ∈ separators) :
    (cs ++ after).takeWhile d.continuesWord = cs := by
  refine (Class.takeWhile_eq_iff d.continuesWord cs after).mpr
    ⟨fun x hx => (hcs x hx).continuesWord d, ?_⟩
  cases hhead : after.head? with
  | none => rfl
  | some x => exact continuesWord_separators d x (hafter x hhead)

/-- A plain text before a separator is read as one word token. -/
theorem wordToken_of_plain (start : List Char) (hcs : ∀ x ∈ cs, IsPlain x)
    (hafter : ∀ x ∈ after.head?, x ∈ separators) :
    wordToken d start (cs ++ after) = (.word (String.ofList (start ++ cs)) none, after) := by
  rw [wordToken, takeWhile_of_plain d hcs hafter, List.drop_left]

/-- Digits and a plain character that starts a word with them. -/
theorem numberOrPeriod_word {x : Char} {ds tail : List Char} (hd : d.numericWords = true)
    (hds : ∀ y ∈ c :: ds, y.isDigit = true) (hx : x.isDigit = false) (hmark : isMark x = false)
    (hhex : c :: ds = ['0'] → x ≠ 'x') (htail : ∀ y ∈ x :: tail, IsPlain y)
    (hafter : ∀ y ∈ after.head?, y ∈ separators) :
    numberOrPeriod d previous (c :: (ds ++ (x :: tail ++ after)))
      = .ok (.word (String.ofList (c :: ds ++ x :: tail)) none, after) := by
  -- the dialect with such words has no separators within numbers
  have hseparators : d.digitSeparators = false := by
    cases d with
    | mysql => rfl
    | postgresql => cases hd
    | sqlite => cases hd
  have hpoint : x ≠ '.' := by
    rintro rfl
    exact absurd (htail '.' (List.mem_cons_self ..)) (by unfold IsPlain; decide)
  have hexponent : exponentOf (x :: (tail ++ after)) = .none :=
    (exponentOf_eq_none_iff _).mpr hmark
  -- the word goes on to the separator
  have hrun : (x :: (tail ++ after)).takeWhile d.continuesWord = x :: tail :=
    takeWhile_of_plain d htail hafter
  rw [List.cons_append, numberOrPeriod_eq_afterMantissa hseparators hds hx hpoint hhex]
  have hdrop : (x :: (tail ++ after)).drop (x :: tail).length = after := List.drop_left
  simp only [afterMantissa, hexponent, unmarked, hd, if_true, hrun, List.isEmpty_cons,
    Bool.false_eq_true, if_false, hdrop]

/-- **Plain words.** A word that is read as one is a token of its own before a separator. -/
theorem step_readsAsWord (hw : ∀ x ∈ c :: cs, IsPlain x) (hreads : readsAsWord d (c :: cs) = true)
    (hafter : ∀ x ∈ after.head?, x ∈ separators) :
    step d previous c (cs ++ after) = .ok (.word (String.ofList (c :: cs)) none, after) := by
  have hcs : ∀ x ∈ cs, IsPlain x := fun x hx => hw x (List.mem_cons_of_mem c hx)
  have hword : wordToken d [c] (cs ++ after) = (.word (String.ofList (c :: cs)) none, after) :=
    wordToken_of_plain [c] hcs hafter
  have hc := hw c (List.mem_cons_self ..)
  simp only [IsPlain, Char.isAlphanum, Bool.or_eq_true, beq_iff_eq] at hc
  -- it starts with a letter, a digit or an underscore
  rcases hc with (hletter | hdigit) | rfl
  · rw [step_letter hletter, letterOrWord_of_none (letterToken_of_plain hcs hafter c), hword]
  · have hrun : (c :: cs).takeWhile Char.isDigit = c :: cs.takeWhile Char.isDigit :=
      List.takeWhile_cons_of_pos hdigit
    have hdrop : (c :: cs).dropWhile Char.isDigit = cs.dropWhile Char.isDigit :=
      List.dropWhile_cons_of_pos hdigit
    have hfirst := List.head?_dropWhile_not Char.isDigit cs
    have hsplit : cs.takeWhile Char.isDigit ++ cs.dropWhile Char.isDigit = cs :=
      List.takeWhile_append_dropWhile
    have hds : ∀ y ∈ c :: cs.takeWhile Char.isDigit, y.isDigit = true := List.forall_mem_cons.mpr
      ⟨hdigit, fun y hy => List.all_eq_true.mp List.all_takeWhile y hy⟩
    rw [readsAsWord, hrun, hdrop] at hreads
    -- the digits at its start, and what stands behind them
    generalize cs.takeWhile Char.isDigit = ds at hreads hsplit hds
    generalize cs.dropWhile Char.isDigit = tail at hreads hfirst hsplit
    cases tail with
    | nil => cases hreads
    | cons x tail =>
      subst hsplit
      simp only [List.isEmpty_cons, Bool.false_or, Bool.and_eq_true, Bool.not_eq_true',
        Bool.and_eq_false_iff, beq_eq_false_iff_ne] at hreads
      obtain ⟨⟨hd, hmark⟩, hhex⟩ := hreads
      rw [step_digit hdigit, List.append_assoc]
      exact numberOrPeriod_word hd hds (by simpa using hfirst) hmark
        (fun hzero => hhex.resolve_left fun h => h hzero)
        (fun y hy => hcs y (List.mem_append_right _ hy)) hafter
  · rw [step_underscore, hword]

end Sql.Lexer

/-! ### Entries that block -/

open Sql.Lexer

/-- A word between separators or the ends of a text, that is not part of a literal, a quoted
    identifier or a comment. -/
structure StandsAlone (d : Dialect) (before word after : List Char) : Prop where
  left : ∀ x ∈ before.getLast?, x ∈ separators
  right : ∀ x ∈ after.head?, x ∈ separators
  outside : ∀ t ∈ tokenAt d before (word ++ after), t.isEnclosed = false

/-- A plain word that stands alone is a token of the text. -/
theorem word_mem_tokens {d : Dialect} {before after : List Char} {w : String} {ts : List Token}
    (hts : tokens d (before ++ (w.toList ++ after)) = .ok ts) (hw : isPlainWord w = true)
    (halone : StandsAlone d before w.toList after)
    (hat : ∀ t ∈ tokenAt d before (w.toList ++ after), t.isAtWord = false)
    (hreads : readsAsWord d w.toList = true) : .word w none ∈ ts := by
  obtain ⟨hne, hchars⟩ := TableName.isWordChar_of_plain hw
  obtain ⟨c, cs, hcs⟩ := List.exists_cons_of_ne_nil hne
  obtain ⟨t, htoken, hcovers⟩ := exists_covers hts (by simp [hcs])
  have hplain : ∀ x ∈ c :: cs, IsPlain x := by rwa [hcs] at hchars
  have hnewline : (w.toList ++ after).head? ≠ some '\n' := by
    rw [hcs, List.cons_append, List.head?_cons]
    intro hc
    have hno : ¬IsPlain '\n' := by
      unfold IsPlain
      decide
    exact hno (Option.some.inj hc ▸ hplain c (List.mem_cons_self ..))
  -- the tokens before the word end where it starts
  obtain ⟨us, q, hscan⟩ :=
    hcovers.scans (halone.outside t htoken) (hat t htoken) halone.left hnewline
  obtain ⟨r, hall⟩ := (tokens_eq_ok_iff d _ ts).mp hts
  obtain ⟨vs, rfl, hrest⟩ := hscan.rest hall
  rw [hcs] at hrest hreads
  -- and there it is read up to the separator
  have hone := Scans.one (p := q) (step_readsAsWord hplain hreads halone.right)
  obtain ⟨rest, rfl, -⟩ := hone.rest hrest
  have hword : String.ofList (c :: cs) = w := by rw [← hcs, String.ofList_toList]
  simp [hword]

namespace Gate

variable {g : Gate} {k : String}

/-- The entries of checked settings are plain words. -/
theorem isPlainWord_of_check (hg : g.settings.check = .ok ()) (hk : k ∈ g.settings.extraKeywords) :
    isPlainWord k = true := by
  rw [GateSettings.check] at hg
  split at hg
  · cases hg
  · next hfind => simpa using List.find?_eq_none.mp hfind k hk

/-- The lower case of an entry is searched for. -/
theorem forbidsVerb_extraKeyword (hk : k ∈ g.settings.extraKeywords) :
    g.rules.vocabulary.forbidsVerb (asciiLower k) = true :=
  List.contains_iff_mem.mpr (List.mem_append_right _ (List.mem_map_of_mem hk))

/-- **Configured verbs.** An entry of checked settings blocks every statement in which it stands
    alone in any letter case and is read as a word, unless the place is part of a word with `@`.
    Where digits start no words, an entry that starts with a digit is no word of any text. -/
theorem extraKeyword_blocks (hg : g.settings.check = .ok ()) (hk : k ∈ g.settings.extraKeywords) :
    (∀ (w : String) (sql before after : List Char), asciiEqual w k = true →
      g.rules.normalized sql = before ++ (w.toList ++ after) →
      StandsAlone g.dialect before w.toList after →
      (∀ t ∈ tokenAt g.dialect before (w.toList ++ after), t.isAtWord = false) →
      readsAsWord g.dialect w.toList = true → g.isSelectOnly sql = false) ∧
    (g.dialect.numericWords = false → ∀ y ∈ k.toList.head?, y.isDigit = true →
      ∀ cs ts, tokens g.dialect cs = .ok ts →
        ∀ text, .word text none ∈ ts → lower text ≠ asciiLower k) := by
  have hplain := isPlainWord_of_check hg hk
  constructor
  · intro w sql before after hcase hsplit halone hat hreads
    obtain ⟨hw, hlower⟩ := lower_eq_of_plain hplain hcase
    cases hshape : g.rules.checkShape sql with
    | error rejection => exact congrArg Except.isOk hshape
    | ok statement =>
      -- an accepted text would hold the word as a token
      obtain ⟨rfl, hhas⟩ := (g.rules.checkShape_eq_ok_iff sql statement).mp hshape
      obtain ⟨ts, hts, -, hwords⟩ := hhas.readable
      have hharmless := (Rules.checkWords_eq_ok_iff hts).mp hwords
      rw [hsplit] at hts
      have hallowed := hharmless.word (word_mem_tokens hts hw halone hat hreads)
      rw [hlower, forbidsVerb_extraKeyword hk] at hallowed
      cases hallowed
  · intro hwords y hy hdigit cs ts hts text hmem hlower
    obtain ⟨q, hscan⟩ := (tokens_eq_ok_iff _ cs ts).mp hts
    obtain ⟨p, c, w, R, hstep⟩ := hscan.exists_step hmem
    obtain ⟨hhead, hc⟩ := step_word_head hwords hstep
    -- a digit has no other case, so the word would start with it
    have hfirst : (lower text).toList.head? = some y := by
      have hsame : y.toLower = y := by
        have hall : ∀ x ∈ tenDigits, x.toLower = x := by decide
        exact hall y (mem_tenDigits hdigit)
      rw [hlower, asciiLower, String.toList_ofList, List.head?_map, hy, Option.map_some, hsame]
    rw [head_of_lower_digit hdigit hfirst] at hhead
    cases hhead
    rw [hdigit] at hc
    cases hc

end Gate

/-! ### Two entries -/

/-- A gate for PostgreSQL with one more forbidden word. -/
def gateForbidding (word : String) : Gate := ⟨{ GateSettings.default with extraKeywords := [word] }⟩

/-- An entry in another letter case, between a parenthesis and a blank. -/
theorem vacation_blocked :
    (gateForbidding "vacation").isSelectOnly "select (VACATION) from t".toList = false := by
  have hg : (gateForbidding "vacation").settings.check = .ok () := by decide
  have hk : "vacation" ∈ (gateForbidding "vacation").settings.extraKeywords := by decide
  exact (Gate.extraKeyword_blocks hg hk).1 "VACATION" _ "select (".toList ") from t".toList
    (by decide) (by decide) ⟨by decide, by decide, by decide⟩ (by decide) (by decide)

/-- An entry that the check lets through, and a statement in which it stands alone and that the gate
    accepts. -/
theorem digit_unblocked :
    (gateForbidding "1").settings.check = .ok () ∧
      "1" ∈ (gateForbidding "1").settings.extraKeywords ∧
      (gateForbidding "1").rules.normalized "select 1".toList
        = "select ".toList ++ ("1".toList ++ []) ∧
      StandsAlone (gateForbidding "1").dialect "select ".toList "1".toList [] ∧
      (gateForbidding "1").isSelectOnly "select 1".toList = true := by
  refine ⟨by decide, by decide, by decide, ⟨by decide, by decide, by decide⟩, by decide⟩

end QueryGate
