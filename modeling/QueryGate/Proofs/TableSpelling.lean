import Mathlib
import QueryGate.AllowList
import QueryGate.Proofs.LetterCase
import QueryGate.Settings

namespace QueryGate

open Text

/-!
# Spellings of allow-lists

An allow-list is a set of names, however its entries are given:

* `TableName.ofParts_of_asciiEqual` — the name with some parts does not depend on their ASCII case;
* `TableName.qualifiedWith_behind` — an entry with the schema in force in front of it is the same
  entry once both are qualified;
* `AllowList.Relisted` — lists of entries, given by their parts, that are the same list, and
  `AllowList.Relisted.mem_qualifiedNames`, that they name the same tables;
* `AllowList.Respelled` — texts that spell the same list, and `AllowList.Respelled.relisted`, that
  their parts do.
-/

/-! ### Names -/

/-- The pieces of a text in lower case. -/
theorem pieces_map_toLower (cs : List Char) :
    pieces '.' (cs.map Char.toLower) = (pieces '.' cs).map (List.map Char.toLower) := by
  induction cs with
  | nil => rfl
  | cons c cs ih =>
    have hdot : c.toLower = '.' ↔ c = '.' := by rw [← beq_iff_eq, toLower_beq_dot, beq_iff_eq]
    rw [List.map_cons, pieces, pieces, ih]
    by_cases hc : c = '.'
    · rw [if_pos hc, if_pos (hdot.mpr hc), List.map_cons, List.map_nil]
    · rw [if_neg hc, if_neg (hdot.not.mpr hc)]
      cases pieces '.' cs <;> rfl

/-- Quotes are no letters. -/
theorem unquoted_map_toLower (cs : List Char) :
    unquoted (cs.map Char.toLower) = (unquoted cs).map Char.toLower := by
  cases cs with
  | nil => rfl
  | cons c rest =>
    have hquote : ∀ d : Char, (([('"', '"'), ('\x60', '\x60'), ('[', ']')] : List (Char × Char)).contains
        (c.toLower, d.toLower)) = [('"', '"'), ('\x60', '\x60'), ('[', ']')].contains (c, d) := by
      intro d
      -- the quotes have no case
      have hbeq : ∀ x : Char, ∀ q ∈ ['"', '\x60', '[', ']'], (x.toLower == q) = (x == q) := by
        intro x q hq
        simp only [List.mem_cons, List.not_mem_nil, or_false] at hq
        obtain rfl | rfl | rfl | rfl := hq <;> exact toLower_congr (· == _) (by decide) x
      have hpair : ∀ q q' : Char, q ∈ ['"', '\x60', '[', ']'] → q' ∈ ['"', '\x60', '[', ']'] →
          ((c.toLower, d.toLower) == (q, q')) = ((c, d) == (q, q')) := fun q q' hq hq' =>
        congrArg₂ (· && ·) (hbeq c q hq) (hbeq d q' hq')
      simp only [List.contains_cons, List.contains_nil, hpair '"' '"' (by simp) (by simp),
        hpair '\x60' '\x60' (by simp) (by simp), hpair '[' ']' (by simp) (by simp)]
    rw [List.map_cons, unquoted, unquoted, List.getLast?_map]
    cases rest.getLast? with
    | none => rfl
    | some d =>
      simp only [Option.map_some, hquote]
      split
      · exact List.map_dropLast.symm
      · rfl

namespace TableName

/-- The parts that a text spells, before those without characters are left out. -/
def textParts (text : String) : List String :=
  (pieces '.' text.toList).map fun p => String.ofList (unquoted (trim p))

/-- The parts of a text in lower case. -/
theorem textParts_asciiLower (text : String) :
    textParts (asciiLower text) = (textParts text).map asciiLower := by
  simp only [textParts, asciiLower, String.toList_ofList, pieces_map_toLower, List.map_map,
    Function.comp_def, trim_map_toLower, unquoted_map_toLower]

/-- Texts in one ASCII case or another have parts in one case or another. -/
theorem textParts_of_asciiEqual {text text' : String} (h : asciiEqual text text' = true) :
    List.Forall₂ (fun p p' => asciiEqual p p' = true) (textParts text) (textParts text') := by
  have hparts : (textParts text).map asciiLower = (textParts text').map asciiLower := by
    rw [← textParts_asciiLower, ← textParts_asciiLower, beq_iff_eq.mp h]
  rw [← List.forall₂_eq_eq_eq, List.forall₂_map_left_iff, List.forall₂_map_right_iff] at hparts
  exact hparts.imp fun p p' hp => beq_iff_eq.mpr hp

/-- The name with some parts does not depend on their ASCII case. -/
theorem ofParts_of_asciiEqual {parts parts' : List String}
    (h : List.Forall₂ (fun p p' => asciiEqual p p' = true) parts parts') :
    ofParts parts = ofParts parts' := by
  have hlower : ∀ p p' : String, asciiEqual p p' = true → lower p = lower p' := by
    intro p p' hp
    have hchars := String.ofList_inj.mp (beq_iff_eq.mp hp)
    rw [lower, lower, ← lowerChars_map_toLower, hchars, lowerChars_map_toLower]
  have hparts : parts.map lower = parts'.map lower := by
    rw [← List.forall₂_eq_eq_eq, List.forall₂_map_left_iff, List.forall₂_map_right_iff]
    exact h.imp hlower
  rw [ofParts, ofParts, hparts]

/-! ### Qualification -/

/-- A word without a period is a piece of its own. -/
theorem pieces_of_word {w : List Char} (h : '.' ∉ w) (rest : List Char) :
    pieces '.' (w ++ '.' :: rest) = w :: pieces '.' rest := by
  induction w with
  | nil => rfl
  | cons c w ih =>
    obtain ⟨hc, hw⟩ := not_or.mp (List.mem_cons.not.mp h)
    rw [List.cons_append, pieces, if_neg (Ne.symm hc), ih hw]

/-- The characters of a plain word are ASCII letters, digits and underscores. -/
theorem isWordChar_of_plain {s : String} (h : isPlainWord s = true) :
    s.toList ≠ [] ∧ ∀ c ∈ s.toList, (c.isAlphanum || c == '_') = true := by
  simp only [isPlainWord, Bool.and_eq_true, Bool.not_eq_true', List.all_eq_true] at h
  refine ⟨fun hnil => ?_, h.2⟩
  rw [String.toList_eq_nil_iff.mp hnil] at h
  exact absurd h.1 (by decide)

/-- A plain word holds no period. -/
theorem dot_notMem_of_plain {s : String} (h : isPlainWord s = true) : '.' ∉ s.toList :=
  fun hmem => absurd ((isWordChar_of_plain h).2 '.' hmem) (by decide)

/-- What a plain word is made of is ASCII, no blank and no quote. -/
theorem wordChar_spec {c : Char} (h : (c.isAlphanum || c == '_') = true) :
    c.toNat < 128 ∧ isBlank c = false ∧ c ∉ ['"', '\x60', '['] := by
  have hascii : c.toNat < 128 := by
    have hval : c.val.toNat = c.toNat := rfl
    simp only [Char.isAlphanum, Char.isAlpha, Char.isUpper, Char.isLower, Char.isDigit, Bool.or_eq_true,
      beq_iff_eq, Bool.and_eq_true, decide_eq_true_eq, ge_iff_le, UInt32.le_iff_toNat_le, hval] at h
    obtain ((h | h) | h) | rfl := h
    · exact Nat.lt_of_le_of_lt h.2 (by decide)
    · exact Nat.lt_of_le_of_lt h.2 (by decide)
    · exact Nat.lt_of_le_of_lt h.2 (by decide)
    · decide
  have hcodes : ∀ n < 128, ((Char.ofNat n).isAlphanum || Char.ofNat n == '_') = true →
      isBlank (Char.ofNat n) = false ∧ Char.ofNat n ∉ ['"', '\x60', '['] := by decide
  have hspec := forall_ascii (p := fun c => (c.isAlphanum || c == '_') = true →
    isBlank c = false ∧ c ∉ ['"', '\x60', '[']) hcodes c hascii
  exact ⟨hascii, hspec h⟩

/-- Nothing is cut off a text without blanks. -/
theorem trim_of_noBlank {cs : List Char} (h : ∀ c ∈ cs, isBlank c = false) : trim cs = cs := by
  have hstart : ∀ cs : List Char, (∀ c ∈ cs, isBlank c = false) → cs.dropWhile isBlank = cs := by
    intro cs h
    cases cs with
    | nil => rfl
    | cons c cs => rw [List.dropWhile_cons_of_neg (by simp [h c (List.mem_cons_self ..)])]
  rw [trim, trimStart, hstart cs h, trimEnd, hstart _ fun c hc => h c (List.mem_reverse.mp hc),
    List.reverse_reverse]

/-- Nothing is cut from a plain word. -/
theorem unquoted_trim_of_plain {s : String} (h : isPlainWord s = true) :
    unquoted (trim s.toList) = s.toList := by
  obtain ⟨hne, hchars⟩ := isWordChar_of_plain h
  rw [trim_of_noBlank fun c hc => (wordChar_spec (hchars c hc)).2.1]
  obtain ⟨c, w, hs⟩ := List.exists_cons_of_ne_nil hne
  obtain ⟨-, -, hquote⟩ := wordChar_spec (hchars c (by simp [hs]))
  -- the first character is no quote, so nothing is taken off
  have hpair : ∀ d, [('"', '"'), ('\x60', '\x60'), ('[', ']')].contains (c, d) = false := by
    intro d
    simp only [List.mem_cons, List.not_mem_nil, or_false, not_or] at hquote
    simp [hquote]
  rw [hs, unquoted]
  cases w.getLast? with
  | none => rfl
  | some d => simp only [hpair, Bool.false_eq_true, if_false]

/-- A plain word as a schema is not empty. -/
theorem schemaPart_ne_empty {s : String} (h : isPlainWord s = true) :
    (schemaPart s).isEmpty = false := by
  obtain ⟨hne, hchars⟩ := isWordChar_of_plain h
  obtain ⟨c, w, hs⟩ := List.exists_cons_of_ne_nil hne
  obtain ⟨hascii, -, -⟩ := wordChar_spec (hchars c (by simp [hs]))
  -- lower case of a character other than sigma does not depend on what is around it
  have hsigma : c ≠ 'Σ' := by
    rintro rfl
    exact absurd hascii (by decide)
  rw [schemaPart, unquoted_trim_of_plain h, hs, lowerChars, lowerAfter, if_neg hsigma, lowerChar,
    if_pos hascii]
  simp

/-- A text behind a plain word and a period has the word as its first part. -/
theorem textParts_behind {s : String} (h : isPlainWord s = true) (text : String) :
    textParts (s ++ "." ++ text) = s :: textParts text := by
  have hsplit : (s ++ "." ++ text).toList = s.toList ++ '.' :: text.toList := by
    simp [String.toList_append]
  rw [textParts, hsplit, pieces_of_word (dot_notMem_of_plain h), List.map_cons,
    unquoted_trim_of_plain h, String.ofList_toList]
  rfl

/-- A plain word in front of some parts is the schema of the name. -/
theorem ofParts_behind {s : String} (h : isPlainWord s = true) (parts : List String) :
    ofParts (s :: parts) = ⟨schemaPart s :: (ofParts parts).parts⟩ := by
  have hschema : lower s = schemaPart s := by
    rw [lower, schemaPart, unquoted_trim_of_plain h]
  rw [ofParts, List.map_cons, hschema, List.filter_cons_of_pos]
  · rfl
  · rw [schemaPart_ne_empty h]
    rfl

/-- Qualified with the schema in force, a name with that schema is the name without it. -/
theorem qualifiedWith_behind {s : String} {parts : List String} (h : isPlainWord s = true)
    (hone : (ofParts parts).isQualified = false) (hname : (ofParts parts).parts ≠ []) :
    (ofParts (s :: parts)).qualifiedWith (some s) = (ofParts parts).qualifiedWith (some s) := by
  rw [ofParts_behind h]
  obtain ⟨part, hpart⟩ : ∃ part, (ofParts parts).parts = [part] := by
    have hlength : ¬(ofParts parts).parts.length > 1 := of_decide_eq_false hone
    have hpos := List.length_pos_iff.mpr hname
    exact List.length_eq_one_iff.mp (by omega)
  simp [qualifiedWith, isQualified, table, hpart]

end TableName

/-! ### Lists -/

namespace AllowList

/-- A list holds the names that were put into it. -/
theorem mem_entries_foldl (names : List TableName) (a : AllowList) (n : TableName) :
    n ∈ (names.foldl insert a).entries ↔ n ∈ a.entries ∨ n ∈ names := by
  induction names generalizing a with
  | nil => simp
  | cons name names ih =>
    have hinsert : n ∈ (a.insert name).entries ↔ n ∈ a.entries ∨ n = name := by
      rw [insert]
      split
      · next hmem =>
        refine ⟨.inl, fun h => h.elim id ?_⟩
        rintro rfl
        exact List.contains_iff_mem.mp hmem
      · simp
    rw [List.foldl_cons, ih, hinsert, List.mem_cons, or_assoc]

/-- Inserting names leaves the default schema. -/
theorem defaultSchema_foldl (names : List TableName) (a : AllowList) :
    (names.foldl insert a).defaultSchema = a.defaultSchema := by
  induction names generalizing a with
  | nil => rfl
  | cons name names ih =>
    rw [List.foldl_cons, ih, insert]
    split <;> rfl

/-- The entries of a list are the names that it was made from. -/
theorem mem_ofNames (names : List TableName) (schema : Option String) (n : TableName) :
    n ∈ (ofNames names schema).entries ↔ n ∈ names := by
  rw [ofNames, mem_entries_foldl]
  simp

/-- A list allows nothing iff it was made from no name. -/
theorem isEmpty_ofNames (names : List TableName) (schema : Option String) :
    (ofNames names schema).isEmpty = names.isEmpty := by
  rw [Bool.eq_iff_iff, isEmpty, List.isEmpty_iff, List.isEmpty_iff, List.eq_nil_iff_forall_not_mem,
    List.eq_nil_iff_forall_not_mem]
  simp only [mem_ofNames]

/-- A reference resolves iff a name is the same once both are qualified. -/
theorem resolves_ofNames (names : List TableName) (schema fallback : Option String) (n : TableName) :
    (ofNames names schema).resolves n fallback = true ↔
      ∃ name ∈ names, name.qualifiedWith (schema <|> fallback) =
        n.qualifiedWith (schema <|> fallback) := by
  have hschema : (ofNames names schema).defaultSchema = schema := defaultSchema_foldl _ _
  simp only [resolves, hschema, List.any_eq_true, beq_iff_eq, mem_ofNames]

/-- A list of texts allows nothing iff there is no text. -/
theorem isEmpty_ofTexts (texts : List String) (schema : Option String) :
    (ofTexts texts schema).isEmpty = texts.isEmpty := by
  rw [ofTexts, isEmpty_ofNames, List.isEmpty_map]

/-- A reference resolves iff a text spells the same name once both are qualified. -/
theorem resolves_ofTexts (texts : List String) (schema fallback : Option String) (n : TableName) :
    (ofTexts texts schema).resolves n fallback = true ↔
      ∃ t ∈ texts, (TableName.parse t).qualifiedWith (schema <|> fallback) =
        n.qualifiedWith (schema <|> fallback) := by
  rw [ofTexts, resolves_ofNames]
  simp only [List.mem_map, exists_exists_and_eq_and]

/-! ### Entries by their parts -/

/-- Entries, given by their parts, that make the same list, given the schema in force: the same
    entries in another order or more than once, in another ASCII case, or with that schema in front
    of a name without one. -/
inductive Relisted (schema : Option String) : List (List String) → List (List String) → Prop
  | reordered {entries entries' : List (List String)} : entries.Perm entries' →
      Relisted schema entries entries'
  | repeated {entry : List String} {entries : List (List String)} : entry ∈ entries →
      Relisted schema entries (entry :: entries)
  | recased {entries entries' : List (List String)} :
      List.Forall₂ (List.Forall₂ fun p p' => asciiEqual p p' = true) entries entries' →
      Relisted schema entries entries'
  | qualified {s : String} {entry : List String} {before after : List (List String)} :
      schema = some s → isPlainWord s = true → (TableName.ofParts entry).isQualified = false →
      (TableName.ofParts entry).parts ≠ [] →
      Relisted schema (before ++ entry :: after) (before ++ (s :: entry) :: after)
  | symm {entries entries' : List (List String)} : Relisted schema entries entries' →
      Relisted schema entries' entries
  | trans {entries entries' entries'' : List (List String)} : Relisted schema entries entries' →
      Relisted schema entries' entries'' → Relisted schema entries entries''

/-- The names of entries, qualified with the schema in force. -/
def qualifiedNames (schema : Option String) (entries : List (List String)) : List TableName :=
  entries.map fun parts => (TableName.ofParts parts).qualifiedWith schema

/-- The qualified names of entries do not depend on the case of ASCII letters. -/
theorem qualifiedNames_of_recased {schema : Option String} {entries entries' : List (List String)}
    (h : List.Forall₂ (List.Forall₂ fun p p' => asciiEqual p p' = true) entries entries') :
    qualifiedNames schema entries = qualifiedNames schema entries' := by
  induction h with
  | nil => rfl
  | cons hcase _ ih =>
    rw [qualifiedNames, List.map_cons, TableName.ofParts_of_asciiEqual hcase]
    exact congrArg (_ :: ·) ih

/-- Entries that make the same list name the same tables. -/
theorem Relisted.mem_qualifiedNames {schema : Option String} {entries entries' : List (List String)}
    (h : Relisted schema entries entries') (n : TableName) :
    n ∈ qualifiedNames schema entries ↔ n ∈ qualifiedNames schema entries' := by
  induction h with
  | reordered hperm => exact (hperm.map _).mem_iff
  -- the name that is repeated was there
  | repeated hmem =>
    rw [qualifiedNames, qualifiedNames, List.map_cons, List.mem_cons]
    refine ⟨.inr, fun h => h.elim ?_ id⟩
    rintro rfl
    exact List.mem_map_of_mem hmem
  | recased hcase => rw [qualifiedNames_of_recased hcase]
  | qualified hschema hs hone hname =>
    rw [hschema]
    simp [qualifiedNames, TableName.qualifiedWith_behind hs hone hname]
  | symm _ ih => exact ih.symm
  | trans _ _ ih ih' => exact ih.trans ih'

/-! ### Entries by their texts -/

/-- Texts that spell the same list, given the schema in force: the same texts in another order or
    more than once, in another ASCII case, or with that schema in front of a name without one. -/
inductive Respelled (schema : Option String) : List String → List String → Prop
  | reordered {texts texts' : List String} : texts.Perm texts' → Respelled schema texts texts'
  | repeated {text : String} {texts : List String} : text ∈ texts →
      Respelled schema texts (text :: texts)
  | recased {texts texts' : List String} :
      List.Forall₂ (fun t t' => asciiEqual t t' = true) texts texts' → Respelled schema texts texts'
  | qualified {s text : String} {before after : List String} : schema = some s →
      isPlainWord s = true → (TableName.parse text).isQualified = false →
      (TableName.parse text).parts ≠ [] →
      Respelled schema (before ++ text :: after) (before ++ (s ++ "." ++ text) :: after)
  | symm {texts texts' : List String} : Respelled schema texts texts' →
      Respelled schema texts' texts
  | trans {texts texts' texts'' : List String} : Respelled schema texts texts' →
      Respelled schema texts' texts'' → Respelled schema texts texts''

/-- The parts of texts that spell the same list make it, too. -/
theorem Respelled.relisted {schema : Option String} {texts texts' : List String}
    (h : Respelled schema texts texts') :
    Relisted schema (texts.map TableName.textParts) (texts'.map TableName.textParts) := by
  induction h with
  | reordered hperm => exact .reordered (hperm.map _)
  | repeated hmem => exact .repeated (List.mem_map_of_mem hmem)
  | recased hcase =>
    refine .recased ?_
    rw [List.forall₂_map_left_iff, List.forall₂_map_right_iff]
    exact hcase.imp fun _ _ => TableName.textParts_of_asciiEqual
  | qualified hschema hs hone hname =>
    rw [List.map_append, List.map_append, List.map_cons, List.map_cons,
      TableName.textParts_behind hs]
    exact .qualified hschema hs hone hname
  | symm _ ih => exact ih.symm
  | trans _ _ ih ih' => exact ih.trans ih'

end AllowList

end QueryGate
