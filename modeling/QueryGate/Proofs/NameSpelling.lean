import QueryGate.Proofs.Acceptance
import QueryGate.Proofs.CatalogList
import QueryGate.Proofs.Grammar.Selections
import QueryGate.Proofs.OffenceSearch
import QueryGate.Proofs.TableSpelling

namespace QueryGate

open Sql Text

/-!
# Names in allow-lists and in statements

Configuration text spells a table as statements do, but is read by other rules: it is cut at every
period, and blanks and quotes are taken off the pieces.

* `Spelling.MeansItself` — an identifier that both read alike;
* `NamesTable` — the identifiers that a statement may hold as the name of a table;
* `NamesTable.tokens`, `NamesTable.referencedTables` — what a statement reads them as;
* `TableName.parse_dottedText` — what configuration text reads them as;
* `Gate.dottedName_readAlike` — an allow-list that holds the text of a name holds the table that a
  statement with this text reads, and the gate accepts the statement unless another rule fails.
-/

/-! ### Names in configuration text -/

/-- A word without a period is its only piece. -/
theorem pieces_of_undotted {w : List Char} (h : '.' ∉ w) : pieces '.' w = [w] := by
  induction w with
  | nil => rfl
  | cons c w ih =>
    obtain ⟨hc, hw⟩ := not_or.mp (List.mem_cons.not.mp h)
    rw [pieces, if_neg (Ne.symm hc), ih hw]

namespace Sql.Spelling

/-- A spelling that configuration text reads alike: bare without blanks at its ends, or in quotes
    without a period and the closing quote in it. -/
def MeansItself : Spelling → Prop
  | bare content => Trimmed content
  | quoted _ close content => '.' ∉ content ∧ close ∉ content

variable {d : Dialect} {p : Option Token} {s : Spelling}

/-- A spelling that means itself is a piece of its own. -/
theorem undotted_text (hs : s.Fits d p) (halike : s.MeansItself) : '.' ∉ s.text := by
  cases s with
  | bare content => exact hs.1
  | quoted start close content =>
    have hpairs : ∀ pair ∈ [('"', '"'), ('\x60', '\x60'), ('[', ']')],
        '.' ≠ pair.1 ∧ '.' ≠ pair.2 := by decide
    obtain ⟨hstart, hclose⟩ := hpairs _ (identifierQuote?_pair hs)
    rw [text, doubled_eq_self halike.2]
    simp [hstart, hclose, halike.1]

/-- A piece of configuration text is read as what it spells. -/
theorem unquoted_text (hs : s.Fits d p) (halike : s.MeansItself) :
    unquoted (trim s.text) = s.content := by
  cases s with
  | bare content =>
    have hbare := hs.2.head
    rw [text, trim_eq_self halike]
    change unquoted content = content
    cases content with
    | nil => rfl
    | cons c w =>
      -- a bare word starts with no quote, so none is taken off
      have hpair : ∀ x, [('"', '"'), ('\x60', '\x60'), ('[', ']')].contains (c, x) = false := by
        intro x
        have hquote := hbare c rfl
        simp only [List.mem_cons, List.not_mem_nil, or_false, not_or] at hquote
        simp [hquote]
      rw [unquoted]
      cases w.getLast? with
      | none => rfl
      | some x => simp only [hpair, Bool.false_eq_true, if_false]
  | quoted start close content =>
    have hpair := identifierQuote?_pair hs
    have hblank : ∀ pair ∈ [('"', '"'), ('\x60', '\x60'), ('[', ']')],
        isBlank pair.1 = false ∧ isBlank pair.2 = false := by decide
    -- between the quotes, blanks at the ends of the content are kept
    have htrimmed : Trimmed (start :: (content ++ [close])) := by
      refine ⟨fun c hc => ?_, fun c hc => ?_⟩
      · cases hc
        exact (hblank _ hpair).1
      · rw [← List.cons_append, List.getLast?_concat] at hc
        cases hc
        exact (hblank _ hpair).2
    rw [text, doubled_eq_self halike.2, trim_eq_self htrimmed, unquoted, List.getLast?_concat]
    simp only [List.contains_iff_mem.mpr hpair, if_true, List.dropLast_concat]
    rfl

end Sql.Spelling

/-! ### Names in statements -/

namespace Sql

/-- Identifiers that a statement may hold as the name of a table: each bare where it is a word, the
    first one of them none that opens another item of a `FROM` clause, or in quotes. -/
structure NamesTable (d : Dialect) (names : List Spelling) : Prop where
  nonempty : names ≠ []
  first : ∀ s ∈ names.head?, s.Fits d (some (.blank .space)) ∧
    s.ident.token.keyword ∉ Parser.itemOpeners d
  later : ∀ s ∈ names.tail, s.Fits d (some (.symbol "."))
  contents : ∀ s ∈ names, s.content ≠ []

/-- All of a table. -/
def selectionText (names : List Spelling) : List Char := "select * from ".toList ++ dottedText names

variable {d : Dialect} {names : List Spelling}

/-- Every part of a name is spelled in a way that its dialect reads back. -/
theorem NamesTable.fits (h : NamesTable d names) {s : Spelling} (hs : s ∈ names) :
    ∃ p, s.Fits d p := by
  obtain ⟨first, more, rfl⟩ := List.exists_cons_of_ne_nil h.nonempty
  rcases List.mem_cons.mp hs with rfl | hs
  · exact ⟨_, (h.first s rfl).1⟩
  · exact ⟨_, h.later s hs⟩

/-- What stands before the name. -/
theorem scans_selectionFront (d : Dialect) (R : List Char) :
    Scans d none ("select * from ".toList ++ R) Parser.selectionFront (some (.blank .space)) R := by
  have hcontinues : ∀ x ∈ "elect".toList ++ "rom".toList, d.continuesWord x = true := by
    cases d <;> decide
  have hspace : d.continuesWord ' ' = false := (Lexer.continuesWord_class d).breaks _ (by decide)
  -- the star is a symbol of its own in every dialect
  have hstar : ∀ p R, Lexer.step d p '*' R = .ok (.symbol "*", R) := by
    cases d <;> exact fun _ _ => rfl
  have hselect : Scans d none ('s' :: "elect".toList ++ (" * from ".toList ++ R)) [_] _
      (" * from ".toList ++ R) :=
    .word (by decide) (by decide) (fun x hx => hcontinues x (List.mem_append_left _ hx)) hspace
  have hfrom : ∀ p, Scans d p ('f' :: "rom".toList ++ (' ' :: R)) [_] _ (' ' :: R) := fun p =>
    .word (by decide) (by decide) (fun x hx => hcontinues x (List.mem_append_right _ hx)) hspace
  have hspaces : ∀ p R, Scans d p (' ' :: R) [.blank .space] (some (.blank .space)) R :=
    fun p R => .one (step_space d p R)
  have hmiddle := (hspaces (some (.word "select" none)) ('*' :: " from ".toList ++ R)).trans
    ((Scans.one (hstar _ (" from ".toList ++ R))).trans (hspaces _ ("from ".toList ++ R)))
  exact (hselect.trans hmiddle).trans ((hfrom _).trans (hspaces _ R))

/-- **Dotted names in statements.** They are read as their identifiers, with what is in quotes as it
    is. -/
theorem NamesTable.tokens (h : NamesTable d names) :
    tokens d (selectionText names)
      = .ok (Parser.selectionFront ++ nameTokens (names.map Spelling.ident)) := by
  obtain ⟨s, more, rfl⟩ := List.exists_cons_of_ne_nil h.nonempty
  obtain ⟨q, hname⟩ := scans_name (h.first s rfl).1 h.later
  exact (tokens_eq_ok_iff _ _ _).mpr ⟨q, (scans_selectionFront d _).trans hname⟩

/-- `SELECT * FROM` a spelled name is parsed into the selection from that name. -/
theorem NamesTable.parse (h : NamesTable d names) :
    parse d (selectionText names) = .ok [.query (Parser.selection (names.map Spelling.ident))] := by
  rw [parse_eq_ok_iff h.tokens]
  obtain ⟨s, more, rfl⟩ := List.exists_cons_of_ne_nil h.nonempty
  exact Parser.parseTokens_selection (h.first s rfl).2 _

/-- Its only table is that name. -/
theorem NamesTable.referencedTables (h : NamesTable d names) :
    referencedTables d (selectionText names)
      = .ok [TableName.ofName (names.map Spelling.ident)] := by
  rw [QueryGate.referencedTables, h.parse]
  exact congrArg (fun tables => Except.ok (tables ++ [])) (Parser.tables_selection _)

end Sql

/-! ### One name in both places -/

namespace TableName

variable {d : Dialect} {names : List Spelling}

/-- The pieces of a dotted name are its identifiers. -/
theorem pieces_dottedText (hne : names ≠ []) (h : ∀ s ∈ names, '.' ∉ s.text) :
    pieces '.' (dottedText names) = names.map Spelling.text := by
  induction names with
  | nil => exact absurd rfl hne
  | cons s names ih =>
    obtain ⟨hs, hnames⟩ := List.forall_mem_cons.mp h
    cases names with
    | nil =>
      have htext : dottedText [s] = s.text := by simp [dottedText, List.intercalate]
      rw [htext, pieces_of_undotted hs]
      rfl
    | cons s' names =>
      rw [dottedText_cons, pieces_of_word hs, ih (List.cons_ne_nil _ _) hnames]
      rfl

/-- **Dotted names in configuration text.** They are read as statements read them. -/
theorem parse_dottedText (h : NamesTable d names) (halike : ∀ s ∈ names, s.MeansItself) :
    parse (String.ofList (dottedText names)) = ofName (names.map Spelling.ident) := by
  have hundotted : ∀ s ∈ names, '.' ∉ s.text := fun s hs =>
    (h.fits hs).elim fun p hfits => Spelling.undotted_text hfits (halike s hs)
  have hpiece : ∀ s ∈ names, lower (String.ofList (unquoted (trim s.text))) = lower s.ident.text :=
    fun s hs => by
      obtain ⟨p, hfits⟩ := h.fits hs
      rw [Spelling.unquoted_text hfits (halike s hs)]
      cases s <;> rfl
  -- lower case leaves no identifier empty, so no part is dropped
  have hkept : ∀ s ∈ names, (lower s.ident.text).isEmpty = false := by
    intro s hs
    have hcontent : s.ident.text ≠ "" := by
      have hne := h.contents s hs
      cases s <;> simpa [Spelling.ident, Spelling.content] using hne
    simpa using lower_ne_empty hcontent
  have hparts : names.map (fun s => lower (String.ofList (unquoted (trim s.text))))
      = names.map fun s => lower s.ident.text := List.map_congr_left hpiece
  have hfilter : (names.map fun s => lower s.ident.text).filter (!·.isEmpty)
      = names.map fun s => lower s.ident.text := by
    refine List.filter_eq_self.mpr fun part hpart => ?_
    obtain ⟨s, hs, rfl⟩ := List.mem_map.mp hpart
    simp [hkept s hs]
  rw [parse, String.toList_ofList, pieces_dottedText h.nonempty hundotted]
  simp only [ofParts, ofName, List.map_map, Function.comp_def, hparts, hfilter]

end TableName

/-! ### The decision -/

namespace Sql

variable {d : Dialect} {names : List Spelling}

/-- The words of a dotted name that are bare. -/
def bareWords (names : List Spelling) : List String :=
  names.filterMap fun s => s.ident.token.bareWord?

/-- Without calls and block comments, the bare words alone make offences. -/
theorem harmless_iff_of_uncalled {v : Vocabulary} {ts : List Token} (hcall : .symbol "(" ∉ ts)
    (hcomment : ∀ text, .blank (.blockComment text) ∉ ts) :
    Harmless v ts ↔ ∀ word, .word word none ∈ ts → v.forbidsVerb (lower word) = false := by
  refine ⟨fun h word hmem => h.word hmem, fun h => ?_⟩
  induction ts with
  | nil => exact .nil
  | cons t ts ih =>
    -- no word is called, as no parenthesis follows it
    have hnext : (significant ts).head? ≠ some (.symbol "(") := fun hhead =>
      hcall (List.mem_cons_of_mem t
        ((List.dropWhile_suffix _).subset (List.mem_of_mem_head? hhead)))
    refine .cons ?_ (ih (fun hmem => hcall (List.mem_cons_of_mem t hmem))
      (fun text hmem => hcomment text (List.mem_cons_of_mem t hmem))
      fun word hmem => h word (List.mem_cons_of_mem t hmem))
    unfold tokenOffence
    split
    · next text quote =>
      have hverb : (quote.isNone && v.forbidsVerb (lower text)) = false := by
        cases quote with
        | none => simpa using h text (List.mem_cons_self ..)
        | some quote => rfl
      simp [wordOffence?, hverb, hnext]
    · next text => exact absurd (List.mem_cons_self ..) (hcomment text)
    · rfl

/-- The tokens of a dotted name. -/
theorem mem_nameTokens {name : Name} {t : Token} (h : t ∈ nameTokens name) :
    t = .symbol "." ∨ ∃ i ∈ name, t = i.token := by
  induction name with
  | nil => cases h
  | cons i name ih =>
    cases name with
    | nil => exact .inr ⟨i, List.mem_cons_self .., List.mem_singleton.mp h⟩
    | cons j name =>
      rcases List.mem_cons.mp h with rfl | h
      · exact .inr ⟨i, List.mem_cons_self .., rfl⟩
      rcases List.mem_cons.mp h with rfl | h
      · exact .inl rfl
      rcases ih h with h | ⟨k, hk, h⟩
      · exact .inl h
      · exact .inr ⟨k, List.mem_cons_of_mem i hk, h⟩

theorem token_mem_nameTokens {name : Name} {i : Ident} (h : i ∈ name) :
    i.token ∈ nameTokens name := by
  induction name with
  | nil => cases h
  | cons j name ih =>
    cases name with
    | nil =>
      obtain rfl := List.mem_singleton.mp h
      exact List.mem_cons_self ..
    | cons k name =>
      rcases List.mem_cons.mp h with rfl | h
      · exact List.mem_cons_self ..
      · exact List.mem_cons_of_mem _ (List.mem_cons_of_mem _ (ih h))

/-- A selection from a table holds no offence iff none of its bare words is a forbidden verb. -/
theorem harmless_selection {v : Vocabulary} :
    Harmless v (Parser.selectionFront ++ nameTokens (names.map Spelling.ident)) ↔
      ∀ word ∈ "select" :: "from" :: bareWords names, v.forbidsVerb (lower word) = false := by
  -- neither calls nor comments: the name adds words and periods
  have hother : ∀ t ∈ Parser.selectionFront ++ nameTokens (names.map Spelling.ident),
      t ∈ Parser.selectionFront ∨ t = .symbol "." ∨ ∃ s ∈ names, t = s.ident.token := by
    intro t ht
    rcases List.mem_append.mp ht with ht | ht
    · exact .inl ht
    rcases mem_nameTokens ht with ht | ⟨i, hi, ht⟩
    · exact .inr (.inl ht)
    · obtain ⟨s, hs, rfl⟩ := List.mem_map.mp hi
      exact .inr (.inr ⟨s, hs, ht⟩)
  have hfront : ∀ word, .word word none ∈ Parser.selectionFront ↔
      word = "select" ∨ word = "from" := by
    simp [Parser.selectionFront]
  have hwords : ∀ word,
      .word word none ∈ Parser.selectionFront ++ nameTokens (names.map Spelling.ident) ↔
        word ∈ "select" :: "from" :: bareWords names := by
    intro word
    rw [List.mem_append, hfront, List.mem_cons, List.mem_cons, or_assoc, bareWords,
      List.mem_filterMap]
    refine or_congr_right (or_congr_right ⟨fun hmem => ?_, fun ⟨s, hs, hword⟩ => ?_⟩)
    · rcases mem_nameTokens hmem with h | ⟨i, hi, h⟩
      · cases h
      · obtain ⟨s, hs, rfl⟩ := List.mem_map.mp hi
        exact ⟨s, hs, by rw [← h]; rfl⟩
    · have htoken : s.ident.token = .word word none := by
        cases s with
        | bare content =>
          cases hword
          rfl
        | quoted start close content => cases hword
      exact htoken ▸ token_mem_nameTokens (List.mem_map_of_mem hs)
  rw [harmless_iff_of_uncalled]
  · simp only [hwords]
  · intro hmem
    rcases hother _ hmem with hfront | hperiod | ⟨s, -, hs⟩
    · exact absurd hfront (by decide)
    · exact absurd hperiod (by decide)
    · cases hs
  · intro text hmem
    rcases hother _ hmem with hfront | hperiod | ⟨s, -, hs⟩
    · simp [Parser.selectionFront] at hfront
    · cases hperiod
    · cases hs

/-- The text ends where an identifier does. -/
theorem exists_text_suffix (hne : names ≠ []) : ∃ s ∈ names, s.text <:+ dottedText names := by
  induction names with
  | nil => exact absurd rfl hne
  | cons s names ih =>
    cases names with
    | nil =>
      refine ⟨s, List.mem_cons_self .., ?_⟩
      simp [dottedText, List.intercalate]
    | cons s' names =>
      obtain ⟨t, ht, hsuffix⟩ := ih (List.cons_ne_nil _ _)
      refine ⟨t, List.mem_cons_of_mem s ht, ?_⟩
      rw [dottedText_cons]
      exact (hsuffix.trans (List.suffix_cons _ _)).trans (List.suffix_append _ _)

/-- A spelling ends in no blank. -/
theorem Spelling.last_text {p : Option Token} {s : Spelling} (hs : s.Fits d p)
    (halike : s.MeansItself) (hne : s.content ≠ []) : ∃ c ∈ s.text.getLast?, isBlank c = false := by
  cases s with
  | bare content =>
    have hlast : content.getLast? = some (content.getLast hne) := List.getLast?_eq_some_getLast hne
    exact ⟨_, hlast, halike.last _ hlast⟩
  | quoted start close content =>
    have hblank : ∀ pair ∈ [('"', '"'), ('\x60', '\x60'), ('[', ']')], isBlank pair.2 = false := by
      decide
    refine ⟨close, ?_, hblank _ (identifierQuote?_pair hs)⟩
    rw [text, ← List.cons_append, List.getLast?_concat]
    rfl

/-- The rules look at a selection as it is, if it holds no semicolon. -/
theorem NamesTable.ready (h : NamesTable d names) (halike : ∀ s ∈ names, s.MeansItself)
    (hsep : ';' ∉ dottedText names) : Ready (selectionText names) := by
  obtain ⟨s, hs, hsuffix⟩ := exists_text_suffix h.nonempty
  obtain ⟨p, hfits⟩ := h.fits hs
  have hfront : ['s'] <+: "select * from ".toList := by decide
  have hsep' : ';' ∉ selectionText names := fun hmem =>
    (List.mem_append.mp hmem).elim (by decide) hsep
  exact ready_of_ends ['s'] s.text hsep' (hfront.trans (List.prefix_append _ _))
    (hsuffix.trans (List.suffix_append _ _)) ⟨'s', rfl, by decide⟩
    (s.last_text hfits (halike s hs) (h.contents s hs))

end Sql

namespace Gate

variable {names : List Spelling}

/-- **Names read alike.** Configuration text spells the table that a statement with the same text
    reads, so it is on the list that holds the text, and the gate accepts the statement unless the
    text holds a semicolon or a bare word of the statement is forbidden. -/
theorem dottedName_readAlike (g : Gate) (h : NamesTable g.dialect names)
    (halike : ∀ s ∈ names, s.MeansItself) {texts : List String}
    (hlisted : String.ofList (dottedText names) ∈ texts) (schema : Option String) :
    referencedTables g.dialect (selectionText names)
      = .ok [TableName.parse (String.ofList (dottedText names))] ∧
    (AllowList.ofTexts texts schema).contains (String.ofList (dottedText names)) = true ∧
    ((g.validate (AllowList.ofTexts texts schema) (selectionText names)).value
        = .accepted (selectionText names) ↔
      ';' ∉ dottedText names ∧
        ∀ word ∈ "select" :: "from" :: bareWords names,
          g.vocabulary.forbidsVerb (lower word) = false) := by
  have hparse := TableName.parse_dottedText h halike
  have hresolves : ∀ fallback, (AllowList.ofTexts texts schema).resolves
      (TableName.parse (String.ofList (dottedText names))) fallback = true := fun fallback =>
    (AllowList.resolves_ofTexts ..).mpr ⟨_, hlisted, rfl⟩
  refine ⟨hparse ▸ h.referencedTables, hresolves none, ?_⟩
  rw [validate_eq_accepted_iff, Rules.check_eq_ok_iff, ← harmless_selection]
  constructor
  · rintro ⟨-, hmeets⟩
    obtain ⟨ts, hts, -, hwords⟩ := hmeets.readable
    cases hts.symm.trans h.tokens
    refine ⟨fun hsep => hmeets.unseparated (List.mem_append_right _ hsep), ?_⟩
    exact (Rules.checkWords_eq_ok_iff h.tokens).mp hwords
  · rintro ⟨hsep, hharmless⟩
    -- the text is looked at as it stands, and each rule is met
    have hready := h.ready halike hsep
    refine ⟨(Rules.normalized_of_ready hready).symm, ⟨⟨?_, hready.unseparated, ?_⟩, ?_, ?_⟩⟩
    · exact List.append_ne_nil_of_left_ne_nil (by decide) _
    · exact ⟨_, h.tokens, rfl, (Rules.checkWords_eq_ok_iff h.tokens).mpr hharmless⟩
    · rw [AllowList.isEmpty_ofTexts, List.isEmpty_eq_false_iff]
      exact List.ne_nil_of_mem hlisted
    · refine ⟨_, h.parse, fun n hn => ?_⟩
      rw [Parser.tables_selection, List.mem_singleton] at hn
      rw [hn, ← hparse]
      exact hresolves _

end Gate

/-! ### A name with a schema, and names that are read unlike -/

/-- A table whose name holds a blank, behind a schema. -/
def quarterNames : List Spelling := [.bare "Sales".toList, .quoted '"' '"' "Q1 Orders".toList]

/-- How configuration text spells it. -/
def quarterText : String := "Sales.\"Q1 Orders\""

theorem quarterNames_readAlike :
    referencedTables strictGate.dialect (selectionText quarterNames)
        = .ok [TableName.parse quarterText] ∧
      (AllowList.ofTexts ["customers", quarterText] none).contains quarterText = true ∧
      (strictGate.validate (AllowList.ofTexts ["customers", quarterText] none)
        (selectionText quarterNames)).value = .accepted (selectionText quarterNames) := by
  have htext : String.ofList (dottedText quarterNames) = quarterText := by decide
  -- the first name is bare, so it may not be a word that opens an item
  have hnames : NamesTable strictGate.dialect quarterNames := by
    refine ⟨by decide, fun s hs => ?_, fun s hs => ?_, by decide⟩
    · cases hs
      exact ⟨⟨by decide, 'S', "ales".toList, rfl, rfl⟩, by decide⟩
    · obtain rfl := List.mem_singleton.mp hs
      exact rfl
  have halike : ∀ s ∈ quarterNames, s.MeansItself := by
    intro s hs
    simp only [quarterNames, List.mem_cons, List.not_mem_nil, or_false] at hs
    obtain rfl | rfl := hs
    · exact ⟨by decide, by decide⟩
    · exact ⟨by decide, by decide⟩
  have hlisted : String.ofList (dottedText quarterNames) ∈ ["customers", quarterText] := by
    simp [htext]
  obtain ⟨htables, hcontains, haccepted⟩ :=
    strictGate.dottedName_readAlike hnames halike hlisted none
  rw [htext] at htables hcontains
  exact ⟨htables, hcontains, haccepted.mpr ⟨by decide, by decide⟩⟩

/-- A name with a semicolon in it. -/
def semicolonName : List Spelling := [.quoted '"' '"' "a;b".toList]

/-- A name with a period in it. -/
def periodName : List Spelling := [.quoted '"' '"' "a.b".toList]

/-- The third rule rejects a quoted name with a semicolon in it, and one with a period in it is cut
    there in configuration text alone. -/
theorem quotedNames_readUnlike :
    (NamesTable strictGate.dialect semicolonName ∧
      (strictGate.validate (AllowList.ofTexts [String.ofList (dottedText semicolonName)] none)
        (selectionText semicolonName)).value = .rejected .multiStatement) ∧
    (NamesTable strictGate.dialect periodName ∧
      referencedTables strictGate.dialect (selectionText periodName) = .ok [⟨["a.b"]⟩] ∧
      TableName.parse (String.ofList (dottedText periodName)) = ⟨["\"a", "b\""]⟩) := by
  have hnames : ∀ content : List Char, content ≠ [] →
      NamesTable strictGate.dialect [.quoted '"' '"' content] := by
    intro content hne
    refine ⟨List.cons_ne_nil _ _, fun s hs => ?_, fun s hs => ?_, fun s hs => ?_⟩
    · cases hs
      have hbare : "" ∉ Parser.itemOpeners strictGate.dialect := by decide
      exact ⟨rfl, hbare⟩
    · cases hs
    · obtain rfl := List.mem_singleton.mp hs
      exact hne
  refine ⟨⟨hnames _ (by decide), ?_⟩, hnames _ (by decide), ?_, ?_⟩
  · decide +kernel
  · decide +kernel
  · decide +kernel

end QueryGate
