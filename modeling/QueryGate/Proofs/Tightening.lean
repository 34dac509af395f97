import QueryGate.Proofs.OffenceSearch
import QueryGate.Proofs.RowCap
import QueryGate.Proofs.TableSpelling

namespace QueryGate

open Sql

/-!
# Tighter policies

What a gate accepts it accepts under every policy that forbids less, and an allow-list is a set:

* `AllowList.SameNames` / `Gate.prepareWithin_congr_list` — lists that resolve the same references
  give the same decisions, and `AllowList.Relisted.sameNames`, that other entries for a list do;
* `Rules.Meets.of_larger_list` — what a list allows, a larger list allows;
* `NoOffence.of_fewer_verbs` — what holds no offence holds none where fewer verbs are forbidden;
* `Gate.withKeywords` — a gate with other further verbs;
* `Gate.prepareWithin_tightens` — all three together.
-/

/-! ### Allow-lists that allow more -/

namespace AllowList

/-- A list resolves what a list of fewer entries resolves. -/
theorem resolves_of_subset {a b : AllowList} (hschema : a.defaultSchema = b.defaultSchema)
    (hentries : a.entries ⊆ b.entries) {n : TableName} {fallback : Option String}
    (h : a.resolves n fallback = true) : b.resolves n fallback = true := by
  rw [resolves, List.any_eq_true] at h ⊢
  obtain ⟨entry, hmem, hsame⟩ := h
  exact ⟨entry, hentries hmem, hschema ▸ hsame⟩

/-- A list with more entries is not empty either. -/
theorem isEmpty_of_subset {a b : AllowList} (hentries : a.entries ⊆ b.entries)
    (h : a.isEmpty = false) : b.isEmpty = false := by
  rw [isEmpty, List.isEmpty_eq_false_iff] at h ⊢
  exact fun hnil => h (List.subset_nil.mp (hnil ▸ hentries))

end AllowList

/-- What meets the rules with a list meets them with one of more entries. -/
theorem Rules.Meets.of_larger_list {r : Rules} {a b : AllowList} {statement : List Char}
    (hschema : a.defaultSchema = b.defaultSchema) (hentries : a.entries ⊆ b.entries)
    (h : r.Meets a statement) : r.Meets b statement := by
  obtain ⟨q, hparse, htables⟩ := h.query
  exact ⟨h.toHasShape, AllowList.isEmpty_of_subset hentries h.allows, q, hparse,
    fun n hn => AllowList.resolves_of_subset hschema hentries (htables n hn)⟩

/-! ### Allow-lists that allow the same -/

namespace AllowList

/-- Two lists that are both empty or not and that resolve the same references. -/
structure SameNames (fallback : Option String) (a b : AllowList) : Prop where
  empty : a.isEmpty = b.isEmpty
  resolves : ∀ n, a.resolves n fallback = b.resolves n fallback

/-- **Sets.** Entries that make the same list, given the schema in force, are the same to a gate. -/
theorem Relisted.sameNames {schema fallback : Option String} {entries entries' : List (List String)}
    (h : Relisted (schema <|> fallback) entries entries') :
    SameNames fallback (ofNames (entries.map TableName.ofParts) schema)
      (ofNames (entries'.map TableName.ofParts) schema) := by
  have hmem := h.mem_qualifiedNames
  constructor
  · have hnone : ∀ entries : List (List String), (entries.map TableName.ofParts).isEmpty = true ↔
        ∀ n, n ∉ qualifiedNames (schema <|> fallback) entries := by
      intro entries
      rw [← List.eq_nil_iff_forall_not_mem, qualifiedNames, List.map_eq_nil_iff, List.isEmpty_map,
        List.isEmpty_iff]
    rw [isEmpty_ofNames, isEmpty_ofNames, Bool.eq_iff_iff, hnone, hnone]
    simp only [hmem]
  · intro n
    rw [Bool.eq_iff_iff, resolves_ofNames, resolves_ofNames]
    simpa only [qualifiedNames, List.mem_map, exists_exists_and_eq_and] using
      hmem (n.qualifiedWith (schema <|> fallback))

/-- Texts that spell the same list are the same to a gate. -/
theorem Respelled.sameNames {schema fallback : Option String} {texts texts' : List String}
    (h : Respelled (schema <|> fallback) texts texts') :
    SameNames fallback (ofTexts texts schema) (ofTexts texts' schema) := by
  have hsame := h.relisted.sameNames
  rwa [List.map_map, List.map_map] at hsame

end AllowList

/-- The rules look at a list only to see whether it is empty and what it resolves. -/
theorem Rules.check_congr_list {r : Rules} {a b : AllowList}
    (h : AllowList.SameNames r.defaultSchema a b) (cs : List Char) : r.check a cs = r.check b cs := by
  have houtsider : ∀ tables, r.outsider? a tables = r.outsider? b tables := by
    intro tables
    simp only [outsider?, h.resolves]
  simp only [check, h.empty, houtsider]

namespace Gate

variable {g : Gate} {a b : AllowList} {maxRows : Nat} {sql out : List Char}

/-- Nor does the gate, but for the number of entries that it reports. -/
theorem prepareWithin_congr_list (h : AllowList.SameNames g.settings.defaultSchema a b) :
    (g.prepareWithin a maxRows sql).value = (g.prepareWithin b maxRows sql).value := by
  have hcheck : ∀ cs, g.rules.check a cs = g.rules.check b cs := Rules.check_congr_list h
  simp only [prepareWithin, hcheck]
  cases g.rules.check b sql with
  | error r => rfl
  | ok st =>
    cases hexcess : g.excess? (max 1 maxRows) st with
    | some n => simp only [hexcess]
    | none =>
      simp only [hexcess, capAndRecheck, bind, Logged.andThen, hcheck]
      cases g.rules.check b (g.capRows (max 1 maxRows) st).value with
      | ok _ => rfl
      | error r => cases r <;> rfl

/-- What a gate accepts with a list it accepts with one of more entries. -/
theorem accepted_of_larger_list (hschema : a.defaultSchema = b.defaultSchema)
    (hentries : a.entries ⊆ b.entries)
    (h : (g.prepareWithin a maxRows sql).value = .accepted out) :
    (g.prepareWithin b maxRows sql).value = .accepted out := by
  have hcheck : ∀ cs st, g.rules.check a cs = .ok st → g.rules.check b cs = .ok st := by
    intro cs st hst
    rw [Rules.check_eq_ok_iff] at hst ⊢
    exact ⟨hst.1, hst.2.of_larger_list hschema hentries⟩
  rw [prepareWithin_eq_accepted_iff] at h ⊢
  obtain ⟨st, hst, hexcess, hout, hagain⟩ := h
  exact ⟨st, hcheck _ _ hst, hexcess, hout, hcheck _ _ hagain⟩

end Gate

/-! ### Fewer forbidden verbs -/

/-- Tokens that hold no offence hold none where fewer verbs are forbidden, in the code of their
    comments neither. -/
theorem NoOffence.of_fewer_verbs {v w : Vocabulary} (hdialect : w.dialect = v.dialect)
    (hverbs : w.verbs ⊆ v.verbs) {ts after : List Token} (h : NoOffence v ts after) :
    NoOffence w ts after := by
  have hcode : ∀ text code, HoldsCode w text code ↔ HoldsCode v text code := by
    intro text code
    rw [HoldsCode, HoldsCode, hdialect]
  have hfunctions : w.functions = v.functions := congrArg Dialect.forbiddenFunctions hdialect
  induction h with
  | intro verbs calls readable _ ih =>
    refine .intro (fun text hmem hverb => verbs text hmem (hverbs hverb)) ?_ ?_ ?_
    · rwa [hfunctions]
    · simpa only [hcode, hdialect] using readable
    · simpa only [hcode, hdialect] using ih

/-- What meets the rules meets those with fewer forbidden verbs. -/
theorem Rules.check_of_fewer_verbs {r s : Rules} {allowed : AllowList}
    (hdialect : s.vocabulary.dialect = r.vocabulary.dialect)
    (hverbs : s.vocabulary.verbs ⊆ r.vocabulary.verbs)
    (htrailing : s.allowTrailingSemicolon = r.allowTrailingSemicolon)
    (hschema : s.defaultSchema = r.defaultSchema) {cs st : List Char}
    (h : r.check allowed cs = .ok st) : s.check allowed cs = .ok st := by
  rw [check_eq_ok_iff] at h ⊢
  obtain ⟨rfl, hmeets⟩ := h
  obtain ⟨ts, hts, hstart, hwords⟩ := hmeets.readable
  have hts' : tokens s.vocabulary.dialect (r.normalized cs) = .ok ts := by rw [hdialect, hts]
  -- what no word of the larger vocabulary forbids none of the smaller one does
  have hclean : NoOffence r.vocabulary ts [] := by
    rw [checkWords_eq_ok_iff hts, ← firstOffence_eq_none_iff] at hwords
    exact (scanTokens_eq_none_iff ts).mp hwords
  have hwords' : s.checkWords (r.normalized cs) ts = .ok () := by
    rw [checkWords_eq_ok_iff hts', ← firstOffence_eq_none_iff]
    exact (scanTokens_eq_none_iff ts).mpr (hclean.of_fewer_verbs hdialect hverbs)
  refine ⟨by rw [normalized, normalized, htrailing], ?_⟩
  refine ⟨⟨hmeets.nonempty, hmeets.unseparated, ts, hts', hstart, hwords'⟩, hmeets.allows, ?_⟩
  rw [hdialect, hschema]
  exact hmeets.query

namespace Gate

variable {g : Gate} {allowed : AllowList} {maxRows : Nat} {sql out : List Char}

/-- The gate with other further verbs. -/
def withKeywords (g : Gate) (words : List String) : Gate :=
  ⟨{ g.settings with extraKeywords := words }⟩

/-- What a gate accepts is accepted with fewer further verbs. -/
theorem accepted_of_fewer_keywords {words : List String} (hwords : words ⊆ g.settings.extraKeywords)
    (h : (g.prepareWithin allowed maxRows sql).value = .accepted out) :
    ((g.withKeywords words).prepareWithin allowed maxRows sql).value = .accepted out := by
  have hverbs : (g.withKeywords words).vocabulary.verbs ⊆ g.vocabulary.verbs :=
    List.append_subset.mpr ⟨List.subset_append_left _ _,
      List.Subset.trans (List.map_subset _ hwords) (List.subset_append_right _ _)⟩
  have hcheck : ∀ cs st, g.rules.check allowed cs = .ok st →
      (g.withKeywords words).rules.check allowed cs = .ok st := by
    intro cs st hst
    exact Rules.check_of_fewer_verbs (r := g.rules) (s := (g.withKeywords words).rules)
      rfl hverbs rfl rfl hst
  rw [prepareWithin_eq_accepted_iff] at h ⊢
  obtain ⟨st, hst, hexcess, hout, hagain⟩ := h
  exact ⟨st, hcheck _ _ hst, hexcess, hout, hcheck _ _ hagain⟩

/-- **Tighter policies accept less.** A text that is accepted with an allow-list is accepted as the
    same text with one of more entries; one that is accepted with further forbidden verbs is with
    fewer of them; and the decision is the same, whatever it is, for other spellings of a list, and
    for other entries that make it. -/
theorem prepareWithin_tightens (g : Gate) (maxRows : Nat) (sql : List Char) :
    (∀ a b : AllowList, a.defaultSchema = b.defaultSchema → a.entries ⊆ b.entries →
      ∀ out, (g.prepareWithin a maxRows sql).value = .accepted out →
        (g.prepareWithin b maxRows sql).value = .accepted out) ∧
    (∀ words ⊆ g.settings.extraKeywords, ∀ (allowed : AllowList) out,
      (g.prepareWithin allowed maxRows sql).value = .accepted out →
        ((g.withKeywords words).prepareWithin allowed maxRows sql).value = .accepted out) ∧
    (∀ (schema : Option String) (texts texts' : List String),
      AllowList.Respelled (schema <|> g.settings.defaultSchema) texts texts' →
        (g.prepareWithin (.ofTexts texts schema) maxRows sql).value =
          (g.prepareWithin (.ofTexts texts' schema) maxRows sql).value) ∧
    ∀ (schema : Option String) (entries entries' : List (List String)),
      AllowList.Relisted (schema <|> g.settings.defaultSchema) entries entries' →
        (g.prepareWithin (.ofNames (entries.map .ofParts) schema) maxRows sql).value =
          (g.prepareWithin (.ofNames (entries'.map .ofParts) schema) maxRows sql).value := by
  refine ⟨fun a b hschema hentries out => accepted_of_larger_list hschema hentries, ?_, ?_, ?_⟩
  · exact fun words hwords allowed out => accepted_of_fewer_keywords hwords
  · exact fun schema texts texts' h => prepareWithin_congr_list h.sameNames
  · exact fun schema entries entries' h => prepareWithin_congr_list h.sameNames

end Gate

/-- A limited query is accepted with one more table, and decided alike for two spellings of a list
    and for two lists of entries. -/
theorem limitedText_larger_list :
    (strictGate.prepareWithin onlyT 1000 limitedText).value = .accepted limitedText ∧
      onlyT.entries ⊆ [⟨["t"]⟩, ⟨["u"]⟩] ∧
      (strictGate.prepareWithin ⟨[⟨["t"]⟩, ⟨["u"]⟩], none⟩ 1000 limitedText).value =
        .accepted limitedText ∧
      AllowList.Respelled none ["t"] ["T", "t"] ∧
      (strictGate.prepareWithin (.ofTexts ["t"] none) 1000 limitedText).value =
        (strictGate.prepareWithin (.ofTexts ["T", "t"] none) 1000 limitedText).value ∧
      AllowList.Relisted (some "sales") [["odd.name"]] [["SALES", "Odd.Name"]] ∧
      (strictGate.prepareWithin (.ofNames [.ofParts ["odd.name"]] (some "sales")) 1000
          limitedText).value =
        (strictGate.prepareWithin (.ofNames [.ofParts ["SALES", "Odd.Name"]] (some "sales")) 1000
          limitedText).value := by
  obtain ⟨hlarger, -, hspelled, hlisted⟩ := strictGate.prepareWithin_tightens 1000 limitedText
  have hentries : onlyT.entries ⊆ [⟨["t"]⟩, ⟨["u"]⟩] := by decide
  have hcase : AllowList.Respelled none ["t"] ["T", "t"] :=
    .trans (.repeated (List.mem_singleton.mpr rfl)) (.recased (.cons (by decide) (.cons (by decide) .nil)))
  -- the schema is put in front, and both parts are spelled in another case
  have hparts : AllowList.Relisted (some "sales") [["odd.name"]] [["SALES", "Odd.Name"]] :=
    .trans (@AllowList.Relisted.qualified _ "sales" ["odd.name"] [] [] rfl (by decide) (by decide)
        (by decide))
      (.recased (.cons (.cons (by decide) (.cons (by decide) .nil)) .nil))
  exact ⟨prepareWithin_limitedText, hentries,
    hlarger onlyT ⟨[⟨["t"]⟩, ⟨["u"]⟩], none⟩ rfl hentries limitedText prepareWithin_limitedText,
    hcase, hspelled none ["t"] ["T", "t"] hcase,
    hparts, hlisted (some "sales") [["odd.name"]] [["SALES", "Odd.Name"]] hparts⟩

end QueryGate
