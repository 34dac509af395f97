import Mathlib
import QueryGate.Proofs.SettingsBounds
import QueryGate.Proofs.Yaml.Trees

namespace QueryGate

open Yaml

/-!
# Settings written and read back

Settings that were read are written with every value, under the canonical names, and without the
optional texts that are not there.  What is written is read as the same settings:

* `Alike` — trees that differ at most in how their texts are quoted, as those of other writers do;
* `Settings.restores` — settings whose numbers fit are read from every tree that is like theirs,
  part by part and field by field (`Restores`);
* `Settings.written` — their tree can be written on one line and read back;
* `Settings.read_text` — the round trip, with the check.

Reading does not give back a tree for every number: what is written must fit the field, and for
settings that were read it does (`Settings.fits_of_read`).
-/

/-! ### Trees that differ in their writing -/

mutual

/-- Trees that differ at most in the way in which quoted texts are written: a text that is no longer
    quoted is not read as no value. -/
def Alike : Node → Node → Prop
  | .scalar text style tag, .scalar text' style' tag' =>
    text' = text ∧ tag' = tag ∧ (style = .plain → style' = .plain) ∧
      (style ≠ .plain → style' = .plain → isNull text = false)
  | .sequence items, .sequence items' => ItemsAlike items items'
  | .mapping entries, .mapping entries' => EntriesAlike entries entries'
  | _, _ => False

/-- The same for items, one by one. -/
def ItemsAlike : List Node → List Node → Prop
  | [], [] => True
  | n :: ns, n' :: ns' => Alike n n' ∧ ItemsAlike ns ns'
  | _, _ => False

/-- The same for entries, one by one. -/
def EntriesAlike : List (Node × Node) → List (Node × Node) → Prop
  | [], [] => True
  | (k, v) :: es, (k', v') :: es' => (Alike k k' ∧ Alike v v') ∧ EntriesAlike es es'
  | _, _ => False

end

mutual

/-- Every node is alike to itself, by recursion on the tree. -/
theorem Alike.refl : ∀ n : Node, Alike n n
  | .scalar _ _ _ => ⟨rfl, rfl, id, fun hne heq => absurd heq hne⟩
  | .sequence items => ItemsAlike.refl items
  | .mapping entries => EntriesAlike.refl entries

theorem ItemsAlike.refl : ∀ items : List Node, ItemsAlike items items
  | [] => trivial
  | n :: ns => ⟨Alike.refl n, ItemsAlike.refl ns⟩

theorem EntriesAlike.refl : ∀ entries : List (Node × Node), EntriesAlike entries entries
  | [] => trivial
  | (k, v) :: es => ⟨⟨Alike.refl k, Alike.refl v⟩, EntriesAlike.refl es⟩

end

/-- A node alike to a plain scalar is that scalar. -/
theorem alike_plain {text : String} {n : Node} (h : Alike (.plain text) n) : n = .plain text := by
  cases n with
  | scalar text' style' tag' =>
    obtain ⟨rfl, rfl, hstyle, -⟩ := h
    rw [hstyle rfl]
    rfl
  | sequence items => exact h.elim
  | mapping entries => exact h.elim

/-- A node alike to a quoted scalar has its text; if it is written plain, the text is no null. -/
theorem alike_quoted {text : String} {n : Node} (h : Alike (.quoted text) n) :
    ∃ style, n = .scalar text style none ∧ (style = .plain → isNull text = false) := by
  cases n with
  | scalar text' style' tag' =>
    obtain ⟨rfl, rfl, -, hnull⟩ := h
    exact ⟨style', rfl, hnull nofun⟩
  | sequence items => exact h.elim
  | mapping entries => exact h.elim

/-! ### Values -/

/-- A node is read as some value, however it is written. -/
def Restores (read : Node → Option α) (n : Node) (a : α) : Prop :=
  ∀ n', Alike n n' → read n' = some a

/-- Texts are read back. -/
theorem restores_text (text : String) : Restores readText? (.quoted text) text := by
  intro n h
  obtain ⟨style, rfl, -⟩ := alike_quoted h
  rfl

/-- A text that may be left out, or its absence. -/
theorem restores_optionalText (text : Option String) :
    Restores readOptionalText? (optionalNode text) text := by
  intro n h
  cases text with
  | none =>
    rw [alike_plain h]
    rfl
  | some text =>
    obtain ⟨style, rfl, hnull⟩ := alike_quoted h
    cases style with
    | plain =>
      rw [readOptionalText?, hnull rfl]
      rfl
    | _ => rfl

/-- Names of an enumeration are read back. -/
theorem restores_name {ofName? : String → Option α} {name : String} {a : α}
    (h : ofName? name = some a) : Restores (readName? ofName?) (.quoted name) a := by
  intro n hn
  obtain ⟨style, rfl, -⟩ := alike_quoted hn
  exact h

/-- Truth values are read back. -/
theorem restores_flag (b : Bool) : Restores readFlag? (flagNode b) b := by
  intro n h
  rw [alike_plain h]
  cases b <;> rfl

/-- Texts of a list are read one by one. -/
theorem restores_texts (texts : List String) :
    Restores readTexts? (.sequence (texts.map .quoted)) texts := by
  intro n h
  cases n with
  | sequence items =>
    -- by induction on the texts, item by item
    change items.mapM readText? = some texts
    replace h : ItemsAlike (texts.map .quoted) items := h
    induction texts generalizing items with
    | nil =>
      cases items with
      | nil => rfl
      | cons n items => exact h.elim
    | cons text texts ih =>
      cases items with
      | nil => exact h.elim
      | cons n items =>
        rw [List.mapM_cons, restores_text text n h.1, ih items h.2]
        rfl
  | scalar text style tag => exact h.elim
  | mapping entries => exact h.elim

/-! ### Numbers -/

/-- The digits of a number that is not zero start with no sign and no zero. -/
theorem exists_toDigits_cons {n : Nat} (h : 0 < n) : ∃ ch cs, Nat.toDigits 10 n = ch :: cs ∧
    ch ≠ '+' ∧ ch ≠ '0' := by
  induction n using Nat.strong_induction_on with
  | h n ih =>
    by_cases hn : n < 10
    · have hdigit : ∀ d < 10, 0 < d → Nat.digitChar d ≠ '+' ∧ Nat.digitChar d ≠ '0' := by decide
      exact ⟨Nat.digitChar n, [], Nat.toDigits_of_lt_base hn, hdigit n hn h⟩
    · obtain ⟨ch, cs, hdigits, hch⟩ := ih (n / 10) (by omega) (by omega)
      refine ⟨ch, cs ++ [Nat.digitChar (n % 10)], ?_, hch⟩
      rw [Nat.toDigits_of_base_le (by decide) (by omega), hdigits, List.cons_append]

/-- Decimal digits read back as their number. -/
theorem digitsValue?_toDigits (n : Nat) : digitsValue? 10 (Nat.toDigits 10 n) = some n := by
  have hne : (Nat.toDigits 10 n).isEmpty = false := List.isEmpty_eq_false_iff.mpr Nat.toDigits_ne_nil
  rw [digitsValue?, hne]
  refine foldlM_toDigits (by decide) (fun m d hd => ?_) n
  simp [hexDigit?_digitChar (Nat.lt_trans hd (by decide)), hd]

/-- A number below the bound is read back from its decimal digits. -/
theorem countText?_toString {bound n : Nat} (h : n < bound) :
    countText? bound (toString n) = some n := by
  have htext : (toString n).toList = Nat.toDigits 10 n := by
    rw [Nat.toString_eq_ofList_toDigits, String.toList_ofList]
  have hvalue := digitsValue?_toDigits n
  rw [countText?, htext]
  obtain rfl | hpos := Nat.eq_zero_or_pos n
  · change (if 0 < bound then some 0 else none) = some 0
    rw [if_pos h]
  · obtain ⟨ch, cs, hdigits, hplus, hzero⟩ := exists_toDigits_cons hpos
    rw [hdigits] at hvalue ⊢
    simp [hplus, hzero, hvalue, h]

/-- Numbers within the bound are read back. -/
theorem restores_count {bound n : Nat} (h : n < bound) :
    Restores (readCount? bound) (countNode n) n := by
  intro n' hn
  rw [alike_plain hn]
  exact countText?_toString h

/-! ### Fields -/

/-- Entries with the same names, and values that differ at most in their writing. -/
abbrev FieldsAlike : List (String × Node) → List (String × Node) → Prop :=
  List.Forall₂ fun e e' => e'.1 = e.1 ∧ Alike e.2 e'.2

/-- The entries of a mapping, however it is written. -/
theorem exists_entries {es : List (String × Node)} {n : Node} (h : Alike (mappingNode es) n) :
    ∃ es', entries? n = some es' ∧ FieldsAlike es es' := by
  cases n with
  | mapping entries =>
    replace h : EntriesAlike (es.map fun e => (.quoted e.1, e.2)) entries := h
    -- by induction on the entries; keys are texts, so they are read back
    change ∃ es', (entries.mapM fun e => (·, e.2) <$> readText? e.1) = some es' ∧ _
    induction es generalizing entries with
    | nil =>
      cases entries with
      | nil => exact ⟨[], rfl, .nil⟩
      | cons e entries => exact h.elim
    | cons e es ih =>
      cases entries with
      | nil => exact h.elim
      | cons e' entries =>
        obtain ⟨k, v⟩ := e'
        obtain ⟨⟨hkey, hvalue⟩, hmore⟩ := h
        obtain ⟨es', hes', halike⟩ := ih entries hmore
        refine ⟨(e.1, v) :: es', ?_, .cons ⟨rfl, hvalue⟩ halike⟩
        rw [List.mapM_cons, hes']
        dsimp only
        rw [restores_text e.1 k hkey]
        rfl
  | scalar text style tag => exact h.elim
  | sequence items => exact h.elim

/-- The values of one name among entries that are alike. -/
theorem FieldsAlike.filter {es es' : List (String × Node)} (h : FieldsAlike es es')
    (name : String) :
    FieldsAlike (es.filter (·.1 == name)) (es'.filter (·.1 == name)) := by
  induction h with
  | nil => exact .nil
  | @cons e e' es es' he hmore ih =>
    rw [List.filter_cons, List.filter_cons, he.1]
    split
    · exact .cons he ih
    · exact ih

variable {es es' : List (String × Node)} {n : Node} {read : Node → Option α} {a : α}

/-- A field that is written is read back. -/
theorem field_of_written (name : String) (hes : FieldsAlike es es') (hread : Restores read n a)
    (hfilter : es.filter (·.1 == name) = [(name, n)]) (otherwise : α) :
    field es' name read otherwise = some a := by
  have halike := hes.filter name
  rw [hfilter] at halike
  obtain ⟨⟨name', n'⟩, rest, ⟨-, hn⟩, hrest, heq⟩ := List.forall₂_cons_left_iff.mp halike
  rw [List.forall₂_nil_left_iff.mp hrest] at heq
  rw [field, heq]
  exact hread n' hn

/-- An optional text that is written where it is there is read back, and so is its absence. -/
theorem field_of_optional (name : String) {text : Option String} (hes : FieldsAlike es es')
    (hfilter : es.filter (·.1 == name) = optionalEntry name text) :
    field es' name readOptionalText? none = some text := by
  cases text with
  | none =>
    have halike := hes.filter name
    rw [hfilter] at halike
    rw [field, List.forall₂_nil_left_iff.mp halike]
  | some text => exact field_of_written name hes (restores_optionalText (some text)) hfilter none

/-- An optional entry is there for its own name only. -/
theorem filter_optionalEntry (name name' : String) (text : Option String) :
    (optionalEntry name' text).filter (·.1 == name) =
      if name' = name then optionalEntry name' text else [] := by
  cases text with
  | none => split <;> rfl
  | some text => simp [optionalEntry, List.filter_singleton]

/-! ### Parts -/

/-- Every dialect is found by its name. -/
theorem Dialect.ofName?_name (d : Dialect) : Dialect.ofName? d.name = some d := by
  cases d <;> decide

/-- Every policy is found by its name. -/
theorem LimitPolicy.ofName?_name (p : LimitPolicy) : LimitPolicy.ofName? p.name = some p := by
  cases p <;> decide

/-- The settings of a gate are read back. -/
theorem GateSettings.restores {g : GateSettings} (h : g.maxRows < bound64) :
    Restores GateSettings.ofNode? g.toNode g := by
  intro n hn
  -- every field is found among the entries and read back
  obtain ⟨es, hentries, hes⟩ := exists_entries hn
  have hdialect := field_of_written "dialect" hes (restores_name g.dialect.ofName?_name)
    (by simp [filter_optionalEntry]) GateSettings.default.dialect
  have hrows := field_of_written "max_rows" hes (restores_count h)
    (by simp [filter_optionalEntry]) GateSettings.default.maxRows
  have hpolicy := field_of_written "limit_policy" hes (restores_name g.limitPolicy.ofName?_name)
    (by simp [filter_optionalEntry]) GateSettings.default.limitPolicy
  have htrailing := field_of_written "allow_trailing_semicolon" hes
    (restores_flag g.allowTrailingSemicolon) (by simp [filter_optionalEntry])
    GateSettings.default.allowTrailingSemicolon
  have hkeywords := field_of_written "extra_forbidden_keywords" hes
    (restores_texts g.extraKeywords) (by simp [filter_optionalEntry])
    GateSettings.default.extraKeywords
  have hschema : field es "default_schema" readOptionalText? GateSettings.default.defaultSchema =
      some g.defaultSchema := field_of_optional "default_schema" hes (by simp [filter_optionalEntry])
  simp only [ofNode?, hentries, hdialect, hrows, hpolicy, htrailing, hkeywords, hschema,
    Option.bind_eq_bind, Option.bind_some]
  rfl

/-- The settings of a connection are read back. -/
theorem ConnectionSettings.restores {c : ConnectionSettings} (h : c.port < Nat.pow 2 16) :
    Restores ConnectionSettings.ofNode? c.toNode c := by
  intro n hn
  -- the optional fields may be missing, and are then read as none
  obtain ⟨es, hentries, hes⟩ := exists_entries hn
  have hhost := field_of_written "host" hes (restores_text c.host)
    (by simp [filter_optionalEntry]) ConnectionSettings.default.host
  have hport := field_of_written "port" hes (restores_count h)
    (by simp [filter_optionalEntry]) ConnectionSettings.default.port
  have hdatabase := field_of_written "database" hes (restores_text c.database)
    (by simp [filter_optionalEntry]) ConnectionSettings.default.database
  have husername := field_of_written "username" hes (restores_text c.username)
    (by simp [filter_optionalEntry]) ConnectionSettings.default.username
  have hpassword : field es "password" readOptionalText? ConnectionSettings.default.password =
      some c.password := field_of_optional "password" hes (by simp [filter_optionalEntry])
  have hcredentials : field es "credentials_env" readOptionalText?
      ConnectionSettings.default.credentialsVariable = some c.credentialsVariable :=
    field_of_optional "credentials_env" hes (by simp [filter_optionalEntry])
  simp only [ofNode?, hentries, hhost, hport, hdatabase, husername, hpassword, hcredentials,
    Option.bind_eq_bind, Option.bind_some]
  rfl

/-- The settings of a cache are read back. -/
theorem CacheSettings.restores {c : CacheSettings} (h : c.ttlSeconds < bound64) :
    Restores CacheSettings.ofNode? c.toNode c := by
  intro n hn
  obtain ⟨es, hentries, hes⟩ := exists_entries hn
  have httl := field_of_written "ttl_seconds" hes (restores_count h) (by simp)
    CacheSettings.default.ttlSeconds
  simp only [ofNode?, hentries, httl, Option.bind_eq_bind, Option.bind_some]
  rfl

/-- The bounds on running a statement are read back. -/
theorem ExecutionSettings.restores {e : ExecutionSettings} (htimeout : e.timeoutMs < bound64)
    (hconnections : e.maxConnections < Nat.pow 2 32) :
    Restores ExecutionSettings.ofNode? e.toNode e := by
  intro n hn
  obtain ⟨es, hentries, hes⟩ := exists_entries hn
  have htimeout := field_of_written "statement_timeout_ms" hes (restores_count htimeout) (by simp)
    ExecutionSettings.default.timeoutMs
  have hconnections := field_of_written "max_connections" hes (restores_count hconnections)
    (by simp) ExecutionSettings.default.maxConnections
  have hreadOnly := field_of_written "read_only" hes (restores_flag e.readOnly) (by simp)
    ExecutionSettings.default.readOnly
  simp only [ofNode?, hentries, htimeout, hconnections, hreadOnly, Option.bind_eq_bind,
    Option.bind_some]
  rfl

/-- Settings whose numbers fit are read back from their tree, however it is written. -/
theorem Settings.restores {s : Settings} (h : s.Fits) : Restores Settings.ofNode? s.toNode s := by
  intro n hn
  obtain ⟨es, hentries, hes⟩ := exists_entries hn
  have hproject := field_of_written "project" hes (restores_optionalText s.project) (by simp)
    Settings.default.project
  have hgate := field_of_written "guard" hes (GateSettings.restores h.maxRows) (by simp)
    Settings.default.gate
  have hconnection := field_of_written "upstream" hes (ConnectionSettings.restores h.port) (by simp)
    Settings.default.connection
  have hcache := field_of_written "schema_cache" hes (CacheSettings.restores h.ttlSeconds) (by simp)
    Settings.default.cache
  have hexecution := field_of_written "execution" hes
    (ExecutionSettings.restores h.timeoutMs h.maxConnections) (by simp) Settings.default.execution
  simp only [ofNode?, hentries, hproject, hgate, hconnection, hcache, hexecution,
    Option.bind_eq_bind, Option.bind_some]
  rfl

/-! ### Written settings -/

/-- A number is written as a word. -/
theorem written_count (n : Nat) : Written (countNode n) := by
  have htext : (toString n).toList = Nat.toDigits 10 n := by
    rw [Nat.toString_eq_ofList_toDigits, String.toList_ofList]
  refine .plain (by rw [htext]; exact Nat.toDigits_ne_nil) ?_
  rw [htext]
  exact forall_mem_toDigits (by decide) (by decide) n

theorem written_flag (b : Bool) : Written (flagNode b) := by
  cases b
  · exact .plain (by decide) (by simp)
  · exact .plain (by decide) (by simp)

theorem written_optional (text : Option String) : Written (optionalNode text) := by
  cases text with
  | none => exact .plain (by decide) (by simp)
  | some text => exact .quoted text

/-- A list of quoted texts can be written. -/
theorem written_texts (texts : List String) : Written (.sequence (texts.map .quoted)) := by
  refine .sequence ?_
  rw [List.forall_mem_map]
  exact fun text _ => .quoted text

/-- An entry whose key is short and whose value is written. -/
def WrittenEntry (e : String × Node) : Prop := (Yaml.quotedText e.1).length ≤ 1024 ∧ Written e.2

/-- A mapping can be written if its entries can. -/
theorem written_mapping {es : List (String × Node)} (h : ∀ e ∈ es, WrittenEntry e) :
    Written (mappingNode es) :=
  .mapping (fun e he => (h e he).1) (fun e he => (h e he).2)

/-- Entry by entry; a key has to be short enough to be found on its line. -/
theorem written_cons {name : String} {n : Node} {es : List (String × Node)}
    (hshort : (Yaml.quotedText name).length ≤ 1024) (hn : Written n) (hes : ∀ e ∈ es, WrittenEntry e) :
    ∀ e ∈ (name, n) :: es, WrittenEntry e :=
  List.forall_mem_cons.mpr ⟨⟨hshort, hn⟩, hes⟩

theorem written_optionalEntry {name : String} (hshort : (Yaml.quotedText name).length ≤ 1024)
    (text : Option String) : ∀ e ∈ optionalEntry name text, WrittenEntry e := by
  cases text with
  | none => exact nofun
  | some text => exact written_cons hshort (.quoted text) nofun

/-- The document of a gate can be written. -/
theorem GateSettings.written (g : GateSettings) : Written g.toNode := by
  refine written_mapping (List.forall_mem_append.mpr
    ⟨?_, written_optionalEntry (by decide) g.defaultSchema⟩)
  exact written_cons (by decide) (.quoted _) <| written_cons (by decide) (written_count _) <|
    written_cons (by decide) (.quoted _) <| written_cons (by decide) (written_flag _) <|
    written_cons (by decide) (written_texts _) nofun

/-- The document of a connection can be written. -/
theorem ConnectionSettings.written (c : ConnectionSettings) : Written c.toNode := by
  refine written_mapping (List.forall_mem_append.mpr ⟨List.forall_mem_append.mpr
    ⟨?_, written_optionalEntry (by decide) c.password⟩,
      written_optionalEntry (by decide) c.credentialsVariable⟩)
  exact written_cons (by decide) (.quoted _) <| written_cons (by decide) (written_count _) <|
    written_cons (by decide) (.quoted _) <| written_cons (by decide) (.quoted _) nofun

/-- The document of a cache can be written. -/
theorem CacheSettings.written (c : CacheSettings) : Written c.toNode :=
  written_mapping (written_cons (by decide) (written_count _) nofun)

/-- The document of an executor can be written. -/
theorem ExecutionSettings.written (e : ExecutionSettings) : Written e.toNode :=
  written_mapping <| written_cons (by decide) (written_count _) <|
    written_cons (by decide) (written_count _) <| written_cons (by decide) (written_flag _) nofun

/-- All settings are written so that they can be read back. -/
theorem Settings.written (s : Settings) : Written s.toNode :=
  written_mapping <| written_cons (by decide) (written_optional _) <|
    written_cons (by decide) s.gate.written <| written_cons (by decide) s.connection.written <|
    written_cons (by decide) s.cache.written <| written_cons (by decide) s.execution.written nofun

/-! ### Round trips -/

/-- A text that starts with no blank is not blank. -/
theorem isEmpty_trim_cons {ch : Char} (h : Text.isBlank ch = false) (cs : List Char) :
    (Text.trim (ch :: cs)).isEmpty = false := by
  have hnot : ¬Text.isBlank ch = true := Bool.eq_false_iff.mp h
  rw [Text.trim, Text.trimStart, List.dropWhile_cons_of_neg hnot, Text.trimEnd,
    List.isEmpty_eq_false_iff, Ne, List.reverse_eq_nil_iff, List.dropWhile_eq_nil_iff]
  exact fun hall => hnot (hall ch (List.mem_reverse.mpr List.mem_cons_self))

namespace Settings

variable {text : String} {s : Settings}

/-- Settings that were read are read again from every text that spells their tree. -/
theorem read_of_alike (h : Settings.read text = .ok s) {other : String} {n : Node}
    (hblank : (Text.trim other.toList).isEmpty = false)
    (hread : Yaml.read? other.toList = some (.node n)) (halike : Alike s.toNode n) :
    Settings.read other = .ok s := by
  refine read_eq_ok_iff.mpr ⟨?_, (read_eq_ok_iff.mp h).2⟩
  rw [parse?, hblank, hread]
  exact Settings.restores (fits_of_read h) n halike

/-- **The round trip.** Settings that were read are read again from the text that is written for
    them, and they pass the check again.  So they are from every other text that is not blank and
    that spells their tree, however it quotes the texts in it. -/
theorem read_text (h : Settings.read text = .ok s) :
    Settings.read s.text = .ok s ∧
    ∀ (other : String) (n : Node), (Text.trim other.toList).isEmpty = false →
      Yaml.read? other.toList = some (.node n) → Alike s.toNode n → Settings.read other = .ok s := by
  refine ⟨?_, fun other n => read_of_alike h⟩
  have htext : s.text.toList = s.toNode.text := String.toList_ofList
  refine read_of_alike h ?_ ?_ (.refl s.toNode)
  · rw [htext]
    exact isEmpty_trim_cons (by decide) _
  · rw [htext]
    exact read?_text s.written

/-- A document with an alias of a dialect and a schema that is spelled like no value. -/
def aliasText : String := "guard:\n  dialect: sqlite3\n  default_schema: 'null'"

/-- The settings that `aliasText` spells. -/
def aliasSettings : Settings :=
  { Settings.default with
    gate := { GateSettings.forDialect .sqlite with defaultSchema := some "null" } }

set_option maxRecDepth 4000 in
/-- Another name of a dialect is read as the dialect. -/
private theorem read_aliasText : Settings.read aliasText = .ok aliasSettings := by
  have hnode : Yaml.read? aliasText.toList = some (.node (.mapping [(.plain "guard",
      .mapping [(.plain "dialect", .plain "sqlite3"),
        (.plain "default_schema", .quoted "null")])])) := by cbv
  have hblank : (Text.trim aliasText.toList).isEmpty = false := isEmpty_trim_cons (by decide) _
  refine read_eq_ok_iff.mpr ⟨?_, rfl⟩
  rw [parse?, hblank, hnode]
  rfl

/-- An alias gives way to the name of the dialect, and the schema stays a text. -/
theorem aliasText_read_back : Settings.read aliasText = .ok aliasSettings ∧
    Settings.read aliasSettings.text = .ok aliasSettings :=
  ⟨read_aliasText, (read_text read_aliasText).1⟩

end Settings

end QueryGate
