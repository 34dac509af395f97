import Mathlib
import QueryGate.Proofs.Yaml.FlowSteps

namespace QueryGate.Yaml

/-!
# Trees on one line

The tokens of a tree that is written in flow style (`Node.flow`), and that they are what the layout
of the written text gives:

* `Written` — the trees that are written so that they can be read back: words, quoted texts,
  sequences, and mappings with short quoted keys;
* `Written.reads` — inside a collection the text of a tree is read as its tokens, by induction on
  the tree;
* `tokens?_text` — the same for a whole document.
-/

/-! ### Tokens of a tree -/

/-- Tokens of several things, with commas between them. -/
def commaTokens : List (List Token) → List Token
  | [] => []
  | t :: ts => t ++ ts.flatMap (.comma :: ·)

mutual

/-- The tokens of a node in flow style. -/
def Node.flow : Node → List Token
  | .scalar text style _ => [.scalar text style]
  | .sequence items => .flowSequence :: commaTokens (itemFlows items) ++ [.flowSequenceEnd]
  | .mapping entries => .flowMapping :: commaTokens (entryFlows entries) ++ [.flowMappingEnd]

/-- The tokens of the items of a sequence. -/
def itemFlows : List Node → List (List Token)
  | [] => []
  | n :: ns => n.flow :: itemFlows ns

/-- The tokens of the entries of a mapping. -/
def entryFlows : List (Node × Node) → List (List Token)
  | [] => []
  | (k, v) :: es => (.key :: k.flow ++ .value :: v.flow) :: entryFlows es

end

/-- The texts of items, one by one. -/
theorem itemTexts_eq_map (items : List Node) : itemTexts items = items.map Node.text := by
  induction items with
  | nil => rfl
  | cons n ns ih => rw [itemTexts, ih, List.map_cons]

/-- The tokens of items, one by one. -/
theorem itemFlows_eq_map (items : List Node) : itemFlows items = items.map Node.flow := by
  induction items with
  | nil => rfl
  | cons n ns ih => rw [itemFlows, ih, List.map_cons]

/-- The texts of entries, one by one. -/
theorem entryTexts_eq_map (entries : List (Node × Node)) :
    entryTexts entries = entries.map fun e => e.1.text ++ ": ".toList ++ e.2.text := by
  induction entries with
  | nil => rfl
  | cons e es ih => rw [entryTexts, ih, List.map_cons]

/-- The tokens of one entry. -/
def entryFlow (e : Node × Node) : List Token := .key :: e.1.flow ++ .value :: e.2.flow

/-- The tokens of entries, one by one. -/
theorem entryFlows_eq_map (entries : List (Node × Node)) :
    entryFlows entries = entries.map entryFlow := by
  induction entries with
  | nil => rfl
  | cons e es ih => rw [entryFlows, ih, List.map_cons, entryFlow]

/-- Commas stand between the parts and not around them. -/
theorem commaSeparated_cons (t : List Char) (ts : List (List Char)) :
    commaSeparated (t :: ts) = t ++ ts.flatMap (", ".toList ++ ·) := by
  induction ts generalizing t with
  | nil => rw [commaSeparated, List.flatMap_nil, List.append_nil]
  | cons u us ih => 
    rw [commaSeparated, ih, List.flatMap_cons, List.append_assoc, List.append_assoc]
    nofun

/-! ### Trees that can be read back -/

/-- Trees that are written so that they can be read back: a plain scalar is a word, and the keys of
    mappings are quoted and not too long for a key. -/
inductive Written : Node → Prop
  | plain {text : String} (hne : text.toList ≠ [])
      (hword : ∀ ch ∈ text.toList, ch.isAlphanum = true) : Written (.plain text)
  | quoted (text : String) : Written (.quoted text)
  | sequence {items : List Node} (hitems : ∀ n ∈ items, Written n) : Written (.sequence items)
  | mapping {entries : List (String × Node)}
      (hkeys : ∀ e ∈ entries, (quotedText e.1).length ≤ 1024)
      (hvalues : ∀ e ∈ entries, Written e.2) :
      Written (.mapping (entries.map fun e => (.quoted e.1, e.2)))

namespace Layout

variable {l : Layout} {ts : List Token} {ch : Char} {cs : List Char} {depth : Nat}

/-- Inside a collection the reader gets over a text and has found some tokens; `allowed` says whether
    a key may start there. -/
def Reads (allowed : Bool) (text : List Char) (tokens : List Token) : Prop :=
  ∀ {l : Layout} {ts : List Token} {ch : Char} {cs : List Char} {depth : Nat},
    l.keyAllowed = allowed → IsEnder ch → At l (text ++ ch :: cs) ts (depth + 1) →
    ∃ l', Reaches l l' ∧ At l' (ch :: cs) (tokens.reverse ++ ts) (depth + 1)

/-- A blank between tokens is passed over. -/
theorem At.behind_space (h : At l (' ' :: cs) ts depth) : At l cs ts depth where
  rest := by
    obtain ⟨n, hrest⟩ := h.rest
    refine ⟨n + 1, ?_⟩
    rw [hrest, List.replicate_succ', List.append_assoc, List.singleton_append]
  tokens := h.tokens
  noBlock := h.noBlock
  nested := h.nested
  column := h.column
  lax := h.lax
  outerLax := h.outerLax

theorem isEnder_comma : IsEnder ',' := List.mem_cons_self

theorem isEnder_closing (b : Bracket) : IsEnder b.closing := by
  cases b
  · exact .tail _ (.head _)
  · exact .tail _ (.tail _ (.head _))

/-- What stands behind a part of a collection ends the part. -/
theorem exists_ender (texts : List (List Char)) (hstop : IsEnder ch) (cs : List Char) :
    ∃ first more, texts.flatMap (", ".toList ++ ·) ++ ch :: cs = first :: more ∧ IsEnder first := by
  cases texts with
  | nil => exact ⟨ch, cs, rfl, hstop⟩
  | cons t ts => exact ⟨',', _, rfl, isEnder_comma⟩

/-- The parts of a collection after the first one, each behind a comma and a space. -/
theorem reads_later {parts : List (List Char × List Token)}
    (hparts : ∀ p ∈ parts, Reads true p.1 p.2) (hstop : IsEnder ch)
    (h : At l ((parts.map Prod.fst).flatMap (", ".toList ++ ·) ++ ch :: cs) ts (depth + 1)) :
    ∃ l', Reaches l l' ∧
      At l' (ch :: cs) (((parts.map Prod.snd).flatMap (.comma :: ·)).reverse ++ ts) (depth + 1) := by
  -- by induction on the parts that are left: a comma, a blank, and a part
  induction parts generalizing l ts with
  | nil => exact ⟨l, .refl l, h⟩
  | cons p parts ih =>
    obtain ⟨hp, hparts⟩ := List.forall_mem_cons.mp hparts
    -- what follows a part ends it: a comma, or the closing bracket
    obtain ⟨first, more, hmore, hfirst⟩ := exists_ender (parts.map Prod.fst) hstop cs
    rw [List.map_cons, List.flatMap_cons, List.append_assoc, List.append_assoc, hmore] at h
    replace h : At l (',' :: ' ' :: (p.1 ++ first :: more)) ts (depth + 1) := h
    obtain ⟨l₁, hreach₁, h₁, hallowed⟩ := h.exists_step_comma
    obtain ⟨l₂, hreach₂, h₂⟩ := hp hallowed hfirst h₁.behind_space
    rw [← hmore] at h₂
    obtain ⟨l₃, hreach₃, h₃⟩ := ih hparts h₂
    refine ⟨l₃, hreach₁.trans (hreach₂.trans hreach₃), ?_⟩
    simpa using h₃

/-- The parts of a collection. -/
theorem reads_parts {parts : List (List Char × List Token)}
    (hparts : ∀ p ∈ parts, Reads true p.1 p.2) (hstop : IsEnder ch) (hallowed : l.keyAllowed = true)
    (h : At l (commaSeparated (parts.map Prod.fst) ++ ch :: cs) ts (depth + 1)) :
    ∃ l', Reaches l l' ∧
      At l' (ch :: cs) ((commaTokens (parts.map Prod.snd)).reverse ++ ts) (depth + 1) := by
  cases parts with
  | nil => exact ⟨l, .refl l, h⟩
  | cons p parts =>
    obtain ⟨hp, hparts⟩ := List.forall_mem_cons.mp hparts
    obtain ⟨first, more, hmore, hfirst⟩ := exists_ender (parts.map Prod.fst) hstop cs
    rw [List.map_cons, commaSeparated_cons, List.append_assoc, hmore] at h
    obtain ⟨l₁, hreach₁, h₁⟩ := hp hallowed hfirst h
    rw [← hmore] at h₁
    obtain ⟨l₂, hreach₂, h₂⟩ := reads_later hparts hstop h₁
    refine ⟨l₂, hreach₁.trans hreach₂, ?_⟩
    simpa [commaTokens] using h₂

/-- A collection is read from its opening bracket to its closing one, if its parts are. -/
theorem reads_collection (b : Bracket) {parts : List (List Char × List Token)}
    (hparts : ∀ p ∈ parts, Reads true p.1 p.2)
    (h : At l (b.opening :: commaSeparated (parts.map Prod.fst) ++ [b.closing] ++ cs) ts depth) :
    ∃ l', Reaches l l' ∧
      At l' cs ((b.start :: commaTokens (parts.map Prod.snd) ++ [b.stop]).reverse ++ ts) depth := by
  rw [List.append_assoc, List.singleton_append, List.cons_append] at h
  obtain ⟨l₁, hreach₁, h₁, hallowed⟩ := h.exists_step_open
  obtain ⟨l₂, hreach₂, h₂⟩ := reads_parts hparts (isEnder_closing b) hallowed h₁
  obtain ⟨l₃, hreach₃, h₃⟩ := h₂.exists_step_close
  refine ⟨l₃, hreach₁.trans (hreach₂.trans hreach₃), ?_⟩
  simpa using h₃

/-- A sequence is read, if its items are. -/
theorem reads_sequence {items : List Node} (hitems : ∀ n ∈ items, Reads true n.text n.flow)
    (h : At l ((Node.sequence items).text ++ cs) ts depth) :
    ∃ l', Reaches l l' ∧ At l' cs ((Node.sequence items).flow.reverse ++ ts) depth := by
  let parts := items.map fun n => (n.text, n.flow)
  have hparts : ∀ p ∈ parts, Reads true p.1 p.2 := by
    intro p hp
    obtain ⟨n, hn, rfl⟩ := List.mem_map.mp hp
    exact hitems n hn
  have htexts : itemTexts items = parts.map Prod.fst := by
    rw [itemTexts_eq_map, List.map_map]
    rfl
  have hflows : itemFlows items = parts.map Prod.snd := by
    rw [itemFlows_eq_map, List.map_map]
    rfl
  rw [Node.text, htexts] at h
  rw [Node.flow, hflows]
  exact reads_collection .square hparts h

/-- A mapping is read, if its values are and its keys are short. -/
theorem reads_mapping {entries : List (String × Node)}
    (hkeys : ∀ e ∈ entries, (quotedText e.1).length ≤ 1024)
    (hvalues : ∀ e ∈ entries, ∀ allowed, Reads allowed e.2.text e.2.flow)
    (h : At l ((Node.mapping (entries.map fun e => (.quoted e.1, e.2))).text ++ cs) ts depth) :
    ∃ l', Reaches l l' ∧ At l' cs
      ((Node.mapping (entries.map fun e => (.quoted e.1, e.2))).flow.reverse ++ ts) depth := by
  let parts := entries.map fun e => (quotedText e.1 ++ ": ".toList ++ e.2.text,
    .key :: .scalar e.1 .quoted :: .value :: e.2.flow)
  have hparts : ∀ p ∈ parts, Reads true p.1 p.2 := by
    intro p hp
    obtain ⟨e, he, rfl⟩ := List.mem_map.mp hp
    -- a key, its colon and the value
    intro l ts ch cs depth hallowed hstop h
    rw [List.append_assoc, List.append_assoc] at h
    replace h : At l (quotedText e.1 ++ ':' :: ' ' :: (e.2.text ++ ch :: cs)) ts (depth + 1) := h
    obtain ⟨l₁, hreach₁, h₁⟩ := h.exists_steps_key (hkeys e he) hallowed
    obtain ⟨l₂, hreach₂, h₂⟩ := hvalues e he l₁.keyAllowed rfl hstop h₁.behind_space
    refine ⟨l₂, hreach₁.trans hreach₂, ?_⟩
    simpa using h₂
  have htexts : entryTexts (entries.map fun e => (.quoted e.1, e.2)) = parts.map Prod.fst := by
    rw [entryTexts_eq_map, List.map_map, List.map_map]
    rfl
  have hflows : entryFlows (entries.map fun e => (.quoted e.1, e.2)) = parts.map Prod.snd := by
    rw [entryFlows_eq_map, List.map_map, List.map_map]
    rfl
  rw [Node.text, htexts] at h
  rw [Node.flow, hflows]
  exact reads_collection .curly hparts h

end Layout

open Layout

/-- **Trees inside a collection.** The text of a tree is read as its tokens. -/
theorem Written.reads {n : Node} (h : Written n) (allowed : Bool) :
    Layout.Reads allowed n.text n.flow := by
  induction h generalizing allowed with
  | plain hne hword =>
    intro l ts ch cs depth _ hstop h
    exact h.exists_step_plain hne hword hstop
  | quoted text =>
    intro l ts ch cs depth _ hstop h
    obtain ⟨l', hreach, h', -⟩ := h.exists_step_quoted
    exact ⟨l', hreach, h'⟩
  | sequence hitems ih =>
    intro l ts ch cs depth _ _ h
    exact reads_sequence (fun n hn => ih n hn true) h
  | mapping hkeys hvalues ih =>
    intro l ts ch cs depth _ _ h
    exact reads_mapping hkeys ih h

/-! ### Whole documents -/

/-- Commas and spaces between printable texts are printable. -/
theorem isPrintable_commaSeparated {ts : List (List Char)}
    (h : ∀ t ∈ ts, ∀ ch ∈ t, isPrintable ch = true) :
    ∀ ch ∈ commaSeparated ts, isPrintable ch = true := by
  cases ts with
  | nil => exact nofun
  | cons t ts =>
    obtain ⟨ht, hts⟩ := List.forall_mem_cons.mp h
    rw [commaSeparated_cons, List.forall_mem_append]
    refine ⟨ht, fun ch hch => ?_⟩
    obtain ⟨u, hu, hch⟩ := List.mem_flatMap.mp hch
    have hcomma : ∀ ch ∈ ", ".toList, isPrintable ch = true := by simp [isPrintable]
    exact List.forall_mem_append.mpr ⟨hcomma, hts u hu⟩ ch hch

/-- Brackets around a printable text are printable. -/
theorem isPrintable_brackets (b : Bracket) {cs : List Char} (h : ∀ ch ∈ cs, isPrintable ch = true) :
    ∀ ch ∈ b.opening :: cs ++ [b.closing], isPrintable ch = true := by
  have hends : isPrintable b.opening = true ∧ isPrintable b.closing = true := by
    cases b <;> decide
  rw [List.forall_mem_append, List.forall_mem_cons]
  exact ⟨⟨hends.1, h⟩, List.forall_mem_singleton.mpr hends.2⟩

/-- Written trees hold no characters that a document may not contain. -/
theorem Written.isPrintable {n : Node} (h : Written n) : ∀ ch ∈ n.text, isPrintable ch = true := by
  induction h with
  | plain hne hword => exact fun ch hch => (wordChar_spec (hword ch hch)).2.2
  | quoted text => exact isPrintable_quotedText text
  | @sequence items hitems ih =>
    refine isPrintable_brackets .square (isPrintable_commaSeparated ?_)
    rw [itemTexts_eq_map, List.forall_mem_map]
    exact ih
  | @mapping entries hkeys hvalues ih =>
    refine isPrintable_brackets .curly (isPrintable_commaSeparated ?_)
    have hcolon : ∀ ch ∈ ": ".toList, Yaml.isPrintable ch = true := by simp [Yaml.isPrintable]
    rw [entryTexts_eq_map, List.forall_mem_map, List.forall_mem_map]
    intro e he
    rw [List.forall_mem_append, List.forall_mem_append]
    exact ⟨⟨isPrintable_quotedText e.1, hcolon⟩, ih e he⟩

/-- **The tokens of a document.** A written mapping is read as its tokens. -/
theorem tokens?_text {entries : List (Node × Node)} (h : Written (.mapping entries)) :
    tokens? (Node.mapping entries).text = some (Node.mapping entries).flow := by
  -- the text holds nothing that would have to be refused
  have hprintable : (Node.mapping entries).text.all isPrintable = true :=
    List.all_eq_true.mpr h.isPrintable
  have hstart : At (.start (Node.mapping entries).text) ((Node.mapping entries).text ++ []) [] 0 := {
    rest := ⟨0, by rw [List.append_nil]; rfl⟩
    tokens := rfl
    noBlock := rfl
    nested := rfl
    column := nofun
    lax := rfl
    outerLax := nofun }
  have hread : ∃ l', Reaches (.start (Node.mapping entries).text) l' ∧
      At l' [] ((Node.mapping entries).flow.reverse ++ []) 0 := by
    cases h with
    | mapping hkeys hvalues => exact reads_mapping hkeys (fun e he => (hvalues e he).reads) hstart
  obtain ⟨l, ⟨steps, hsteps, hrun⟩, hl⟩ := hread
  -- one step per token is enough, and the text is at least as long as its tokens are many
  have hfuel : (Node.mapping entries).text.length + 1 =
      (Node.mapping entries).text.length - steps + 1 + steps := by
    have hle : steps + _ ≤ (Node.mapping entries).text.length := hsteps
    omega
  obtain ⟨l', hend, htokens⟩ := hl.exists_run_end ((Node.mapping entries).text.length - steps)
  have hall : run ((Node.mapping entries).text.length + 1) (.start (Node.mapping entries).text) =
      some ((), l') := by
    rw [hfuel, hrun, hend]
  rw [tokens?, hprintable]
  change (run ((Node.mapping entries).text.length + 1) (.start (Node.mapping entries).text)).bind _ = _
  rw [hall]
  change some l'.tokens.reverse = _
  rw [htokens, List.append_nil, List.reverse_reverse]

end QueryGate.Yaml
