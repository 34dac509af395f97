import Mathlib
import QueryGate.Proofs.Yaml.FlowText

namespace QueryGate.Yaml.NodeReader

open Layout

/-!
# Trees from their tokens

The reader of nodes gives a tree back from the tokens of its flow style, and leaves those behind
them.  With the tokens of a written text this reads a whole document back:

* `flowItems_all`, `flowEntries_all` — collections, by induction on their parts;
* `readsBack_of_written` — trees, by induction on the tree, with fuel for two calls a token;
* `read?_text` — a written mapping is read back from its text.
-/

variable {s : NodeState} {t u : Token} {ts : List Token}

/-! ### Tokens -/

/-- A token that is expected is taken. -/
theorem take_of_head (h : s.tokens = t :: ts) :
    take t s = some (true, { s with tokens := ts }) := by
  change (if s.tokens.head? == some t then _ else _ : NodeReader Bool) s = _
  rw [h, List.head?_cons, if_pos BEq.rfl]
  change some (true, { s with tokens := s.tokens.tail }) = _
  rw [h, List.tail_cons]

/-- Another token is left. -/
theorem take_of_ne (h : s.tokens = u :: ts) (hne : u ≠ t) : take t s = some (false, s) := by
  change (if s.tokens.head? == some t then _ else _ : NodeReader Bool) s = _
  rw [h, List.head?_cons, if_neg (by simpa using hne)]
  rfl

/-- The tokens that start a node in flow style. -/
inductive Starts : Token → Prop
  | scalar (text : String) (style : Style) : Starts (.scalar text style)
  | sequence : Starts .flowSequence
  | mapping : Starts .flowMapping

/-- The tokens of a node begin with one that starts a node. -/
theorem exists_flow_cons (n : Node) : ∃ t ts, n.flow = t :: ts ∧ Starts t := by
  cases n with
  | scalar text style tag => exact ⟨_, _, rfl, .scalar text style⟩
  | sequence items => exact ⟨_, _, rfl, .sequence⟩
  | mapping entries => exact ⟨_, _, rfl, .mapping⟩

theorem length_flow_pos (n : Node) : 0 < n.flow.length := by
  obtain ⟨t, ts, hflow, -⟩ := exists_flow_cons n
  rw [hflow]
  exact Nat.succ_pos _

/-- Such a node has neither an anchor nor a tag. -/
theorem node_of_starts (h : s.tokens = t :: ts) (ht : Starts t) (inBlock loose : Bool)
    (fuel : Nat) : node inBlock loose (fuel + 1) s = content inBlock loose fuel false none s := by
  cases s
  subst h
  rw [node]
  cases ht <;> exact Option.bind_fun_some _

/-- A tree is read back from its tokens, if there is fuel for two calls a token. -/
def ReadsBack (n : Node) : Prop :=
  ∀ {inBlock loose : Bool} {fuel : Nat} {s : NodeState} {ts : List Token},
    2 * n.flow.length ≤ fuel → s.tokens = n.flow ++ ts →
    node inBlock loose fuel s = some (n, { s with tokens := ts })

/-! ### Sequences -/

/-- The items of a sequence from one of them on. -/
def itemsFrom (fuel : Nat) : NodeReader (List Node) := do
  let n ← node false false fuel
  return n :: (← flowItems fuel false)

/-- The first item stands right behind the bracket. -/
theorem flowItems_first {n : Node} (h : s.tokens = n.flow ++ ts) (fuel : Nat) :
    flowItems (fuel + 1) true s = itemsFrom fuel s := by
  obtain ⟨t, more, hflow, ht⟩ := exists_flow_cons n
  rw [hflow] at h
  cases s
  subst h
  rw [flowItems]
  cases ht <;> rfl

/-- Every other item stands behind a comma. -/
theorem flowItems_comma {n : Node} (h : s.tokens = .comma :: (n.flow ++ ts)) (fuel : Nat) :
    flowItems (fuel + 1) false s = itemsFrom fuel { s with tokens := n.flow ++ ts } := by
  obtain ⟨t, more, hflow, ht⟩ := exists_flow_cons n
  rw [hflow] at h ⊢
  cases s
  subst h
  rw [flowItems]
  cases ht <;> rfl

/-- The closing bracket ends the sequence. -/
theorem flowItems_end (h : s.tokens = .flowSequenceEnd :: ts) (first : Bool) (fuel : Nat) :
    flowItems (fuel + 1) first s = some ([], { s with tokens := ts }) := by
  rw [flowItems, bind_of_eq_some (take_of_head h)]
  rfl

/-- An item is read, if those after it are. -/
theorem itemsFrom_flow {n : Node} {ns : List Node} {fuel : Nat} {s' : NodeState} (hn : ReadsBack n)
    (hfuel : 2 * n.flow.length ≤ fuel) (h : s.tokens = n.flow ++ ts)
    (hlater : flowItems fuel false { s with tokens := ts } = some (ns, s')) :
    itemsFrom fuel s = some (n :: ns, s') := by
  rw [itemsFrom, bind_of_eq_some (hn hfuel h), bind_of_eq_some hlater]
  rfl

/-- The items after the first one. -/
theorem flowItems_later {items : List Node} (hitems : ∀ n ∈ items, ReadsBack n) {fuel : Nat}
    (hfuel : 2 * ((items.map Node.flow).flatMap (.comma :: ·)).length < fuel)
    (h : s.tokens = (items.map Node.flow).flatMap (.comma :: ·) ++ .flowSequenceEnd :: ts) :
    flowItems fuel false s = some (items, { s with tokens := ts }) := by
  -- by induction on the items; the fuel is twice what they spell
  induction items generalizing fuel s with
  | nil =>
    obtain ⟨fuel, rfl⟩ := Nat.exists_eq_succ_of_ne_zero (Nat.ne_zero_of_lt hfuel)
    exact flowItems_end h false fuel
  | cons n items ih =>
    obtain ⟨fuel, rfl⟩ := Nat.exists_eq_succ_of_ne_zero (Nat.ne_zero_of_lt hfuel)
    obtain ⟨hn, hitems⟩ := List.forall_mem_cons.mp hitems
    simp only [List.map_cons, List.flatMap_cons, List.length_append, List.length_cons] at hfuel
    rw [List.map_cons, List.flatMap_cons, List.append_assoc, List.cons_append] at h
    rw [flowItems_comma h]
    refine itemsFrom_flow hn (by omega) rfl ?_
    rw [ih hitems (by omega) rfl]

/-- All items of a sequence. -/
theorem flowItems_all {items : List Node} (hitems : ∀ n ∈ items, ReadsBack n) {fuel : Nat}
    (hfuel : 2 * (commaTokens (items.map Node.flow)).length < fuel)
    (h : s.tokens = commaTokens (items.map Node.flow) ++ .flowSequenceEnd :: ts) :
    flowItems fuel true s = some (items, { s with tokens := ts }) := by
  obtain ⟨fuel, rfl⟩ := Nat.exists_eq_succ_of_ne_zero (Nat.ne_zero_of_lt hfuel)
  cases items with
  | nil => exact flowItems_end h true fuel
  | cons n items =>
    obtain ⟨hn, hitems⟩ := List.forall_mem_cons.mp hitems
    have hpos := length_flow_pos n
    simp only [List.map_cons, commaTokens, List.length_append] at hfuel
    rw [List.map_cons, commaTokens, List.append_assoc] at h
    rw [flowItems_first h]
    refine itemsFrom_flow hn (by omega) h ?_
    rw [flowItems_later hitems (by omega) rfl]

/-! ### Mappings -/

/-- A key or a value. -/
def entryPart (fuel : Nat) : NodeReader Node := do
  if ← at? [.value, .comma, .flowMappingEnd] then return .missing
  else node false false fuel

/-- The entries of a mapping from the key of one of them on. -/
def entriesFrom (fuel : Nat) : NodeReader (List (Node × Node)) := do
  let k ← entryPart fuel
  let v ← if ← take .value then entryPart fuel else pure .missing
  return (k, v) :: (← flowEntries fuel false)

/-- The first entry stands right behind the bracket. -/
theorem flowEntries_first (h : s.tokens = .key :: ts) (fuel : Nat) :
    flowEntries (fuel + 1) true s = entriesFrom fuel { s with tokens := ts } := by
  cases s
  subst h
  rw [flowEntries]
  rfl

/-- Every other entry stands behind a comma. -/
theorem flowEntries_comma (h : s.tokens = .comma :: .key :: ts) (fuel : Nat) :
    flowEntries (fuel + 1) false s = entriesFrom fuel { s with tokens := ts } := by
  cases s
  subst h
  rw [flowEntries]
  rfl

/-- The closing bracket ends the mapping. -/
theorem flowEntries_end (h : s.tokens = .flowMappingEnd :: ts) (first : Bool) (fuel : Nat) :
    flowEntries (fuel + 1) first s = some ([], { s with tokens := ts }) := by
  rw [flowEntries, bind_of_eq_some (take_of_head h)]
  rfl

/-- A key or a value of an entry is read back. -/
theorem entryPart_flow {n : Node} {fuel : Nat} (hn : ReadsBack n) (hfuel : 2 * n.flow.length ≤ fuel)
    (h : s.tokens = n.flow ++ ts) : entryPart fuel s = some (n, { s with tokens := ts }) := by
  have hthere : at? [.value, .comma, .flowMappingEnd] s = some (false, s) := by
    obtain ⟨t, more, hflow, ht⟩ := exists_flow_cons n
    rw [hflow] at h
    cases s
    subst h
    cases ht <;> rfl
  rw [entryPart, bind_of_eq_some hthere]
  exact hn hfuel h

/-- An entry is read, if those after it are. -/
theorem entriesFrom_flow {k v : Node} {es : List (Node × Node)} {fuel : Nat} {s' : NodeState}
    (hk : ReadsBack k) (hv : ReadsBack v) (hfuel : 2 * (k.flow.length + v.flow.length) ≤ fuel)
    (h : s.tokens = k.flow ++ .value :: (v.flow ++ ts))
    (hlater : flowEntries fuel false { s with tokens := ts } = some (es, s')) :
    entriesFrom fuel s = some ((k, v) :: es, s') := by
  rw [entriesFrom, bind_of_eq_some (entryPart_flow hk (by omega) h),
    bind_of_eq_some (take_of_head rfl)]
  change (entryPart fuel >>= _) { s with tokens := v.flow ++ ts } = _
  rw [bind_of_eq_some (entryPart_flow hv (by omega) rfl)]
  change (flowEntries fuel false >>= _) { s with tokens := ts } = _
  rw [bind_of_eq_some hlater]
  rfl

/-- The entries after the first one. -/
theorem flowEntries_later {entries : List (Node × Node)}
    (hentries : ∀ e ∈ entries, ReadsBack e.1 ∧ ReadsBack e.2) {fuel : Nat}
    (hfuel : 2 * ((entries.map entryFlow).flatMap (.comma :: ·)).length < fuel)
    (h : s.tokens = (entries.map entryFlow).flatMap (.comma :: ·) ++ .flowMappingEnd :: ts) :
    flowEntries fuel false s = some (entries, { s with tokens := ts }) := by
  -- by induction on the entries; the fuel is twice what they spell
  induction entries generalizing fuel s with
  | nil =>
    obtain ⟨fuel, rfl⟩ := Nat.exists_eq_succ_of_ne_zero (Nat.ne_zero_of_lt hfuel)
    exact flowEntries_end h false fuel
  | cons e entries ih =>
    obtain ⟨fuel, rfl⟩ := Nat.exists_eq_succ_of_ne_zero (Nat.ne_zero_of_lt hfuel)
    obtain ⟨⟨hk, hv⟩, hentries⟩ := List.forall_mem_cons.mp hentries
    simp only [List.map_cons, List.flatMap_cons, entryFlow, List.length_append,
      List.length_cons] at hfuel
    simp only [List.map_cons, List.flatMap_cons, entryFlow, List.append_assoc,
      List.cons_append] at h
    rw [flowEntries_comma h]
    refine entriesFrom_flow hk hv (by omega) rfl ?_
    rw [ih hentries (by omega) rfl]

/-- All entries of a mapping. -/
theorem flowEntries_all {entries : List (Node × Node)}
    (hentries : ∀ e ∈ entries, ReadsBack e.1 ∧ ReadsBack e.2) {fuel : Nat}
    (hfuel : 2 * (commaTokens (entries.map entryFlow)).length < fuel)
    (h : s.tokens = commaTokens (entries.map entryFlow) ++ .flowMappingEnd :: ts) :
    flowEntries fuel true s = some (entries, { s with tokens := ts }) := by
  obtain ⟨fuel, rfl⟩ := Nat.exists_eq_succ_of_ne_zero (Nat.ne_zero_of_lt hfuel)
  cases entries with
  | nil => exact flowEntries_end h true fuel
  | cons e entries =>
    obtain ⟨⟨hk, hv⟩, hentries⟩ := List.forall_mem_cons.mp hentries
    simp only [List.map_cons, commaTokens, entryFlow, List.length_append, List.length_cons] at hfuel
    simp only [List.map_cons, commaTokens, entryFlow, List.append_assoc, List.cons_append] at h
    rw [flowEntries_first h]
    refine entriesFrom_flow hk hv (by omega) rfl ?_
    rw [flowEntries_later hentries (by omega) rfl]

/-! ### Trees -/

/-- A scalar is a node of its own. -/
theorem content_scalar {text : String} {style : Style} (h : s.tokens = .scalar text style :: ts)
    (inBlock loose : Bool) (fuel : Nat) : content inBlock loose (fuel + 1) false none s =
      some (.scalar text style none, { s with tokens := ts }) := by
  cases s
  subst h
  rw [content]
  rfl

/-- A bracket opens a sequence. -/
theorem content_sequence (h : s.tokens = .flowSequence :: ts) (inBlock loose : Bool) (fuel : Nat) :
    content inBlock loose (fuel + 1) false none s =
      (do return .sequence (← flowItems fuel true) : NodeReader Node) { s with tokens := ts } := by
  cases s
  subst h
  rw [content]
  rfl

/-- A brace opens a mapping. -/
theorem content_mapping (h : s.tokens = .flowMapping :: ts) (inBlock loose : Bool) (fuel : Nat) :
    content inBlock loose (fuel + 1) false none s =
      (do return .mapping (← flowEntries fuel true) : NodeReader Node) { s with tokens := ts } := by
  cases s
  subst h
  rw [content]
  rfl

/-- Scalars are read back. -/
theorem readsBack_scalar (text : String) (style : Style) : ReadsBack (.scalar text style none) := by
  intro inBlock loose fuel s ts hfuel h
  obtain ⟨fuel, rfl⟩ : ∃ k, fuel = k + 2 := Nat.exists_eq_add_of_le' hfuel
  rw [node_of_starts h (.scalar text style)]
  exact content_scalar h inBlock loose fuel

/-- A sequence is read back if its items are. -/
theorem readsBack_sequence {items : List Node} (hitems : ∀ n ∈ items, ReadsBack n) :
    ReadsBack (.sequence items) := by
  intro inBlock loose fuel s ts hfuel h
  rw [Node.flow, itemFlows_eq_map, List.length_append, List.length_cons,
    List.length_singleton] at hfuel
  rw [Node.flow, itemFlows_eq_map, List.append_assoc, List.cons_append, List.singleton_append] at h
  obtain ⟨fuel, rfl⟩ : ∃ k, fuel = k + 2 := Nat.exists_eq_add_of_le' (by omega)
  rw [node_of_starts h .sequence, content_sequence h,
    bind_of_eq_some (flowItems_all hitems (by omega) rfl)]
  rfl

/-- A mapping is read back if its keys and values are. -/
theorem readsBack_mapping {entries : List (Node × Node)}
    (hentries : ∀ e ∈ entries, ReadsBack e.1 ∧ ReadsBack e.2) : ReadsBack (.mapping entries) := by
  intro inBlock loose fuel s ts hfuel h
  rw [Node.flow, entryFlows_eq_map, List.length_append, List.length_cons,
    List.length_singleton] at hfuel
  rw [Node.flow, entryFlows_eq_map, List.append_assoc, List.cons_append, List.singleton_append] at h
  obtain ⟨fuel, rfl⟩ : ∃ k, fuel = k + 2 := Nat.exists_eq_add_of_le' (by omega)
  rw [node_of_starts h .mapping, content_mapping h,
    bind_of_eq_some (flowEntries_all hentries (by omega) rfl)]
  rfl

/-- **Trees.** A written tree is read back from its tokens. -/
theorem readsBack_of_written {n : Node} (h : Written n) : ReadsBack n := by
  induction h with
  | plain hne hword => exact readsBack_scalar _ .plain
  | quoted text => exact readsBack_scalar text .quoted
  | sequence hitems ih => exact readsBack_sequence ih
  | mapping hkeys hvalues ih =>
    refine readsBack_mapping fun e he => ?_
    obtain ⟨entry, hentry, rfl⟩ := List.mem_map.mp he
    exact ⟨readsBack_scalar entry.1 .quoted, ih entry hentry⟩

/-! ### Documents -/

/-- A tree alone is a document. -/
theorem document_flow {n : Node} (hn : ReadsBack n) {fuel : Nat} (hfuel : 2 * n.flow.length ≤ fuel)
    (h : s.tokens = n.flow) : document fuel s = some (some n, { s with tokens := [] }) := by
  obtain ⟨t, more, hflow, ht⟩ := exists_flow_cons n
  have hhead : s.tokens = t :: more := h.trans hflow
  -- a collection or a scalar begins no directive
  have hdirectives : directives fuel [] s = some (false, s) := by
    have hpos := length_flow_pos n
    obtain ⟨fuel, rfl⟩ : ∃ k, fuel = k + 1 := Nat.exists_eq_add_of_le' (by omega)
    cases s
    subst hhead
    cases ht <;> rfl
  have hmark : take .documentStart s = some (false, s) := take_of_ne hhead (by cases ht <;> nofun)
  have hnode : node true false fuel s = some (n, { s with tokens := [] }) :=
    hn hfuel (by rw [h, List.append_nil])
  -- nothing follows the node
  have hends : skipEnds fuel { s with tokens := [] } = some ((), { s with tokens := [] }) := by
    cases fuel <;> rfl
  have hcontent : atContentEnd s = some (false, s) := by
    cases s
    subst hhead
    cases ht <;> rfl
  have hthere : peek s = some (some t, s) := by
    change some (s.tokens.head?, s) = _
    rw [hhead, List.head?_cons]
  rw [document, bind_of_eq_some hdirectives, bind_of_eq_some hthere]
  change (take .documentStart >>= _) s = _
  rw [bind_of_eq_some hmark]
  change (atContentEnd >>= _) s = _
  rw [bind_of_eq_some hcontent]
  change (node true false fuel >>= _) s = _
  rw [bind_of_eq_some hnode]
  change (skipEnds fuel >>= _) { s with tokens := [] } = _
  rw [bind_of_eq_some hends]
  rfl

end QueryGate.Yaml.NodeReader

namespace QueryGate.Yaml

open NodeReader

/-- **Documents.** A written mapping is read back from its text. -/
theorem read?_text {entries : List (Node × Node)} (h : Written (.mapping entries)) :
    read? (Node.mapping entries).text = some (.node (.mapping entries)) := by
  have hdocument : document (4 * (Node.mapping entries).flow.length + 4)
      ⟨(Node.mapping entries).flow, [], commonHandles⟩ =
        some (some (.mapping entries), ⟨[], [], commonHandles⟩) :=
    document_flow (readsBack_of_written h) (by omega) rfl
  rw [read?, tokens?_text h]
  change (document _ _).bind _ = _
  rw [hdocument]
  rfl

end QueryGate.Yaml
