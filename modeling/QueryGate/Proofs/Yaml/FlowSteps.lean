import Mathlib
import QueryGate.Proofs.Yaml.Scalars

namespace QueryGate.Yaml.Layout

/-!
# Reading on one line

What the layout of a document does with the tokens of a flow collection that stands on one line.
No block is open and no key has to start anywhere (`At`), so that a step never fails for a key that
is not there; what it remembers of keys may be forgotten on the way (`settled`).

* `run_of_token` — one step is the token behind the spaces, and nothing else;
* `exists_step_open`, `exists_step_close`, `exists_step_comma` — brackets and commas;
* `exists_step_quoted`, `exists_step_plain` — scalars;
* `exists_steps_key` — a quoted key with its colon: the token that marks the key comes first.
-/

variable {l l' : Layout} {t : Token} {ts : List Token} {ch : Char} {cs : List Char} {n depth : Nat}

/-! ### Steps in a row -/

/-- A step that succeeds hands its state on. -/
theorem bind_of_eq_some {σ α β : Type} {x : StateT σ Option α} {f : α → StateT σ Option β}
    {s s' : σ} {a : α} (h : x s = some (a, s')) : (x >>= f) s = f a s' := by
  change (x s).bind _ = _
  rw [h]
  rfl

theorem get_bind {σ α : Type} (f : σ → StateT σ Option α) (s : σ) : (get >>= f) s = f s s := rfl

/-- From one place the reader gets to another, in at most as many steps as there are characters
    between them. -/
def Reaches (l l' : Layout) : Prop :=
  ∃ steps, steps + l'.cursor.rest.length ≤ l.cursor.rest.length ∧
    ∀ fuel, run (fuel + steps) l = run fuel l'

theorem Reaches.refl (l : Layout) : Reaches l l := ⟨0, by simp, fun _ => rfl⟩

/-- Steps in a row. -/
theorem Reaches.trans {l'' : Layout} (h : Reaches l l') (h' : Reaches l' l'') : Reaches l l'' := by
  obtain ⟨first, hfirst, hrun⟩ := h
  obtain ⟨second, hsecond, hrun'⟩ := h'
  refine ⟨second + first, by omega, fun fuel => ?_⟩
  rw [← Nat.add_assoc, hrun, hrun']

/-! ### Keys that may be forgotten -/

/-- A place where a key has not to start. -/
def Lax (k : Option KeyStart) : Prop := k.any (·.required) = false

/-- What is left of a place where a key may have started. -/
def lapse (c : Cursor) : Option KeyStart → Option KeyStart
  | none => none
  | some s =>
    if s.cursor.line < c.line || s.cursor.offset + 1024 < c.offset then none else some s

/-- A key that has lapsed is not demanded. -/
theorem lapse_lax {k : Option KeyStart} (h : Lax k) (c : Cursor) : Lax (lapse c k) := by
  cases k with
  | none => rfl
  | some s =>
    rw [lapse]
    split
    · rfl
    · exact h

/-- A key that is not demanded may lapse without an error. -/
theorem expireKey_of_lax {k : Option KeyStart} (h : Lax k) (c : Cursor) :
    expireKey k c = some (lapse c k) := by
  cases k with
  | none => rfl
  | some s =>
    have hrequired : s.required = false := h
    rw [expireKey, lapse, hrequired]
    split <;> rfl

/-- The place behind so many spaces, where old places of keys are forgotten. -/
def settled (l : Layout) (n : Nat) : Layout :=
  { l with
    cursor := l.cursor.skip n
    keyStart := lapse (l.cursor.skip n) l.keyStart
    outerKeys := l.outerKeys.map (lapse (l.cursor.skip n)) }

/-- A place on the only line of a document, behind some tokens and so deep in flow collections:
    this text comes next, after spaces. -/
structure At (l : Layout) (text : List Char) (tokens : List Token) (depth : Nat) : Prop where
  rest : ∃ n, l.cursor.rest = List.replicate n ' ' ++ text
  tokens : l.tokens = tokens
  noBlock : l.indent = 0
  nested : l.outerKeys.length = depth
  column : 0 < depth → 0 < l.cursor.column
  lax : Lax l.keyStart
  outerLax : ∀ k ∈ l.outerKeys, Lax k

/-! ### Between tokens -/

/-- Characters with which a token on the line starts. -/
def Begins (ch : Char) : Prop := isGap ch = false ∧ ch ∉ ['#', '%', '-', '.', '\ufeff']

/-- The place behind the blanks and the comment of a line. -/
def behindBlanks (l : Layout) : Cursor :=
  let c := l.cursor
  let c := if c.column == 0 && c.rest.head? == some '\ufeff' then c.skip 1 else c
  let c := c.skipWhile fun ch => ch == ' ' || (ch == '\t' && (l.inFlow || !l.keyAllowed))
  if c.rest.head? == some '#' then c.skipWhile (!isBreak ·) else c

/-- On one line there are only blanks to skip. -/
theorem skipGaps_of_lineBreak?_eq_none (h : l.behindBlanks.lineBreak? = none) (fuel : Nat) :
    skipGaps (fuel + 1) l = some ((), { l with cursor := l.behindBlanks }) := by
  rw [skipGaps, get_bind]
  unfold behindBlanks at h ⊢
  dsimp only at h ⊢
  rw [h]
  rfl

/-- Between tokens on the line, and at its end, there are only spaces. -/
theorem skipGaps_spaces (hcs : ∀ ch ∈ cs.head?, Begins ch)
    (hrest : l.cursor.rest = List.replicate n ' ' ++ cs) (fuel : Nat) :
    skipGaps (fuel + 1) l = some ((), { l with cursor := l.cursor.skip n }) := by
  -- no byte order mark stands at the start of a line
  have hmark : ¬(l.cursor.column == 0 && l.cursor.rest.head? == some '\ufeff') = true := by
    rw [hrest]
    cases n with
    | zero =>
      rintro h
      simp only [List.replicate_zero, List.nil_append, Bool.and_eq_true, beq_iff_eq] at h
      exact absurd (hcs _ h.2).2 (by decide)
    | succ n => simp [List.replicate_succ]
  -- the spaces are skipped, up to a character that begins a token
  have hspaces : (l.cursor.rest.takeWhile fun c =>
      c == ' ' || (c == '\t' && (l.inFlow || !l.keyAllowed))) = List.replicate n ' ' := by
    rw [hrest, List.takeWhile_append_of_pos (by simp +contextual)]
    cases cs with
    | nil => simp
    | cons ch cs =>
      have hgap := (hcs ch rfl).1
      simp only [isGap, isBlank, Bool.or_eq_false_iff, beq_eq_false_iff_ne] at hgap
      rw [List.takeWhile_cons_of_neg (by simp [hgap]), List.append_nil]
  have hafter : (l.cursor.skip n).rest = cs := by
    rw [Cursor.rest_skip, hrest, List.drop_left' List.length_replicate]
  -- that character begins no comment
  have hcomment : ¬((l.cursor.skip n).rest.head? == some '#') = true := by
    rw [hafter, beq_iff_eq]
    intro h
    exact absurd (hcs _ h).2 (by decide)
  have hbehind : l.behindBlanks = l.cursor.skip n := by
    simp only [behindBlanks, if_neg hmark, Cursor.skipWhile, hspaces, List.length_replicate]
    rw [if_neg hcomment]
  -- and no line ends there
  have hbreak : (l.cursor.skip n).lineBreak? = none := by
    cases cs with
    | nil => rw [Cursor.lineBreak?, hafter]
    | cons ch cs =>
      have hgap := (hcs ch rfl).1
      rw [isGap, Bool.or_eq_false_iff] at hgap
      exact Cursor.lineBreak?_eq_none hafter hgap.2
  rw [skipGaps_of_lineBreak?_eq_none (hbehind ▸ hbreak), hbehind]

/-! ### Keys and blocks -/

/-- All keys that are not demanded lapse together. -/
theorem mapM_expireKey {ks : List (Option KeyStart)} (h : ∀ k ∈ ks, Lax k) (c : Cursor) :
    ks.mapM (expireKey · c) = some (ks.map (lapse c)) := by
  induction ks with
  | nil => rfl
  | cons k ks ih =>
    obtain ⟨hk, hks⟩ := List.forall_mem_cons.mp h
    rw [List.mapM_cons, expireKey_of_lax hk, ih hks]
    rfl

/-- The keys of a layout lapse together. -/
theorem expireKeys_of_lax (h : Lax l.keyStart) (houter : ∀ k ∈ l.outerKeys, Lax k) :
    expireKeys l = some ((), { l with
      keyStart := lapse l.cursor l.keyStart
      outerKeys := l.outerKeys.map (lapse l.cursor) }) := by
  change (expireKey l.keyStart l.cursor).bind _ = _
  rw [expireKey_of_lax h]
  change (l.outerKeys.mapM (expireKey · l.cursor)).bind _ = _
  rw [mapM_expireKey houter]
  rfl

/-- Without a block there is none to close. -/
theorem closeBlocks_of_noBlock (h : l.indent = 0) (least fuel : Nat) :
    closeBlocks least fuel l = some ((), l) := by
  cases fuel with
  | zero => rfl
  | succ fuel =>
    change (if least < l.indent then _ else _ : Step) l = _
    rw [h, if_neg (Nat.not_lt_zero _)]
    rfl

theorem closeDeeper_of_noBlock (h : l.indent = 0) (column : Nat) :
    closeDeeper column l = some ((), l) := by
  change (if l.inFlow then _ else _ : Step) l = _
  split
  · rfl
  · exact closeBlocks_of_noBlock h _ _

theorem closeAll_of_noBlock (h : l.indent = 0) : closeAll l = some ((), l) := by
  change (if l.inFlow then _ else _ : Step) l = _
  split
  · rfl
  · exact closeBlocks_of_noBlock h _ _

/-- A key that is not demanded may be dropped. -/
theorem dropKey_of_lax (h : Lax l.keyStart) :
    dropKey l = some ((), { l with keyStart := none }) := by
  have hensure : ensure (!(l.keyStart.any (·.required))) l = some ((), l) := by
    rw [h]
    rfl
  change (ensure (!(l.keyStart.any (·.required))) l).bind _ = _
  rw [hensure]
  rfl

/-! ### One step -/

/-- Settling skips the blanks before a token. -/
theorem rest_settled (hrest : l.cursor.rest = List.replicate n ' ' ++ cs) :
    (l.settled n).cursor.rest = cs := by
  rw [settled, Cursor.rest_skip, hrest, List.drop_left' List.length_replicate]

/-- Behind the spaces the place is the same. -/
theorem At.settled (h : At l cs ts depth) (hrest : l.cursor.rest = List.replicate n ' ' ++ cs) :
    At (l.settled n) cs ts depth where
  rest := ⟨0, rest_settled hrest⟩
  tokens := h.tokens
  noBlock := h.noBlock
  nested := (List.length_map _).trans h.nested
  column := fun hd => Nat.add_pos_left (h.column hd) n
  lax := lapse_lax h.lax _
  outerLax := by
    intro k hk
    obtain ⟨k, hmem, rfl⟩ := List.mem_map.mp hk
    exact lapse_lax (h.outerLax k hmem) _

/-- The reader goes over spaces, and then looks at what is left. -/
theorem run_of_spaces (h : At l cs ts depth) (hcs : ∀ ch ∈ cs.head?, Begins ch)
    (hrest : l.cursor.rest = List.replicate n ' ' ++ cs) (fuel : Nat) :
    run (fuel + 1) l = (match (l.settled n).cursor.rest with
      | [] => do
        closeAll
        dropKey
      | c :: cs => do
        closeDeeper (l.settled n).cursor.column
        token (← get) c cs
        run fuel : Step) (l.settled n) := by
  -- keys that are too far away expire before the next token
  have hexpire : expireKeys { l with cursor := l.cursor.skip n } = some ((), l.settled n) :=
    expireKeys_of_lax h.lax h.outerLax
  change (skipGaps (l.cursor.rest.length + 1) l).bind _ = _
  rw [skipGaps_spaces hcs hrest]
  change (expireKeys { l with cursor := l.cursor.skip n }).bind _ = _
  rw [hexpire]
  rfl

/-- **One step.** The reader takes the token behind the spaces. -/
theorem run_of_token (h : At l (ch :: cs) ts depth) (hch : Begins ch)
    (hrest : l.cursor.rest = List.replicate n ' ' ++ ch :: cs)
    (htoken : token (l.settled n) ch cs (l.settled n) = some ((), l')) (fuel : Nat) :
    run (fuel + 1) l = run fuel l' := by
  have hclose : closeDeeper (l.settled n).cursor.column (l.settled n) = some ((), l.settled n) :=
    closeDeeper_of_noBlock (h.settled hrest).noBlock _
  rw [run_of_spaces h (fun _ hmem => Option.some.inj hmem ▸ hch) hrest, rest_settled hrest]
  dsimp only
  rw [bind_of_eq_some hclose]
  change (token (l.settled n) ch cs (l.settled n)).bind _ = _
  rw [htoken]
  rfl

/-- One step from a place, where the token behind the spaces leads to a place of some kind. -/
theorem At.exists_step {P : Layout → Prop} (h : At l (ch :: cs) ts depth) (hch : Begins ch)
    (htoken : ∀ s, At s (ch :: cs) ts depth → s.cursor.rest = ch :: cs →
      s.keyAllowed = l.keyAllowed →
      ∃ l', token s ch cs s = some ((), l') ∧ l'.cursor.rest.length ≤ cs.length ∧ P l') :
    ∃ l', Reaches l l' ∧ P l' := by
  obtain ⟨n, hrest⟩ := h.rest
  obtain ⟨l', htoken, hlength, hl'⟩ :=
    htoken (l.settled n) (h.settled hrest) (rest_settled hrest) rfl
  refine ⟨l', ⟨1, ?_, run_of_token h hch hrest htoken⟩, hl'⟩
  rw [hrest, List.length_append, List.length_cons]
  omega

/-- At the end of the document the tokens are complete. -/
theorem At.exists_run_end (h : At l [] ts depth) (fuel : Nat) :
    ∃ l', run (fuel + 1) l = some ((), l') ∧ l'.tokens = ts := by
  obtain ⟨n, hrest⟩ := h.rest
  have hs := h.settled hrest
  refine ⟨{ l.settled n with keyStart := none }, ?_, hs.tokens⟩
  rw [run_of_spaces h nofun hrest, rest_settled hrest]
  dsimp only
  rw [bind_of_eq_some (closeAll_of_noBlock hs.noBlock)]
  exact dropKey_of_lax hs.lax

/-! ### Brackets and commas -/

/-- The two kinds of flow collections. -/
inductive Bracket where
  | square
  | curly

namespace Bracket

def opening : Bracket → Char
  | square => '['
  | curly => '\x7b'

def closing : Bracket → Char
  | square => ']'
  | curly => '\x7d'

def start : Bracket → Token
  | square => .flowSequence
  | curly => .flowMapping

def stop : Bracket → Token
  | square => .flowSequenceEnd
  | curly => .flowMappingEnd

theorem begins_opening (b : Bracket) : Begins b.opening := by
  cases b <;> exact ⟨by decide, by decide⟩

theorem begins_closing (b : Bracket) : Begins b.closing := by
  cases b <;> exact ⟨by decide, by decide⟩

end Bracket

/-- No mark of a document and no directive stands where such a character does. -/
theorem Begins.unmarked (h : Begins ch) (hrest : l.cursor.rest = ch :: cs) :
    (l.cursor.column == 0 && ch == '%') = false ∧ l.cursor.atMark '-' = false ∧
      l.cursor.atMark '.' = false := by
  obtain ⟨-, hother⟩ := h
  simp only [List.mem_cons, not_or] at hother
  have hmark {mark : Char} (hne : ch ≠ mark) : l.cursor.atMark mark = false := by
    rw [Cursor.atMark, hrest]
    split
    · next heq =>
      cases heq
      simp [hne]
    · exact Bool.and_false _
  refine ⟨?_, hmark hother.2.2.1, hmark hother.2.2.2.1⟩
  rw [beq_eq_false_iff_ne.mpr hother.2.1, Bool.and_false]

/-- An opening bracket opens a collection. -/
theorem token_opening (b : Bracket) (hrest : l.cursor.rest = b.opening :: cs) :
    token l b.opening cs = openFlow b.start := by
  obtain ⟨hdirective, hstart, hend⟩ := b.begins_opening.unmarked hrest
  unfold token
  rw [hdirective, hstart, hend]
  cases b <;> rfl

/-- A closing bracket closes one. -/
theorem token_closing (b : Bracket) (hrest : l.cursor.rest = b.closing :: cs) :
    token l b.closing cs = closeFlow b.stop := by
  obtain ⟨hdirective, hstart, hend⟩ := b.begins_closing.unmarked hrest
  unfold token
  rw [hdirective, hstart, hend]
  cases b <;> rfl

/-- Where a key may have started once a scalar or a collection starts here. -/
def marked (l : Layout) : Option KeyStart :=
  if l.keyAllowed then some ⟨false, l.tokens.length, l.cursor⟩ else l.keyStart

theorem marked_lax (h : Lax l.keyStart) : Lax l.marked := by
  rw [marked]
  split
  · rfl
  · exact h

/-- A place for a key is noted, for a scalar may turn out to be one. -/
theorem markKey_of_lax (h : Lax l.keyStart) (hblock : l.indent = 0) :
    markKey l = some ((), { l with keyStart := l.marked }) := by
  have hrequired : (!l.inFlow && l.indent == l.cursor.column + 1) = false := by
    rw [hblock]
    simp
  change (if l.keyAllowed then _ else _ : Step) l = _
  rw [marked]
  split
  · change (dropKey l).bind _ = _
    rw [dropKey_of_lax h, hrequired]
    rfl
  · rfl

/-- Opening a collection emits its token and goes in. -/
theorem openFlow_of_lax (h : Lax l.keyStart) (hblock : l.indent = 0) (t : Token) :
    openFlow t l = some ((), { l with
      cursor := l.cursor.skip 1
      tokens := t :: l.tokens
      keyStart := none
      outerKeys := l.marked :: l.outerKeys
      keyAllowed := true }) := by
  rw [openFlow, bind_of_eq_some (markKey_of_lax h hblock)]
  rfl

/-- Closing a collection emits its token and goes out. -/
theorem closeFlow_of_lax (h : Lax l.keyStart) {k : Option KeyStart} {ks : List (Option KeyStart)}
    (houter : l.outerKeys = k :: ks) (t : Token) :
    closeFlow t l = some ((), { l with
      cursor := l.cursor.skip 1
      tokens := t :: l.tokens
      keyStart := k
      outerKeys := ks
      keyAllowed := false }) := by
  cases l
  subst houter
  rw [closeFlow, bind_of_eq_some (dropKey_of_lax h)]
  rfl

/-- A comma emits its token and allows a key behind it. -/
theorem comma_of_lax (h : Lax l.keyStart) :
    comma l = some ((), { l with
      cursor := l.cursor.skip 1
      tokens := .comma :: l.tokens
      keyStart := none
      keyAllowed := true }) := by
  rw [comma, bind_of_eq_some (dropKey_of_lax h)]
  rfl

/-- The text behind the first character. -/
theorem rest_skip_one {c : Cursor} (hrest : c.rest = ch :: cs) : (c.skip 1).rest = cs := by
  rw [Cursor.rest_skip, hrest, List.drop_one, List.tail_cons]

/-- An opening bracket leads into a collection, where a key may start. -/
theorem At.exists_step_open (b : Bracket) (h : At l (b.opening :: cs) ts depth) :
    ∃ l', Reaches l l' ∧ At l' cs (b.start :: ts) (depth + 1) ∧ l'.keyAllowed = true := by
  refine h.exists_step b.begins_opening fun s hs hrest _ => ?_
  have hafter := rest_skip_one hrest
  have hopen := openFlow_of_lax hs.lax hs.noBlock b.start
  refine ⟨_, (congrFun (token_opening b hrest) s).trans hopen, ?_, ?_, rfl⟩
  · exact Nat.le_of_eq (congrArg List.length hafter)
  · exact {
      rest := ⟨0, hafter⟩
      tokens := congrArg (b.start :: ·) hs.tokens
      noBlock := hs.noBlock
      nested := congrArg (· + 1) hs.nested
      column := fun _ => Nat.succ_pos _
      lax := rfl
      outerLax := List.forall_mem_cons.mpr ⟨marked_lax hs.lax, hs.outerLax⟩ }

/-- A closing bracket leads out of a collection. -/
theorem At.exists_step_close (b : Bracket) (h : At l (b.closing :: cs) ts (depth + 1)) :
    ∃ l', Reaches l l' ∧ At l' cs (b.stop :: ts) depth := by
  refine h.exists_step b.begins_closing fun s hs hrest _ => ?_
  have hafter := rest_skip_one hrest
  -- the bracket that is closed has its own place for a key outside
  obtain ⟨k, ks, houter⟩ := List.exists_cons_of_length_eq_add_one hs.nested
  have hlax := List.forall_mem_cons.mp (houter ▸ hs.outerLax)
  have hclose := closeFlow_of_lax hs.lax houter b.stop
  refine ⟨_, (congrFun (token_closing b hrest) s).trans hclose, ?_, ?_⟩
  · exact Nat.le_of_eq (congrArg List.length hafter)
  · exact {
      rest := ⟨0, hafter⟩
      tokens := congrArg (b.stop :: ·) hs.tokens
      noBlock := hs.noBlock
      nested := Nat.succ_inj.mp ((congrArg List.length houter).symm.trans hs.nested)
      column := fun _ => Nat.succ_pos _
      lax := hlax.1
      outerLax := hlax.2 }

/-- Behind a comma a key may start. -/
theorem At.exists_step_comma (h : At l (',' :: cs) ts depth) :
    ∃ l', Reaches l l' ∧ At l' cs (.comma :: ts) depth ∧ l'.keyAllowed = true := by
  have hch : Begins ',' := ⟨by decide, by decide⟩
  refine h.exists_step hch fun s hs hrest _ => ?_
  have hafter := rest_skip_one hrest
  -- the comma is none of the three marks of a document
  have htoken : token s ',' cs = comma := by
    obtain ⟨hdirective, hstart, hend⟩ := hch.unmarked hrest
    unfold token
    rw [hdirective, hstart, hend]
    rfl
  refine ⟨_, (congrFun htoken s).trans (comma_of_lax hs.lax), ?_, ?_, rfl⟩
  · exact Nat.le_of_eq (congrArg List.length hafter)
  · exact {
      rest := ⟨0, hafter⟩
      tokens := congrArg (.comma :: ·) hs.tokens
      noBlock := hs.noBlock
      nested := hs.nested
      column := fun _ => Nat.succ_pos _
      lax := rfl
      outerLax := hs.outerLax }

/-! ### Scalars -/

/-- A quoted scalar emits its text. -/
theorem quotedScalar_of_lax {text : String} (h : Lax l.keyStart) (hblock : l.indent = 0)
    (hrest : l.cursor.rest = quotedText text ++ cs) :
    quotedScalar '"' l = some ((), { l with
      cursor := l.cursor.skip (quotedText text).length
      tokens := .scalar text .quoted :: l.tokens
      keyStart := l.marked
      keyAllowed := false }) := by
  rw [quotedScalar, bind_of_eq_some (markKey_of_lax h hblock)]
  change ((readQuoted '"' l.cursor).bind fun read =>
    some (read, { l with keyStart := l.marked, keyAllowed := false })).bind _ = _
  rw [readQuoted_quotedText hrest]
  change some ((), { l with
    cursor := l.cursor.skip (quotedText text).length
    tokens := .scalar (String.ofList text.toList) .quoted :: l.tokens
    keyStart := l.marked
    keyAllowed := false }) = _
  rw [String.ofList_toList]

/-- A word of letters and digits emits itself. -/
theorem plainScalar_of_lax {text : String} (h : Lax l.keyStart) (hblock : l.indent = 0)
    (hflow : l.inFlow = true) (hcolumn : 0 < l.cursor.column) (hne : text.toList ≠ [])
    (hword : ∀ ch ∈ text.toList, ch.isAlphanum = true) (hstop : IsEnder ch)
    (hrest : l.cursor.rest = text.toList ++ ch :: cs) :
    plainScalar l = some ((), { l with
      cursor := l.cursor.skip text.toList.length
      tokens := .scalar text .plain :: l.tokens
      keyStart := l.marked
      keyAllowed := false }) := by
  rw [plainScalar, bind_of_eq_some (markKey_of_lax h hblock)]
  change ((readPlain l.inFlow l.indent l.cursor).bind fun read =>
    some (read, { l with keyStart := l.marked, keyAllowed := false })).bind _ = _
  rw [hflow, readPlain_word hne hword hstop hcolumn hrest]
  change some ((), { l with
    cursor := l.cursor.skip text.toList.length
    tokens := .scalar (String.ofList text.toList) .plain :: l.tokens
    keyStart := l.marked
    keyAllowed := false }) = _
  rw [String.ofList_toList]

/-- A quoted text is one scalar.  Where a key may start, it is remembered that the text does. -/
theorem At.exists_step_quoted {text : String} (h : At l (quotedText text ++ cs) ts depth) :
    ∃ l', Reaches l l' ∧ At l' cs (.scalar text .quoted :: ts) depth ∧ l'.cursor.rest = cs ∧
      (l.keyAllowed = true → ∃ c, l'.cursor = c.skip (quotedText text).length ∧
        l'.keyStart = some ⟨false, ts.length, c⟩) := by
  have hch : Begins '"' := ⟨by decide, by decide⟩
  have hsplit : quotedText text ++ cs = '"' :: (text.toList.flatMap escaped ++ '"' :: cs) := by
    simp [quotedText]
  rw [hsplit] at h
  refine h.exists_step hch fun s hs hrest hallowed => ?_
  -- a quote begins a scalar in double quotes
  have htoken : token s '"' (text.toList.flatMap escaped ++ '"' :: cs) = quotedScalar '"' := by
    obtain ⟨hdirective, hstart, hend⟩ := hch.unmarked hrest
    unfold token
    rw [hdirective, hstart, hend]
    rfl
  rw [← hsplit] at hrest
  have hafter : (s.cursor.skip (quotedText text).length).rest = cs := Cursor.rest_skip_append hrest
  have hread := quotedScalar_of_lax hs.lax hs.noBlock hrest
  refine ⟨_, (congrFun htoken s).trans hread, ?_, ?_, hafter, ?_⟩
  · change (s.cursor.skip (quotedText text).length).rest.length ≤ _
    rw [hafter, List.length_append, List.length_cons]
    omega
  · exact {
      rest := ⟨0, hafter⟩
      tokens := congrArg (.scalar text .quoted :: ·) hs.tokens
      noBlock := hs.noBlock
      nested := hs.nested
      column := fun _ => Nat.succ_pos _
      lax := marked_lax hs.lax
      outerLax := hs.outerLax }
  -- where a key is allowed the place of the scalar is noted
  · intro hkey
    refine ⟨s.cursor, rfl, ?_⟩
    change s.marked = _
    rw [marked, if_pos (hallowed.trans hkey), hs.tokens]

theorem begins_of_isAlphanum (h : ch.isAlphanum = true) : Begins ch := by
  refine ⟨(wordChar_spec h).1, ?_⟩
  simp [ne_of_isAlphanum h]

/-- Within a collection. -/
theorem At.inFlow (h : At l cs ts (depth + 1)) : l.inFlow = true := by
  obtain ⟨k, ks, houter⟩ := List.exists_cons_of_length_eq_add_one h.nested
  rw [Layout.inFlow, houter]
  rfl

/-- A letter or a digit begins a plain scalar. -/
theorem token_word (h : ch.isAlphanum = true) (hrest : l.cursor.rest = ch :: cs) :
    token l ch cs = plainScalar := by
  obtain ⟨hdirective, hstart, hend⟩ := (begins_of_isAlphanum h).unmarked hrest
  obtain ⟨hgap, hplain, -⟩ := wordChar_spec h
  have hstarts : startsPlain l.inFlow ch cs = true := by
    rw [startsPlain, hgap, hplain]
    rfl
  have hne {other : Char} (hother : other.isAlphanum = false) : (ch == other) = false :=
    beq_eq_false_iff_ne.mpr (ne_of_isAlphanum h hother)
  unfold token
  rw [hdirective, hstart, hend, if_neg Bool.false_ne_true, if_neg Bool.false_ne_true,
    if_neg Bool.false_ne_true]
  split
  -- no other token starts with a letter or a digit
  iterate 10 exact absurd h (by decide)
  simp [hne, hstarts]

/-- A word of letters and digits in a collection is one plain scalar. -/
theorem At.exists_step_plain {text : String} (hne : text.toList ≠ [])
    (hword : ∀ ch ∈ text.toList, ch.isAlphanum = true) (hstop : IsEnder ch)
    (h : At l (text.toList ++ ch :: cs) ts (depth + 1)) :
    ∃ l', Reaches l l' ∧ At l' (ch :: cs) (.scalar text .plain :: ts) (depth + 1) := by
  obtain ⟨first, more, htext⟩ := List.exists_cons_of_ne_nil hne
  have hfirst : first.isAlphanum = true := hword first (htext ▸ List.mem_cons_self ..)
  have hch : Begins first := begins_of_isAlphanum hfirst
  have hsplit : text.toList ++ ch :: cs = first :: (more ++ ch :: cs) := by
    rw [htext, List.cons_append]
  rw [hsplit] at h
  refine h.exists_step hch fun s hs hrest _ => ?_
  -- a letter or a digit begins a plain scalar
  have htoken := token_word hfirst hrest
  rw [← hsplit] at hrest
  have hafter : (s.cursor.skip text.toList.length).rest = ch :: cs := Cursor.rest_skip_append hrest
  have hread := plainScalar_of_lax hs.lax hs.noBlock hs.inFlow (hs.column (Nat.succ_pos _)) hne hword
    hstop hrest
  refine ⟨_, (congrFun htoken s).trans hread, ?_, ?_⟩
  · change (s.cursor.skip text.toList.length).rest.length ≤ _
    rw [hafter, List.length_append]
    exact Nat.le_add_left _ _
  · exact {
      rest := ⟨0, hafter⟩
      tokens := congrArg (.scalar text .plain :: ·) hs.tokens
      noBlock := hs.noBlock
      nested := hs.nested
      column := fun hd => Nat.add_pos_left (hs.column hd) _
      lax := marked_lax hs.lax
      outerLax := hs.outerLax }

/-! ### Keys -/

/-- Inside brackets no block is opened. -/
theorem openBlock_of_inFlow (h : l.inFlow = true) (column : Nat) (emitStart : Step) :
    openBlock column emitStart l = some ((), l) := by
  change (if !l.inFlow && l.indent ≤ column then _ else _ : Step) l = _
  rw [h]
  rfl

/-- A token put at the last place stands before the last token. -/
theorem emitAt_last {position : Nat} (htokens : l.tokens = t :: ts)
    (hposition : position = ts.length) (u : Token) :
    emitAt position u l = some ((), { l with tokens := t :: u :: ts }) := by
  have hlater : l.tokens.length - position = 1 := by
    rw [htokens, hposition, List.length_cons]
    omega
  change some ((), { l with
    tokens := l.tokens.take (l.tokens.length - position) ++
      u :: l.tokens.drop (l.tokens.length - position) }) = _
  rw [hlater, htokens]
  rfl

/-- A colon behind a scalar that may be a key puts the token of keys before the scalar. -/
theorem valueMark_of_key {k : KeyStart} (hkey : l.keyStart = some k) (hflow : l.inFlow = true)
    (htokens : l.tokens = t :: ts) (hposition : k.position = ts.length) :
    valueMark l = some ((), { l with
      cursor := l.cursor.skip 1
      tokens := .value :: t :: .key :: ts
      keyStart := none
      keyAllowed := false }) := by
  rw [valueMark, get_bind, hkey]
  dsimp only
  rw [bind_of_eq_some (emitAt_last htokens hposition .key),
    bind_of_eq_some (openBlock_of_inFlow (l := { l with tokens := t :: .key :: ts }) hflow _ _)]
  rfl

/-- A key of one line that is not too long is not forgotten before its colon. -/
theorem lapse_of_near {k : KeyStart} {c : Cursor} (hline : k.cursor.line = c.line)
    (hnear : c.offset ≤ k.cursor.offset + 1024) : lapse c (some k) = some k := by
  rw [lapse, if_neg]
  simp only [hline, Bool.or_eq_true, decide_eq_true_eq]
  omega

/-- A quoted key with its colon is a key, where one may start. -/
theorem At.exists_steps_key {text : String} (hshort : (quotedText text).length ≤ 1024)
    (h : At l (quotedText text ++ ':' :: cs) ts (depth + 1)) (hallowed : l.keyAllowed = true) :
    ∃ l', Reaches l l' ∧ At l' cs (.value :: .scalar text .quoted :: .key :: ts) (depth + 1) := by
  obtain ⟨m, hreach, hm, hrest, hmarked⟩ := h.exists_step_quoted
  obtain ⟨c, hcursor, hkey⟩ := hmarked hallowed
  have hch : Begins ':' := ⟨by decide, by decide⟩
  -- the place noted for the key is still near enough when the colon is read
  have hstay : (m.settled 0).keyStart = some ⟨false, ts.length, c⟩ := by
    rw [Layout.settled, hkey, hcursor]
    exact lapse_of_near rfl (Nat.add_le_add_left hshort _)
  have hs := hm.settled (n := 0) hrest
  -- behind a quoted scalar a colon needs no blank
  have htoken : token (m.settled 0) ':' cs = valueMark := by
    obtain ⟨hdirective, hstart, hend⟩ := hch.unmarked (l := m.settled 0) hrest
    unfold token
    rw [hdirective, hstart, hend, hs.inFlow]
    rfl
  have hvalue := valueMark_of_key hstay hs.inFlow hs.tokens rfl
  have hafter := rest_skip_one hrest
  have hrun := run_of_token (n := 0) hm hch hrest ((congrFun htoken _).trans hvalue)
  refine ⟨_, hreach.trans ⟨1, ?_, hrun⟩, ?_⟩
  · change 1 + (m.cursor.skip 1).rest.length ≤ m.cursor.rest.length
    rw [hafter, hrest, List.length_cons, Nat.add_comm]
  · exact {
      rest := ⟨0, hafter⟩
      tokens := rfl
      noBlock := hs.noBlock
      nested := hs.nested
      column := fun _ => Nat.succ_pos _
      lax := rfl
      outerLax := hs.outerLax }

end QueryGate.Yaml.Layout
