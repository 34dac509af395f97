import QueryGate.Yaml.Cursor

namespace QueryGate.Yaml

/-!
# Scalars

The four ways to write a text: plain, in single or double quotes, and as a block. A line break
inside the first three is folded into a space; several of them lose the first. Every reader takes
the cursor behind what it reads, and fails where the document is no YAML.
-/

/-- How a text is written. -/
inductive Style where
  | plain
  | quoted
  /-- A block that keeps its line breaks. -/
  | literal
  /-- A block that folds its line breaks. -/
  | folded
deriving DecidableEq, Repr

/-! ### Gaps -/

/-- The blanks and line breaks between two words. -/
structure Gap where
  /-- Blanks before the first line break. -/
  blanks : List Char
  /-- The line breaks, if there are any. -/
  breaks : Option (List Char)
  /-- A line break before all of these was escaped. -/
  escaped : Bool
deriving DecidableEq, Repr

namespace Gap

/-- No blanks and no breaks. -/
def empty : Gap := ⟨[], none, false⟩

/-- What follows an escaped line break. -/
def afterEscape : Gap := ⟨[], some [], true⟩

/-- Line breaks as a single text: the first one counts for nothing if it is not the only one. -/
def folded : List Char → List Char
  | ['\n'] => [' ']
  | '\n' :: more => more
  | breaks => breaks

/-- The text that a gap stands for. -/
def text (g : Gap) : List Char :=
  match g.breaks with
  | none => g.blanks
  | some breaks => if g.escaped then breaks else folded breaks

end Gap

/-- Reads a gap to its end. After a line break no tab may stand before column `indent`. -/
def readGap (indent : Nat) : Nat → Gap → Cursor → Option (Gap × Cursor)
  | 0, g, c => some (g, c)
  | fuel + 1, g, c =>
    match c.lineBreak? with
    | some (b, c') => readGap indent fuel { g with breaks := some (g.breaks.getD [] ++ [b]) } c'
    | none =>
      match c.rest with
      | ch :: _ =>
        if isBlank ch then
          if g.breaks.isNone then readGap indent fuel { g with blanks := g.blanks ++ [ch] } (c.skip 1)
          else if ch == '\t' && c.column < indent then none
          else readGap indent fuel g (c.skip 1)
        else some (g, c)
      | [] => some (g, c)

/-- A gap, with fuel for the rest of the document. -/
def gapFrom (indent : Nat) (g : Gap) (c : Cursor) : Option (Gap × Cursor) :=
  readGap indent (c.rest.length + 1) g c

/-! ### Plain scalars -/

/-- The word at the start of a text. In a flow collection a colon must not touch a bracket. -/
def plainWord (inFlow : Bool) : List Char → Option (List Char)
  | [] => some []
  | c :: cs =>
    if isGap c then some []
    else if c == ':' && inFlow && cs.head?.any (",?[]\x7b\x7d".toList.contains ·) then none
    else if c == ':' && startsWithGap cs then some []
    else if inFlow && ",[]\x7b\x7d".toList.contains c then some []
    else (c :: ·) <$> plainWord inFlow cs

/-- A text that was read, whether a line break follows it, and the cursor behind. -/
structure PlainRead where
  text : List Char
  broken : Bool
  cursor : Cursor

/-- The words of a plain scalar after those in `text`; `gap` is what stands before the cursor. -/
def plainWords (inFlow : Bool) (indent : Nat) : Nat → List Char → Gap → Cursor → Option PlainRead
  | 0, _, _, _ => none
  | fuel + 1, text, gap, c => do
    let stop : PlainRead := ⟨text, gap.breaks.isSome, c⟩
    if c.atDocumentMark || c.rest.head? == some '#' then return stop
    let word ← plainWord inFlow c.rest
    if word.isEmpty then return stop
    let text := text ++ gap.text ++ word
    let (gap, c) ← gapFrom indent .empty (c.skip word.length)
    let stop : PlainRead := ⟨text, gap.breaks.isSome, c⟩
    if gap == .empty || (!inFlow && c.column < indent) then return stop
    plainWords inFlow indent fuel text gap c

/-- A plain scalar. -/
def readPlain (inFlow : Bool) (indent : Nat) (c : Cursor) : Option PlainRead :=
  plainWords inFlow indent (c.rest.length + 1) [] .empty c

/-! ### Quoted scalars -/

/-- What a backslash and a letter stand for. -/
def namedEscape? (c : Char) : Option Char :=
  [('0', 0x00), ('a', 0x07), ('b', 0x08), ('t', 0x09), ('\t', 0x09), ('n', 0x0a), ('v', 0x0b),
    ('f', 0x0c), ('r', 0x0d), ('e', 0x1b), (' ', 0x20), ('"', 0x22), ('/', 0x2f), ('\\', 0x5c),
    ('N', 0x85), ('_', 0xa0), ('L', 0x2028), ('P', 0x2029)].lookup c |>.map Char.ofNat

/-- How many hexadecimal digits follow a backslash and a letter. -/
def escapeWidth? (c : Char) : Option Nat :=
  [('x', 2), ('u', 4), ('U', 8)].lookup c

/-- The value of a hexadecimal digit. -/
def hexDigit? (c : Char) : Option Nat :=
  if c.isDigit then some (c.toNat - 48)
  else if 'a' ≤ c ∧ c ≤ 'f' then some (c.toNat - 87)
  else if 'A' ≤ c ∧ c ≤ 'F' then some (c.toNat - 55)
  else none

/-- The value of hexadecimal digits. -/
def hexValue? (cs : List Char) : Option Nat :=
  cs.foldlM (fun n c => (16 * n + ·) <$> hexDigit? c) 0

/-- The character with a code, if there is one. -/
def scalarValue? (n : Nat) : Option Char := if n.isValidChar then some (Char.ofNat n) else none

/-- What a backslash before a text stands for, and how many characters of the text it takes. -/
def escape? : List Char → Option (Char × Nat)
  | [] => none
  | c :: cs =>
    match namedEscape? c, escapeWidth? c with
    | some e, _ => some (e, 1)
    | none, some width => do
      let digits := cs.take width
      if digits.length < width then none
      else return (← scalarValue? (← hexValue? digits), width + 1)
    | none, none => none

/-- The characters up to a gap or the closing quote, and whether an escaped line break ends
them. -/
def quotedWord (quote : Char) : Nat → List Char → Cursor → Option (List Char × Bool × Cursor)
  | 0, _, _ => none
  | fuel + 1, text, c =>
    match c.rest with
    | [] => some (text, false, c)
    | ch :: cs =>
      if isGap ch then some (text, false, c)
      else if ch == quote then
        if quote == '\x27' && cs.head? == some quote then
          quotedWord quote fuel (text ++ [quote]) (c.skip 2)
        else some (text, false, c)
      else if ch == '\\' && quote == '"' then
        match (c.skip 1).lineBreak? with
        | some (_, c') => some (text, true, c')
        | none => do
          let (e, width) ← escape? cs
          quotedWord quote fuel (text ++ [e]) (c.skip (width + 1))
      else quotedWord quote fuel (text ++ [ch]) (c.skip 1)

/-- The lines of a quoted scalar after what is in `text`. -/
def quotedLines (quote : Char) : Nat → List Char → Cursor → Option (List Char × Cursor)
  | 0, _, _ => none
  | fuel + 1, text, c => do
    if c.atDocumentMark || c.rest.isEmpty then none
    let (text, escaped, c) ← quotedWord quote (c.rest.length + 1) text c
    if c.rest.head? == some quote then return (text, c.skip 1)
    let (gap, c) ← gapFrom 0 (if escaped then .afterEscape else .empty) c
    quotedLines quote fuel (text ++ gap.text) c

/-- A quoted scalar, from its opening quote on. -/
def readQuoted (quote : Char) (c : Cursor) : Option (List Char × Cursor) :=
  quotedLines quote (c.rest.length + 1) [] (c.skip 1)

/-! ### Block scalars -/

/-- What becomes of the line breaks at the end of a block. -/
inductive Chomping where
  | strip
  | clip
  | keep
deriving DecidableEq, Repr

/-- The chomping that a sign asks for. -/
def chomping? (c : Char) : Option Chomping :=
  if c == '+' then some .keep else if c == '-' then some .strip else none

/-- The indentation that a digit asks for: not zero. -/
def increment? (c : Char) : Option Nat :=
  if c.isDigit && c != '0' then some (c.toNat - 48) else none

/-- The chomping and the indentation behind the mark of a block, in either order. -/
def blockHeader (cs : List Char) : Option (Chomping × Option Nat × Nat) :=
  match cs with
  | a :: b :: _ =>
    match chomping? a, chomping? b with
    | some k, _ =>
      if b.isDigit then (increment? b).map fun n => (k, some n, 2) else some (k, none, 1)
    | none, k =>
      if a.isDigit then
        (increment? a).map fun n =>
          match k with
          | some k => (k, some n, 2)
          | none => (.clip, some n, 1)
      else some (.clip, none, 0)
  | [a] =>
    match chomping? a with
    | some k => some (k, none, 1)
    | none =>
      if a.isDigit then (increment? a).map fun n => (.clip, some n, 1) else some (.clip, none, 0)
  | [] => some (.clip, none, 0)

/-- The empty lines before the next line of a block, the deepest column seen among them, and the
cursor behind. Where the indentation is not known yet, all spaces count as indentation. -/
def emptyLines (indent : Option Nat) : Nat → List Char → Nat → Cursor →
    Option (List Char × Nat × Cursor)
  | 0, breaks, deepest, c => some (breaks, deepest, c)
  | fuel + 1, breaks, deepest, c =>
    let spaces := (c.rest.takeWhile (· == ' ')).length
    let c := c.skip (match indent with
      | some n => min spaces (n - c.column)
      | none => spaces)
    let deepest := max deepest c.column
    if indent.all (c.column < ·) && c.rest.head? == some '\t' then none
    else match c.lineBreak? with
      | some (b, c) => emptyLines indent fuel (breaks ++ [b]) deepest c
      | none => some (breaks, deepest, c)

/-- The state between two lines of a block. -/
structure BlockState where
  text : List Char
  /-- The break at the end of the last line. -/
  lineEnd : List Char
  /-- The empty lines after it. -/
  empties : List Char
  /-- Whether the last line starts with a blank. -/
  startsBlank : Bool

/-- The text with the breaks before the next line. -/
def BlockState.joined (s : BlockState) (literal nextBlank : Bool) : List Char :=
  if !literal && s.lineEnd == ['\n'] && !s.startsBlank && !nextBlank then
    s.text ++ (if s.empties.isEmpty then [' '] else s.empties)
  else s.text ++ s.lineEnd ++ s.empties

/-- The lines of a block at column `indent`. -/
def blockLines (literal : Bool) (indent : Nat) : Nat → BlockState → Cursor →
    Option (BlockState × Cursor)
  | 0, _, _ => none
  | fuel + 1, s, c =>
    if c.column != indent || c.rest.isEmpty then some (s, c)
    else do
      let blank := c.rest.head?.any isBlank
      let line := c.rest.takeWhile fun ch => !isBreak ch
      let text := s.joined literal blank ++ line
      let c := c.skip line.length
      let (lineEnd, c) := match c.lineBreak? with
        | some (b, c) => ([b], c)
        | none => ([], c)
      let (empties, _, c) ← emptyLines (some indent) (c.rest.length + 1) [] 0 c
      blockLines literal indent fuel ⟨text, lineEnd, empties, blank⟩ c

/-- A block scalar, from its mark on; `outer` is the least column of its surroundings. -/
def readBlock (literal : Bool) (outer : Nat) (c : Cursor) : Option (List Char × Cursor) := do
  let c := c.skip 1
  let (chomping, increment, width) ← blockHeader c.rest
  let c := (c.skip width).skipWhile isBlank
  let c := if c.rest.head? == some '#' then c.skipWhile (!isBreak ·) else c
  if !atLineEnd c.rest then none
  let c := (c.lineBreak?.map Prod.snd).getD c
  let given := increment.map (outer - 1 + ·)
  let (empties, deepest, c) ← emptyLines given (c.rest.length + 1) [] 0 c
  let indent := given.getD (max deepest (max outer 1))
  let (s, c) ← blockLines literal indent (c.rest.length + 1) ⟨[], [], empties, false⟩ c
  let ending := match chomping with
    | .strip => []
    | .clip => s.lineEnd
    | .keep => s.lineEnd ++ s.empties
  return (s.text ++ ending, c)

end QueryGate.Yaml
