import QueryGate.Yaml.Scalar

namespace QueryGate.Yaml

/-!
# Layout

From characters to tokens. Indentation opens and closes block collections, and the token that
marks a key is put before the key once the colon behind it is seen: a key is a scalar, an alias
or a flow collection of one line that a block or a comma could end.
-/

/-- A token of a document. -/
inductive Token where
  | directive (name : String) (arguments : List String)
  | documentStart
  | documentEnd
  | blockSequence
  | blockMapping
  | blockEnd
  | flowSequence
  | flowSequenceEnd
  | flowMapping
  | flowMappingEnd
  | item
  | comma
  | key
  | value
  | anchor (name : String)
  | alias (name : String)
  | tag (handle suffix : String)
  | scalar (text : String) (style : Style)
deriving DecidableEq, Repr

/-- A place where a key may have started. -/
structure KeyStart where
  /-- Whether the place can hold nothing but a key. -/
  required : Bool
  /-- How many tokens come before it. -/
  position : Nat
  cursor : Cursor
deriving DecidableEq, Repr

/-- The state of reading. -/
structure Layout where
  cursor : Cursor
  /-- The tokens, last one first. -/
  tokens : List Token
  /-- The first column that is deeper than the innermost block. -/
  indent : Nat
  /-- The same of the blocks around it. -/
  outer : List Nat
  /-- Where a key may have started, in the innermost collection and those around it. -/
  keyStart : Option KeyStart
  outerKeys : List (Option KeyStart)
  /-- Whether a key may start here. -/
  keyAllowed : Bool
deriving DecidableEq, Repr

namespace Layout

/-- The start of a document. -/
def start (cs : List Char) : Layout :=
  { cursor := .start cs
    tokens := []
    indent := 0
    outer := []
    keyStart := none
    outerKeys := []
    keyAllowed := true }

/-- A step of reading; it fails where the document is no YAML. -/
abbrev Step := StateT Layout Option Unit

/-- Whether the place is inside a flow collection. -/
def inFlow (l : Layout) : Bool := !l.outerKeys.isEmpty

/-- Adds a token. -/
def emit (t : Token) : Step := modify fun l => { l with tokens := t :: l.tokens }

/-- Puts a token before those that came after `position`. -/
def emitAt (position : Nat) (t : Token) : Step := modify fun l =>
  let later := l.tokens.length - position
  { l with tokens := l.tokens.take later ++ t :: l.tokens.drop later }

/-- Moves over so many characters. -/
def skip (n : Nat) : Step := modify fun l => { l with cursor := l.cursor.skip n }

/-- Says whether a key may start. -/
def allowKey (b : Bool) : Step := modify fun l => { l with keyAllowed := b }

/-- Goes on only if a condition holds. -/
def ensure (b : Bool) : Step := fun l => if b then some ((), l) else none

/-! ### Keys -/

/-- Forgets where a key may have started; a place that needs a key must not be forgotten. -/
def dropKey : Step := do
  ensure !((← get).keyStart.any (·.required))
  modify fun l => { l with keyStart := none }

/-- Remembers that a key may start here. -/
def markKey : Step := do
  let l ← get
  if l.keyAllowed then
    dropKey
    let required := !l.inFlow && l.indent == l.cursor.column + 1
    set { l with keyStart := some ⟨required, l.tokens.length, l.cursor⟩ }

/-- Forgets a start of a key that is too far back: on another line, or over 1024 characters
away. -/
def expireKey (k : Option KeyStart) (c : Cursor) : Option (Option KeyStart) :=
  match k with
  | none => some none
  | some s =>
    if s.cursor.line < c.line || s.cursor.offset + 1024 < c.offset then
      if s.required then none else some none
    else some (some s)

/-- Forgets all starts of keys that are too far back. -/
def expireKeys : Step := fun l => do
  let keyStart ← expireKey l.keyStart l.cursor
  let outerKeys ← l.outerKeys.mapM (expireKey · l.cursor)
  return ((), { l with keyStart, outerKeys })

/-! ### Indentation -/

/-- Opens a block at a column that is deeper than the innermost one. -/
def openBlock (column : Nat) (emitStart : Step) : Step := do
  let l ← get
  if !l.inFlow && l.indent ≤ column then
    set { l with indent := column + 1, outer := l.indent :: l.outer }
    emitStart

/-- Closes the blocks that are deeper than `least` allows. -/
def closeBlocks (least : Nat) : Nat → Step
  | 0 => pure ()
  | fuel + 1 => do
    let l ← get
    if least < l.indent then
      set { l with
        indent := l.outer.headD 0
        outer := l.outer.tail
        tokens := .blockEnd :: l.tokens }
      closeBlocks least fuel

/-- Closes the blocks that a line with content at this column ends. -/
def closeDeeper (column : Nat) : Step := do
  let l ← get
  unless l.inFlow do closeBlocks (column + 1) (l.outer.length + 1)

/-- Closes all blocks. -/
def closeAll : Step := do
  let l ← get
  unless l.inFlow do closeBlocks 0 (l.outer.length + 1)

/-! ### Between tokens -/

/-- Moves over blanks, comments and line breaks. A tab does not indent, and a byte order mark may
start a line. -/
def skipGaps : Nat → Step
  | 0 => pure ()
  | fuel + 1 => do
    let l ← get
    let c := l.cursor
    let c := if c.column == 0 && c.rest.head? == some '\ufeff' then c.skip 1 else c
    let c := c.skipWhile fun ch => ch == ' ' || (ch == '\t' && (l.inFlow || !l.keyAllowed))
    let c := if c.rest.head? == some '#' then c.skipWhile (!isBreak ·) else c
    match c.lineBreak? with
    | some (_, c) =>
      set { l with cursor := c, keyAllowed := l.keyAllowed || !l.inFlow }
      skipGaps fuel
    | none => set { l with cursor := c }

/-! ### Properties of nodes -/

/-- Letters of names. -/
def isNameChar (c : Char) : Bool := c.isAlphanum || c == '_' || c == '-'

/-- An anchor or an alias, behind its mark. -/
def readName : StateT Layout Option String := do
  skip 1
  let name := (← get).cursor.rest.takeWhile isNameChar
  skip name.length
  let rest := (← get).cursor.rest
  if name.isEmpty then failure
  if startsWithGap rest || rest.head?.any ("?:,]\x7d%@\x60".toList.contains ·) then
    return String.ofList name
  else failure

/-- Letters of tags. -/
def isTagChar (c : Char) : Bool := isNameChar c || ";/?:@&=+$.!~*\x27()%".toList.contains c

/-- A tag: what it is relative to, and the rest of it. -/
def readTag : StateT Layout Option (String × String) := do
  let cs := (← get).cursor.rest
  match cs with
  | '!' :: '<' :: rest =>
    let uri := rest.takeWhile fun c => isTagChar c || ",[]".toList.contains c
    if uri.isEmpty || (rest.drop uri.length).head? != some '>' then failure
    skip (uri.length + 3)
    return ("", String.ofList uri)
  | _ =>
    let body := (cs.drop 1).takeWhile isTagChar
    skip (body.length + 1)
    let name := body.takeWhile isNameChar
    match body.drop name.length with
    | '!' :: suffix =>
      if suffix.isEmpty then failure
      return ("!" ++ String.ofList name ++ "!", String.ofList suffix)
    | _ => return if body.isEmpty then ("", "!") else ("!", String.ofList body)

/-- Whether a tag may end before this text. -/
def endsTag (inFlow : Bool) (rest : List Char) : Bool :=
  startsWithGap rest || (inFlow && rest.head? == some ',')

/-! ### Tokens -/

/-- The words of a line up to a comment. -/
def lineWords (cs : List Char) : List String :=
  let line := cs.takeWhile fun c => !isBreak c
  let words := (String.ofList line).splitToList isBlank |>.filter (!·.isEmpty)
  words.takeWhile fun w => !w.startsWith "#"

/-- A directive, at the start of a line. -/
def directive : Step := do
  closeAll
  dropKey
  allowKey false
  match lineWords ((← get).cursor.rest.drop 1) with
  | name :: arguments => emit (.directive name arguments)
  | [] => failure
  modify fun l => { l with cursor := l.cursor.skipWhile (!isBreak ·) }

/-- A line that starts or ends a document. -/
def documentMark (t : Token) : Step := do
  closeAll
  dropKey
  allowKey false
  skip 3
  emit t

/-- An opening bracket. -/
def openFlow (t : Token) : Step := do
  markKey
  modify fun l => { l with keyStart := none, outerKeys := l.keyStart :: l.outerKeys }
  allowKey true
  skip 1
  emit t

/-- A closing bracket. -/
def closeFlow (t : Token) : Step := do
  dropKey
  modify fun l => { l with
    keyStart := match l.outerKeys with
      | k :: _ => k
      | [] => none
    outerKeys := l.outerKeys.tail }
  allowKey false
  skip 1
  emit t

/-- A comma in a flow collection. -/
def comma : Step := do
  dropKey
  allowKey true
  skip 1
  emit .comma

/-- The dash before an item of a block sequence. -/
def item : Step := do
  let l ← get
  unless l.inFlow do
    ensure l.keyAllowed
    openBlock l.cursor.column (emit .blockSequence)
  dropKey
  allowKey true
  skip 1
  emit .item

/-- The question mark before a key. -/
def explicitKey : Step := do
  let l ← get
  unless l.inFlow do
    ensure l.keyAllowed
    openBlock l.cursor.column (emit .blockMapping)
  dropKey
  allowKey !l.inFlow
  skip 1
  emit .key

/-- The colon before a value. -/
def valueMark : Step := do
  let l ← get
  match l.keyStart with
  | some k =>
    emitAt k.position .key
    openBlock k.cursor.column (emitAt k.position .blockMapping)
    modify fun l => { l with keyStart := none }
    allowKey false
  | none =>
    unless l.inFlow do
      ensure l.keyAllowed
      openBlock l.cursor.column (emit .blockMapping)
    allowKey !l.inFlow
  skip 1
  emit .value

/-- An anchor. -/
def anchor : Step := do
  markKey
  allowKey false
  emit (.anchor (← readName))

/-- An alias. -/
def aliasMark : Step := do
  markKey
  allowKey false
  emit (.alias (← readName))

/-- A tag. -/
def tag : Step := do
  markKey
  allowKey false
  let (handle, suffix) ← readTag
  let l ← get
  ensure (endsTag l.inFlow l.cursor.rest)
  emit (.tag handle suffix)

/-- A block scalar. -/
def blockScalar (style : Style) : Step := do
  dropKey
  allowKey true
  let l ← get
  let (text, cursor) ← readBlock (style == .literal) l.indent l.cursor
  set { l with cursor }
  emit (.scalar (String.ofList text) style)

/-- A quoted scalar. -/
def quotedScalar (quote : Char) : Step := do
  markKey
  allowKey false
  let l ← get
  let (text, cursor) ← readQuoted quote l.cursor
  set { l with cursor }
  emit (.scalar (String.ofList text) .quoted)

/-- A plain scalar. A line break behind it lets a key start. -/
def plainScalar : Step := do
  markKey
  allowKey false
  let l ← get
  let read ← readPlain l.inFlow l.indent l.cursor
  set { l with cursor := read.cursor, keyAllowed := read.broken }
  emit (.scalar (String.ofList read.text) .plain)

/-- Characters that mean something at the start of a token. -/
def indicators : List Char := "-?:,[]\x7b\x7d#&*!|>\x27\"%@\x60".toList

/-- Whether a plain scalar starts with `c` before `cs`. -/
def startsPlain (inFlow : Bool) (c : Char) (cs : List Char) : Bool :=
  !(isGap c || indicators.contains c) || (c == '-' && !cs.head?.any isBlank) ||
    (!inFlow && (c == '?' || c == ':') && !startsWithGap cs)

/-- The token that starts with `c` before `cs`. -/
def token (l : Layout) (c : Char) (cs : List Char) : Step :=
  let opens := l.inFlow || startsWithGap cs
  if l.cursor.column == 0 && c == '%' then directive
  else if l.cursor.atMark '-' then documentMark .documentStart
  else if l.cursor.atMark '.' then documentMark .documentEnd
  else match c with
    | '[' => openFlow .flowSequence
    | '\x7b' => openFlow .flowMapping
    | ']' => closeFlow .flowSequenceEnd
    | '\x7d' => closeFlow .flowMappingEnd
    | ',' => comma
    | '*' => aliasMark
    | '&' => anchor
    | '!' => tag
    | '\x27' => quotedScalar c
    | '"' => quotedScalar c
    | _ =>
      if c == '-' && startsWithGap cs then item
      else if c == '?' && opens then explicitKey
      else if c == ':' && opens then valueMark
      else if c == '|' && !l.inFlow then blockScalar .literal
      else if c == '>' && !l.inFlow then blockScalar .folded
      else if startsPlain l.inFlow c cs then plainScalar
      else failure

/-- Reads tokens to the end of the document. -/
def run : Nat → Step
  | 0 => failure
  | fuel + 1 => do
    skipGaps ((← get).cursor.rest.length + 1)
    expireKeys
    let l ← get
    match l.cursor.rest with
    | [] =>
      closeAll
      dropKey
    | c :: cs =>
      closeDeeper l.cursor.column
      token (← get) c cs
      run fuel

/-- The tokens of a document. -/
def tokens? (cs : List Char) : Option (List Token) := do
  if !cs.all isPrintable then none
  let ((), l) ← (run (cs.length + 1)).run (.start cs)
  return l.tokens.reverse

end Layout

end QueryGate.Yaml
