import QueryGate.Yaml.Layout

namespace QueryGate.Yaml

/-!
# Documents

The tree that a document describes. An alias stands for the node that carries its anchor, so the
tree holds none.
-/

/-- A node of a document. -/
inductive Node where
  | scalar (text : String) (style : Style) (tag : Option String)
  | sequence (items : List Node)
  | mapping (entries : List (Node × Node))

namespace Node

/-- The node where a value is left out. -/
def missing : Node := scalar "" .plain none

/-- A plain scalar. -/
def plain (text : String) : Node := scalar text .plain none

/-- A quoted scalar. -/
def quoted (text : String) : Node := scalar text .quoted none

end Node

/-- The state of reading nodes. -/
structure NodeState where
  tokens : List Token
  /-- The nodes with anchors, last one first. -/
  anchors : List (String × Node)
  /-- What the handles of tags stand for. -/
  handles : List (String × String)

/-- A reader of nodes; it fails where the document is no YAML. -/
abbrev NodeReader := StateT NodeState Option

namespace NodeReader

/-- The next token, left in place. -/
def peek : NodeReader (Option Token) := return (← get).tokens.head?

/-- Drops the next token. -/
def skip : NodeReader Unit := modify fun s => { s with tokens := s.tokens.tail }

/-- Takes a token if it comes next. -/
def take (t : Token) : NodeReader Bool := do
  if (← peek) == some t then
    skip
    return true
  else return false

/-- Takes a token. -/
def expect (t : Token) : NodeReader Unit := do
  if !(← take t) then failure

/-- Whether one of these tokens comes next. -/
def at? (ts : List Token) : NodeReader Bool := return (← peek).any ts.contains

/-- The full form of a tag. -/
def resolve (handle suffix : String) : NodeReader String := do
  if handle.isEmpty then return suffix
  else match (← get).handles.lookup handle with
    | some start => return start ++ suffix
    | none => failure

/-- Anchor and tag before a node, in either order. -/
def properties : NodeReader (Option String × Option String) := do
  let anchor : NodeReader (Option String) := do
    match ← peek with
    | some (.anchor name) =>
      skip
      return some name
    | _ => return none
  let tag : NodeReader (Option String) := do
    match ← peek with
    | some (.tag handle suffix) =>
      skip
      return some (← resolve handle suffix)
    | _ => return none
  match ← anchor with
  | some name => return (some name, ← tag)
  | none =>
    match ← tag with
    | some t => return (← anchor, some t)
    | none => return (none, none)

/-- The node that an alias stands for. -/
def dereference (name : String) : NodeReader Node := do
  match (← get).anchors.lookup name with
  | some n => return n
  | none => failure

mutual

/-- A node. Inside a block mapping a sequence of items may stand without indentation. -/
def node (inBlock loose : Bool) : Nat → NodeReader Node
  | 0 => failure
  | fuel + 1 => do
    match ← peek with
    | some (.alias name) =>
      skip
      dereference name
    | _ =>
      let (anchor, tag) ← properties
      let n ← content inBlock loose fuel (anchor.isSome || tag.isSome) tag
      match anchor with
      | some name => modify fun s => { s with anchors := (name, n) :: s.anchors }
      | none => pure ()
      return n

/-- A node without its properties. Where it has some, it may be left out. -/
def content (inBlock loose : Bool) : Nat → Bool → Option String → NodeReader Node
  | 0, _, _ => failure
  | fuel + 1, hasProperties, tag => do
    match ← peek with
    | some (.scalar text style) =>
      skip
      return .scalar text style tag
    | some .flowSequence =>
      skip
      return .sequence (← flowItems fuel true)
    | some .flowMapping =>
      skip
      return .mapping (← flowEntries fuel true)
    | some .item =>
      if loose then return .sequence (← looseItems fuel)
      else if hasProperties then return .scalar "" .plain tag
      else failure
    | some .blockSequence =>
      if inBlock then
        skip
        return .sequence (← blockItems fuel)
      else failure
    | some .blockMapping =>
      if inBlock then
        skip
        return .mapping (← blockEntries fuel)
      else failure
    | _ => if hasProperties then return .scalar "" .plain tag else failure

/-- The items of a block sequence. -/
def blockItems : Nat → NodeReader (List Node)
  | 0 => failure
  | fuel + 1 => do
    if ← take .item then
      let n ← if ← at? [.item, .blockEnd] then pure .missing else node true false fuel
      return n :: (← blockItems fuel)
    else
      expect .blockEnd
      return []

/-- The items of a sequence without indentation. -/
def looseItems : Nat → NodeReader (List Node)
  | 0 => failure
  | fuel + 1 => do
    if ← take .item then
      let n ← if ← at? [.item, .key, .value, .blockEnd] then pure .missing else node true false fuel
      return n :: (← looseItems fuel)
    else return []

/-- The entries of a block mapping. -/
def blockEntries : Nat → NodeReader (List (Node × Node))
  | 0 => failure
  | fuel + 1 => do
    let part : NodeReader Node := do
      if ← at? [.key, .value, .blockEnd] then return .missing else node true true fuel
    if ← take .key then
      let k ← part
      let v ← if ← take .value then part else pure .missing
      return (k, v) :: (← blockEntries fuel)
    else
      expect .blockEnd
      return []

/-- The items of a flow sequence; a pair among them is a mapping of its own. -/
def flowItems : Nat → Bool → NodeReader (List Node)
  | 0, _ => failure
  | fuel + 1, first => do
    if ← take .flowSequenceEnd then return []
    else
      if !first then expect .comma
      let part : NodeReader Node := do
        if ← at? [.value, .comma, .flowSequenceEnd] then return .missing
        else node false false fuel
      if ← take .key then
        let k ← part
        let v ← if ← take .value then part else pure .missing
        return .mapping [(k, v)] :: (← flowItems fuel false)
      else if ← take .flowSequenceEnd then return []
      else
        let n ← node false false fuel
        return n :: (← flowItems fuel false)

/-- The entries of a flow mapping. -/
def flowEntries : Nat → Bool → NodeReader (List (Node × Node))
  | 0, _ => failure
  | fuel + 1, first => do
    if ← take .flowMappingEnd then return []
    else
      if !first then expect .comma
      let part : NodeReader Node := do
        if ← at? [.value, .comma, .flowMappingEnd] then return .missing
        else node false false fuel
      if ← take .key then
        let k ← part
        let v ← if ← take .value then part else pure .missing
        return (k, v) :: (← flowEntries fuel false)
      else if ← take .flowMappingEnd then return []
      else
        let k ← node false false fuel
        return (k, .missing) :: (← flowEntries fuel false)

end

/-! ### Whole documents -/

/-- Drops the marks that end documents. -/
def skipEnds : Nat → NodeReader Unit
  | 0 => pure ()
  | fuel + 1 => do
    if ← take .documentEnd then skipEnds fuel

/-- The handles of every document. -/
def commonHandles : List (String × String) := [("!", "!"), ("!!", "tag:yaml.org,2002:")]

/-- Obeys a directive: the version is 1.1 or 1.2. -/
def obey (name : String) (arguments : List String) : NodeReader Unit := do
  match name, arguments with
  | "YAML", [version] => if !(["1.1", "1.2"].contains version) then failure
  | "TAG", [handle, start] =>
    modify fun s => { s with handles := (handle, start) :: s.handles }
  | _, _ => failure

/-- What a directive settles: the version, or a handle. -/
def subject (name : String) (arguments : List String) : List String :=
  if name == "YAML" then [name] else name :: arguments.take 1

/-- The directives before a document, each about another subject; `false` if there are none. -/
def directives : Nat → List (List String) → NodeReader Bool
  | 0, seen => return !seen.isEmpty
  | fuel + 1, seen => do
    match ← peek with
    | some (.directive name arguments) =>
      skip
      obey name arguments
      if seen.contains (subject name arguments) then failure
      directives fuel (subject name arguments :: seen)
    | _ => return !seen.isEmpty

/-- Whether the content of a document is left out here. -/
def atContentEnd : NodeReader Bool := do
  match ← peek with
  | none | some .documentStart | some .documentEnd | some (.directive _ _) => return true
  | _ => return false

/-- The only document; none if there is nothing at all. Its content may be left out behind a mark
that starts it. -/
def document (fuel : Nat) : NodeReader (Option Node) := do
  let directed ← directives fuel []
  if !directed && (← peek).isNone then return none
  else
    let marked ← take .documentStart
    if directed && !marked then failure
    let n ← if marked && (← atContentEnd) then pure .missing else node true false fuel
    skipEnds fuel
    if (← peek).isSome then failure
    return some n

end NodeReader

/-- How a document is read. -/
inductive Document where
  /-- Nothing but blanks and comments. -/
  | empty
  | node (n : Node)

/-- Reads a text that holds one document, if it does. -/
def read? (cs : List Char) : Option Document := do
  let tokens ← Layout.tokens? cs
  let fuel := 4 * tokens.length + 4
  let (n, _) ← (NodeReader.document fuel).run ⟨tokens, [], NodeReader.commonHandles⟩
  return match n with
    | some n => .node n
    | none => .empty

end QueryGate.Yaml
