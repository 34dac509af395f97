import QueryGate.Sql.Tree
import QueryGate.Text.Blank
import QueryGate.Text.Case

namespace QueryGate

/-!
# Table names

A table name is a list of lower-case parts: the table alone, or the table behind its schema. Names
come from configuration text (`TableName.parse`), from a catalog (`TableName.ofParts`) and from
statements (`TableName.ofName`). Only the last keeps empty parts.
-/

/-- A lower-case table name, part by part. -/
structure TableName where
  parts : List String
deriving DecidableEq, Repr

/-- The pieces of a text between the occurrences of a separator. -/
def pieces (separator : Char) : List Char → List (List Char)
  | [] => [[]]
  | c :: cs =>
    if c = separator then [] :: pieces separator cs
    else match pieces separator cs with
      | p :: ps => (c :: p) :: ps
      | [] => [[c]]

/-- A text without the quotes around it, if there are quotes of one kind at both ends. -/
def unquoted (cs : List Char) : List Char :=
  match cs with
  | open_ :: rest =>
    match rest.getLast? with
    | some close =>
      if [('"', '"'), ('\x60', '\x60'), ('[', ']')].contains (open_, close) then rest.dropLast else cs
    | none => cs
  | [] => cs

namespace TableName

/-- The name with these parts; empty ones are left out. -/
def ofParts (parts : List String) : TableName :=
  ⟨(parts.map Text.lower).filter (!·.isEmpty)⟩

/-- A schema as configuration text spells it, in lower case. -/
def schemaPart (schema : String) : String :=
  String.ofList (Text.lowerChars (unquoted (Text.trim schema.toList)))

/-- The name that a text spells: parts with periods between them, each in quotes or not. -/
def parse (text : String) : TableName :=
  ofParts ((pieces '.' text.toList).map fun p => String.ofList (unquoted (Text.trim p)))

/-- The name as a statement spells it. -/
def ofName (name : Sql.Name) : TableName := ⟨name.map fun i => Text.lower i.text⟩

/-- Whether there is a schema before the table. -/
def isQualified (n : TableName) : Bool := n.parts.length > 1

/-- The table without its schema. -/
def table (n : TableName) : String := n.parts.getLast?.getD ""

/-- The name with a schema, where it has none and there is one to put. -/
def qualifiedWith (n : TableName) : Option String → TableName
  | some schema => if n.isQualified then n else ⟨[schemaPart schema, n.table]⟩
  | none => n

/-- The parts with periods between them. -/
def text (n : TableName) : String := String.intercalate "." n.parts

end TableName

end QueryGate
