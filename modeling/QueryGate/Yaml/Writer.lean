import QueryGate.Yaml.Node

namespace QueryGate.Yaml

/-!
# Writing documents

A tree is written on one line in flow style. Quoted scalars stand in double quotes, with an escape
for every character that a document may not contain or that a reader would fold.
-/

/-- A hexadecimal number with so many digits. -/
def hexText (width n : Nat) : List Char := (Nat.toDigits 16 n).leftpad width '0'

/-- Characters that stand for themselves in double quotes. -/
def isLiteral (c : Char) : Bool :=
  c != '"' && c != '\\' && !isBreak c && c != '\t' && isPrintable c

/-- One character in double quotes. -/
def escaped (c : Char) : List Char :=
  if isLiteral c then [c] else '\\' :: 'U' :: hexText 8 c.toNat

/-- A text in double quotes. -/
def quotedText (s : String) : List Char := '"' :: s.toList.flatMap escaped ++ ['"']

/-- A scalar: plain as it is, or else in double quotes. -/
def scalarText (text : String) : Style → List Char
  | .plain => text.toList
  | _ => quotedText text

/-- Texts with commas between them. -/
def commaSeparated : List (List Char) → List Char
  | [] => []
  | [t] => t
  | t :: ts => t ++ ", ".toList ++ commaSeparated ts

mutual

/-- The text of a node. -/
def Node.text : Node → List Char
  | .scalar text style _ => scalarText text style
  | .sequence items => '[' :: commaSeparated (itemTexts items) ++ [']']
  | .mapping entries => '\x7b' :: commaSeparated (entryTexts entries) ++ ['\x7d']

/-- The texts of the items of a sequence. -/
def itemTexts : List Node → List (List Char)
  | [] => []
  | n :: ns => n.text :: itemTexts ns

/-- The texts of the entries of a mapping. -/
def entryTexts : List (Node × Node) → List (List Char)
  | [] => []
  | (k, v) :: es => (k.text ++ ": ".toList ++ v.text) :: entryTexts es

end

end QueryGate.Yaml
