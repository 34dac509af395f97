import QueryGate.Dialect
import QueryGate.Sql.Lexer.Fault

namespace QueryGate.Sql.Lexer

/-!
# Comments
-/

/-- A line comment behind its opening mark. The character that ends the line belongs to it. -/
def lineComment (d : Dialect) (cs : List Char) : Token × List Char :=
  let text := cs.takeWhile fun c => c != '\n' && !(d.returnEndsComment && c == '\r')
  let rest := cs.drop text.length
  (.blank (.lineComment (String.ofList (text ++ rest.take 1))), rest.drop 1)

/-- A block comment behind its opening mark, up to the mark that closes `depth + 1` comments. -/
def blockText? (nested : Bool) : Nat → List Char → Option (List Char × List Char)
  | depth, '*' :: '/' :: cs =>
    match depth with
    | 0 => some ([], cs)
    | depth + 1 => (blockText? nested depth cs).map fun (t, r) => ('*' :: '/' :: t, r)
  | depth, '/' :: '*' :: cs =>
    if nested then (blockText? nested (depth + 1) cs).map fun (t, r) => ('/' :: '*' :: t, r)
    else (blockText? nested depth ('*' :: cs)).map fun (t, r) => ('/' :: t, r)
  | depth, c :: cs => (blockText? nested depth cs).map fun (t, r) => (c :: t, r)
  | _, [] => none

/-- A block comment behind its opening mark. -/
def blockComment (d : Dialect) (cs : List Char) : Step :=
  match blockText? d.nestedComments 0 cs with
  | some (text, rest) => .ok (.blank (.blockComment (String.ofList text)), rest)
  | none => .error ⟨"Unexpected EOF while in a multi-line comment", []⟩

end QueryGate.Sql.Lexer
