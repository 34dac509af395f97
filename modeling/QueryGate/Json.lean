import QueryGate.Number.Binary

namespace QueryGate

/-!
# JSON values

Numbers are integers or doubles. An object holds its members in the order in which they are
written; `Json.ofMembers` makes an object with sorted names, where of two members with one name the
later one counts.
-/

/-- A JSON value. -/
inductive Json where
  | null
  | bool (b : Bool)
  | int (n : Int)
  | double (x : Double)
  | text (s : String)
  | list (items : List Json)
  | object (members : List (String × Json))
deriving Inhabited

namespace Json

/-- Puts a member among members with sorted names, in the place of one with its name. -/
def putMember (name : String) (v : Json) : List (String × Json) → List (String × Json)
  | [] => [(name, v)]
  | (n, w) :: rest =>
    if name < n then (name, v) :: (n, w) :: rest
    else if name = n then (name, v) :: rest
    else (n, w) :: putMember name v rest

/-- The object with these members. -/
def ofMembers (members : List (String × Json)) : Json :=
  .object (members.foldl (fun sorted m => putMember m.1 m.2 sorted) [])

/-- The value at a name of an object. -/
def member? (name : String) : Json → Option Json
  | .object members => members.lookup name
  | _ => none

/-- A list of texts. -/
def texts (ts : List String) : Json := .list (ts.map .text)

end Json

end QueryGate
