import QueryGate.Calendar
import QueryGate.Json.Reader
import QueryGate.Json.Writer

namespace QueryGate

/-!
# Cells

The value of a column in a row of a result, and how it is shown in JSON. Values without a form of
their own are shown as null, just as missing values are.
-/

/-- The value of a column in a row. -/
inductive Cell where
  | null
  | int (n : Int)
  /-- A floating-point number; none where it is not finite. -/
  | float (x : Option Double)
  | bool (b : Bool)
  | text (s : String)
  | uuid (bits : BitVec 128)
  /-- Days since 1 January 2000. -/
  | date (day : Int)
  /-- Microseconds since midnight. -/
  | time (micros : Int)
  /-- Microseconds since the start of 1 January 2000, by a calendar without time zone. -/
  | timestamp (micros : Int)
  /-- Microseconds since the start of 1 January 2000 in universal time. -/
  | instant (micros : Int)
  /-- The text of a JSON document. -/
  | document (source : String)
  | texts (items : List (Option String))
  | ints (items : List (Option Int))
  /-- A value of any other type. -/
  | other
deriving DecidableEq, Repr

namespace Cell

/-- The digits of a UUID in groups of 8, 4, 4, 4 and 12. -/
def uuidText (bits : BitVec 128) : String :=
  let digits := (Nat.toDigits 16 bits.toNat).leftpad 32 '0'
  let group (start count : Nat) : String := String.ofList ((digits.drop start).take count)
  "-".intercalate [group 0 8, group 8 4, group 12 4, group 16 4, group 20 12]

/-- A list, or null if an item of it is missing. -/
def listJson (item : α → Json) (items : List (Option α)) : Json :=
  match items.mapM id with
  | some items => .list (items.map item)
  | none => .null

/-- The value in JSON. -/
def json : Cell → Json
  | null | other => .null
  | int n => .int n
  | float (some x) => .double x
  | float none => .null
  | bool b => .bool b
  | text s => .text s
  | uuid bits => .text (uuidText bits)
  | date day => .text (Date.ofDay day).text
  | time micros => .text (TimeOfDay.ofMicros micros).text
  | timestamp micros => .text (momentText micros)
  | instant micros => .text (momentText micros ++ "Z")
  | document source => (Json.parse? source.toList).getD .null
  | texts items => listJson .text items
  | ints items => listJson .int items

end Cell

end QueryGate
