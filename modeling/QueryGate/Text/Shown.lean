import QueryGate.Text.Blank

namespace QueryGate.Text

/-!
# Texts in messages

A text in double quotes, with escapes for quotes, backslashes, and characters that cannot be seen:
controls, and white space other than the space.
-/

/-- Whether a character is a control. -/
def isControl (c : Char) : Bool := c.toNat < 0x20 || (0x7F ≤ c.toNat && c.toNat < 0xA0)

/-- A character by its number. -/
def numbered (c : Char) : String :=
  "\\u\x7b" ++ String.ofList (Nat.toDigits 16 c.toNat) ++ "\x7d"

/-- A character as it stands between quotes. -/
def shownChar (c : Char) : String :=
  match c with
  | '"' => "\\\""
  | '\x27' => "\\\x27"
  | '\\' => "\\\\"
  | '\t' => "\\t"
  | '\r' => "\\r"
  | '\n' => "\\n"
  | '\x00' => "\\0"
  | ' ' => " "
  | c => if isControl c || isBlank c then numbered c else c.toString

/-- A text in quotes. -/
def shown (s : String) : String := "\"" ++ String.join (s.toList.map shownChar) ++ "\""

end QueryGate.Text
