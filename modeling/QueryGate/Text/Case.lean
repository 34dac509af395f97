import QueryGate.Text.CaseTable

namespace QueryGate.Text

/-!
# Upper and lower case

Full case mapping by the rules of Unicode: a character may map to several, and a capital sigma
becomes the final form where a word ends with it. ASCII case is the part of it that leaves every
other character alone.
-/

/-- The lower case of one character, without regard to its neighbours. -/
def lowerChar (c : Char) : List Char :=
  if c.toNat < 128 then [c.toLower]
  else if c.toNat = 0x130 then ['i', '\u0307']
  else match CaseRun.image? lowerRuns c.toNat with
    | some n => [Char.ofNat n]
    | none => [c]

/-- The upper case of one character. -/
def upperChar (c : Char) : List Char :=
  if c.toNat < 128 then [c.toUpper]
  else match upperSequences.lookup c.toNat with
    | some ns => ns.map Char.ofNat
    | none => match CaseRun.image? upperRuns c.toNat with
      | some n => [Char.ofNat n]
      | none => [c]

/-- Characters that the search for a cased neighbour steps over. -/
def isCaseIgnorable (c : Char) : Bool :=
  if c.toNat < 128 then "'.:^`".toList.contains c else inRanges ignorableRanges c.toNat

/-- Letters that have a case. -/
def isCased (c : Char) : Bool :=
  if c.toNat < 128 then c.isAlpha else inRanges casedRanges c.toNat

/-- Whether the nearest character that is not ignorable is cased. -/
def nextIsCased (cs : List Char) : Bool :=
  match cs.dropWhile isCaseIgnorable with
  | [] => false
  | c :: _ => isCased c

/-- The form of a capital sigma between the text before it (nearest first) and the text after
it: final iff a cased letter precedes it and none follows. -/
def lowerSigma (before after : List Char) : Char :=
  if nextIsCased before && !nextIsCased after then 'ς' else 'σ'

/-- Lower case of a text that continues `before` (nearest first). -/
def lowerAfter (before : List Char) : List Char → List Char
  | [] => []
  | c :: cs =>
    (if c = 'Σ' then [lowerSigma before cs] else lowerChar c) ++ lowerAfter (c :: before) cs

/-- Lower case of a text. -/
def lowerChars (cs : List Char) : List Char := lowerAfter [] cs

/-- Upper case of a text. -/
def upperChars (cs : List Char) : List Char := cs.flatMap upperChar

/-- Lower case of a string. -/
def lower (s : String) : String := String.ofList (lowerChars s.toList)

/-- Upper case of a string. -/
def upper (s : String) : String := String.ofList (upperChars s.toList)

/-- Lower case of the ASCII letters alone. -/
def asciiLower (s : String) : String := String.ofList (s.toList.map Char.toLower)

/-- Equality up to the case of ASCII letters. -/
def asciiEqual (s t : String) : Bool := asciiLower s == asciiLower t

end QueryGate.Text
