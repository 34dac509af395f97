import QueryGate.TableName

namespace QueryGate

/-!
# Allow-lists

The tables that statements may read. A reference resolves if it and an entry are the same name
once both are qualified with the default schema.
-/

/-- The tables that may be read, in the order of their insertion, and the schema of names without
one. -/
structure AllowList where
  entries : List TableName
  defaultSchema : Option String
deriving DecidableEq, Repr

namespace AllowList

/-- The list that allows nothing. -/
def empty : AllowList := ⟨[], none⟩

/-- Adds a table at the end, unless it is there already. -/
def insert (a : AllowList) (n : TableName) : AllowList :=
  if a.entries.contains n then a else { a with entries := a.entries ++ [n] }

/-- The list with these tables. -/
def ofNames (names : List TableName) (defaultSchema : Option String) : AllowList :=
  names.foldl insert ⟨[], defaultSchema⟩

/-- The list with the tables that these texts spell. -/
def ofTexts (texts : List String) (defaultSchema : Option String) : AllowList :=
  ofNames (texts.map TableName.parse) defaultSchema

/-- Whether nothing is allowed. -/
def isEmpty (a : AllowList) : Bool := a.entries.isEmpty

/-- Whether a reference resolves to an entry. Names without a schema take the list's own default
schema and, if it has none, the fallback. -/
def resolves (a : AllowList) (reference : TableName) (fallback : Option String) : Bool :=
  let schema := a.defaultSchema <|> fallback
  a.entries.any fun entry => entry.qualifiedWith schema == reference.qualifiedWith schema

/-- Whether the table that a text spells resolves to an entry. -/
def contains (a : AllowList) (table : String) : Bool := a.resolves (TableName.parse table) none

end AllowList

end QueryGate
