import QueryGate.Clock

namespace QueryGate

/-!
# Expiring caches

A cache holds values for a fixed time after their insertion. An entry whose time is over is never
given out; it stays until it is looked up or the cache is purged.
-/

/-- A value and the moment from which it is stale. -/
structure CacheEntry (ν : Type) where
  value : ν
  expires : Moment
deriving Repr

/-- Whether the value may still be given out. -/
def CacheEntry.isFresh (e : CacheEntry ν) (now : Moment) : Bool := now.isBefore e.expires

/-- A cache: how long values are kept, and the entries, one for each key. -/
structure TtlCache (κ ν : Type) where
  ttl : Duration
  entries : List (κ × CacheEntry ν)
deriving Repr

namespace TtlCache

variable {κ ν : Type} [BEq κ]

/-- A cache without entries. -/
def empty (ttl : Duration) : TtlCache κ ν := ⟨ttl, []⟩

/-- How many entries there are, stale ones among them. -/
def size (c : TtlCache κ ν) : Nat := c.entries.length

/-- Whether there are no entries. -/
def isEmpty (c : TtlCache κ ν) : Bool := c.entries.isEmpty

/-- The entry of a key. -/
def entry? (c : TtlCache κ ν) (key : κ) : Option (CacheEntry ν) := c.entries.lookup key

/-- The cache without the entry of a key. -/
def erase (c : TtlCache κ ν) (key : κ) : TtlCache κ ν :=
  { c with entries := c.entries.filter fun e => !(e.1 == key) }

/-- The fresh value of a key, and the cache after the look-up: a stale entry is dropped. -/
def get (c : TtlCache κ ν) (now : Moment) (key : κ) : Option ν × TtlCache κ ν :=
  match c.entry? key with
  | some e => if e.isFresh now then (some e.value, c) else (none, c.erase key)
  | none => (none, c)

/-- The cache with a value for a key in the place of any other, if there is a moment at which the
value goes stale. -/
def insert? (c : TtlCache κ ν) (now : Moment) (key : κ) (value : ν) : Option (TtlCache κ ν) :=
  (now.after? c.ttl).map fun expires =>
    { c with entries := (key, ⟨value, expires⟩) :: (c.erase key).entries }

/-- Whether there was an entry of a key, and the cache without it. -/
def invalidate (c : TtlCache κ ν) (key : κ) : Bool × TtlCache κ ν :=
  ((c.entry? key).isSome, c.erase key)

/-- The cache without its entries. -/
def clear (c : TtlCache κ ν) : TtlCache κ ν := { c with entries := [] }

/-- The cache without its stale entries. -/
def purge (c : TtlCache κ ν) (now : Moment) : TtlCache κ ν :=
  { c with entries := c.entries.filter fun e => e.2.isFresh now }

/-- The cache as shown to a reader. -/
def text (c : TtlCache κ ν) : String := "TtlCache \x7b ttl: " ++ c.ttl.text ++ ", .. \x7d"

end TtlCache

end QueryGate
