import QueryGate.AllowList
import QueryGate.Event
import QueryGate.Settings
import QueryGate.TtlCache

namespace QueryGate

/-!
# Sources of allow-lists

A source answers which tables may be read in a data source, or fails. `CachedSource` remembers the
answers of another source for a while, but never a failure. A look-up has three steps: `remembered`
asks the cache, the other source answers, and `remember?` keeps the answer.
-/

/-- Allow-lists by the names of data sources. -/
structure FixedSource where
  lists : List (String × AllowList)
deriving DecidableEq, Repr

/-- A data source without an allow-list. -/
structure UnknownSource where
  name : String
deriving DecidableEq, Repr

/-- The text of the error. -/
def UnknownSource.message (e : UnknownSource) : String := "unknown data source '" ++ e.name ++ "'"

namespace FixedSource

/-- The source that knows nothing. -/
def empty : FixedSource := ⟨[]⟩

/-- The source with an allow-list for a name in the place of any other. -/
def put (s : FixedSource) (name : String) (a : AllowList) : FixedSource :=
  ⟨(name, a) :: s.lists.filter fun e => !(e.1 == name)⟩

/-- The allow-list of a data source. -/
def allowedTables (s : FixedSource) (name : String) : Except UnknownSource AllowList :=
  match s.lists.lookup name with
  | some a => .ok a
  | none => .error ⟨name⟩

end FixedSource

/-- A memory of the answers of another source. -/
structure CachedSource where
  cache : TtlCache String AllowList
deriving Repr

/-- How a look-up ends. -/
structure LookupResult (ε : Type) where
  /-- The memory afterwards. -/
  source : CachedSource
  /-- Whether the other source was asked. -/
  asked : Bool
  /-- The answer; none where the clock has run out of moments. -/
  answer : Option (Except ε AllowList)

namespace CachedSource

/-- A memory of nothing, for a time. -/
def empty (ttl : Duration) : CachedSource := ⟨.empty ttl⟩

/-- A memory of nothing with the time of the settings. -/
def ofSettings (s : CacheSettings) : CachedSource := .empty (.ofSeconds s.ttlSeconds)

/-! ### Events -/

/-- An answer was remembered. -/
def hitEvent (name : String) : Event :=
  ⟨.trace, "Allow-list cache hit", [("data_source", .text name)]⟩

/-- An answer was forgotten. -/
def invalidatedEvent (name : String) : Event :=
  ⟨.debug, "Allow-list cache entry invalidated", [("data_source", .text name)]⟩

/-- An answer came from the other source. -/
def refreshedEvent (name : String) (a : AllowList) (ttl : Duration) : Event :=
  ⟨.debug, "Allow-list refreshed",
    [("data_source", .text name), ("tables", .count a.entries.length),
      ("ttl_secs", .count ttl.seconds)]⟩

/-! ### Operations -/

/-- The answer for a data source that is remembered, and the memory after asking it. -/
def remembered (s : CachedSource) (now : Moment) (name : String) : Option AllowList × CachedSource :=
  let (found, cache) := s.cache.get now name
  (found, ⟨cache⟩)

/-- The memory with an answer for a data source. -/
def remember? (s : CachedSource) (now : Moment) (name : String) (a : AllowList) :
    Option CachedSource :=
  (s.cache.insert? now name a).map fun cache => ⟨cache⟩

/-- Answers for a data source: from memory if it is remembered, and otherwise as the other source
does. -/
def lookup (s : CachedSource) (clock : Clock) (other : String → Logged (Except ε AllowList))
    (name : String) : Logged (LookupResult ε) :=
  match clock.now? with
  | none => return ⟨s, false, none⟩
  | some now =>
    match s.remembered now name with
    | (some a, s) => do
      .report (hitEvent name)
      return ⟨s, false, some (.ok a)⟩
    | (none, s) => do
      match ← other name with
      | .error e => return ⟨s, true, some (.error e)⟩
      | .ok a =>
        .report (refreshedEvent name a s.cache.ttl)
        match s.remember? now name a with
        | some s => return ⟨s, true, some (.ok a)⟩
        | none => return ⟨s, true, none⟩

/-- Forgets the answer for a data source. -/
def invalidate (s : CachedSource) (name : String) : Logged CachedSource :=
  match s.cache.invalidate name with
  | (true, cache) => do
    .report (invalidatedEvent name)
    return ⟨cache⟩
  | (false, cache) => return ⟨cache⟩

/-- Forgets all answers. -/
def clear (s : CachedSource) : CachedSource := ⟨s.cache.clear⟩

/-- The memory as shown to a reader. -/
def text (s : CachedSource) : String := "CachedSchemaSource \x7b cache: " ++ s.cache.text ++ ", .. \x7d"

end CachedSource

end QueryGate
