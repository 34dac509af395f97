import QueryGate.AllowListSource

namespace QueryGate

/-!
# Look-ups in flight

Look-ups of a cached source that are made at the same time. A look-up asks the cache in one step,
gets the answer of the source behind in another, and keeps it in a third. Anything may happen between
them.
-/

/-- How far a look-up of a data source has come. -/
inductive SourceCall (ε : Type) where
  /-- The cache has no answer. -/
  | missed (name : String)
  /-- The source behind has answered. -/
  | fetched (name : String) (a : AllowList)
  /-- It has ended with an answer; none where the clock has run out of moments. -/
  | answered (name : String) (answer : Option (Except ε AllowList))

/-- What can happen. Look-ups are told apart by numbers. -/
inductive SourceAction (ε : Type) where
  /-- A look-up asks the cache. -/
  | start (call : Nat) (name : String)
  /-- A look-up gets the answer of the source behind. -/
  | fetch (call : Nat)
  /-- A look-up keeps the answer that it got and ends. -/
  | finish (call : Nat)
  | invalidate (name : String)
  | clear
  | advance (d : Duration)
  /-- The source behind answers otherwise from now on. -/
  | change (other : String → Except ε AllowList)

/-- A cached source, the source behind it, and the look-ups. -/
structure SourceCalls (ε : Type) where
  clock : Clock
  other : String → Except ε AllowList
  cached : CachedSource
  calls : Nat → Option (SourceCall ε)

namespace SourceCalls

variable {ε : Type}

/-- A memory of nothing, for a time, on a clock that is made at a moment, before any look-up. -/
def initial (made : Moment) (ttl : Duration) (other : String → Except ε AllowList) : SourceCalls ε :=
  ⟨.start made, other, .empty ttl, fun _ => none⟩

/-- A look-up comes further and leaves a memory. -/
def put (s : SourceCalls ε) (call : Nat) (c : SourceCall ε) (cached : CachedSource) : SourceCalls ε :=
  { s with cached, calls := fun k => if k = call then some c else s.calls k }

/-- One action. For a look-up that has not come to the point of an action, or is past it, nothing
happens. -/
def step (s : SourceCalls ε) : SourceAction ε → SourceCalls ε
  | .start call name =>
    match s.calls call, s.clock.now? with
    | some _, _ => s
    | none, none => s.put call (.answered name none) s.cached
    | none, some now =>
      match s.cached.remembered now name with
      | (some a, cached) => s.put call (.answered name (some (.ok a))) cached
      | (none, cached) => s.put call (.missed name) cached
  | .fetch call =>
    match s.calls call with
    | some (.missed name) =>
      match s.other name with
      | .ok a => s.put call (.fetched name a) s.cached
      | .error e => s.put call (.answered name (some (.error e))) s.cached
    | _ => s
  | .finish call =>
    match s.calls call with
    | some (.fetched name a) =>
      match s.clock.now?.bind fun now => s.cached.remember? now name a with
      | some cached => s.put call (.answered name (some (.ok a))) cached
      | none => s.put call (.answered name none) s.cached
    | _ => s
  | .invalidate name => { s with cached := (s.cached.invalidate name).value }
  | .clear => { s with cached := s.cached.clear }
  | .advance d => { s with clock := (s.clock.advance? d).getD s.clock }
  | .change other => { s with other }

/-- What a run leaves. -/
def run (s : SourceCalls ε) (actions : List (SourceAction ε)) : SourceCalls ε :=
  actions.foldl step s

end SourceCalls

end QueryGate
