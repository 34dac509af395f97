import QueryGate.TtlCache

namespace QueryGate

/-!
# Caches on one clock

Caches that go by one clock, and what can be done with them step after step. A step for which a time
does not fit has no effect.
-/

/-- What can be done with caches on one clock. -/
inductive CacheStep (n : Nat) (κ ν : Type) where
  | insert (cache : Fin n) (key : κ) (value : ν)
  | get (cache : Fin n) (key : κ)
  | invalidate (cache : Fin n) (key : κ)
  | clear (cache : Fin n)
  | purge (cache : Fin n)
  | size (cache : Fin n)
  | advance (d : Duration)
deriving DecidableEq, Repr

/-- What a step answers. -/
inductive CacheAnswer (ν : Type) where
  | done
  | hit (value : ν)
  | miss
  | found (present : Bool)
  | count (entries : Nat)
  /-- A time does not fit. -/
  | overflow
deriving DecidableEq, Repr

/-- A clock, and the caches that go by it. -/
structure CacheSession (n : Nat) (κ ν : Type) where
  clock : Clock
  caches : Vector (TtlCache κ ν) n

namespace CacheSession

variable {n : Nat} {κ ν : Type} [BEq κ]

/-- Empty caches on a clock that is made at a moment. -/
def start (made : Moment) (ttls : Vector Duration n) : CacheSession n κ ν :=
  ⟨.start made, ttls.map .empty⟩

/-- The cache at a place. -/
abbrev cache (s : CacheSession n κ ν) (i : Fin n) : TtlCache κ ν := getElem s.caches i i.isLt

/-- The session with another cache in the place of one. -/
def put (s : CacheSession n κ ν) (i : Fin n) (c : TtlCache κ ν) : CacheSession n κ ν :=
  { s with caches := s.caches.set i c i.isLt }

/-- One step: the session after it, and what it answers. -/
def step (s : CacheSession n κ ν) : CacheStep n κ ν → CacheSession n κ ν × CacheAnswer ν
  | .insert i key value =>
    match s.clock.now?.bind fun now => (s.cache i).insert? now key value with
    | some c => (s.put i c, .done)
    | none => (s, .overflow)
  | .get i key =>
    match s.clock.now? with
    | some now =>
      match (s.cache i).get now key with
      | (some v, c) => (s.put i c, .hit v)
      | (none, c) => (s.put i c, .miss)
    | none => (s, .overflow)
  | .invalidate i key =>
    let (present, c) := (s.cache i).invalidate key
    (s.put i c, .found present)
  | .clear i => (s.put i (s.cache i).clear, .done)
  | .purge i =>
    match s.clock.now? with
    | some now => (s.put i ((s.cache i).purge now), .done)
    | none => (s, .overflow)
  | .size i => (s, .count (s.cache i).size)
  | .advance d =>
    match s.clock.advance? d with
    | some clock => ({ s with clock }, .done)
    | none => (s, .overflow)

/-- The session after steps. -/
def run (s : CacheSession n κ ν) (steps : List (CacheStep n κ ν)) : CacheSession n κ ν :=
  steps.foldl (fun s st => (s.step st).1) s

end CacheSession

end QueryGate
