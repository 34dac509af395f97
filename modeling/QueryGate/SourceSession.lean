import QueryGate.AllowListSource

namespace QueryGate

/-!
# A memory of a source that changes

A cached source on a clock, with another source behind it that may change at any time, and what can
be done with them step after step. A step panics if the clock has run out of moments or if the time
that it has run does not fit. Whoever catches the panic finds the session in order and may go on
(`step`, `run`); where nobody does, the session ends there (`step?`, `play`).
-/

/-- What can be done with a cached source, its clock and the source behind it. -/
inductive SourceStep (ε : Type) where
  | lookup (name : String)
  | invalidate (name : String)
  | clear
  | advance (d : Duration)
  /-- The source behind it answers otherwise from now on. -/
  | change (other : String → Logged (Except ε AllowList))

/-- What a step answers. -/
inductive SourceAnswer (ε : Type) where
  | done
  /-- Whether the source behind was asked, and the answer. -/
  | answered (asked : Bool) (answer : Except ε AllowList)
  /-- There is no answer. A look-up may have asked the source behind before it panicked. -/
  | panicked (asked : Bool)

/-- A cached source, its clock, and the source behind it. -/
structure SourceSession (ε : Type) where
  clock : Clock
  other : String → Logged (Except ε AllowList)
  cached : CachedSource

namespace SourceSession

variable {ε : Type}

/-- A source behind a memory of nothing, for a time, on a clock that is made at a moment. -/
def start (made : Moment) (ttl : Duration) (other : String → Logged (Except ε AllowList)) :
    SourceSession ε :=
  ⟨.start made, other, .empty ttl⟩

/-- Looks an allow-list up. -/
def lookup (s : SourceSession ε) (name : String) : Logged (LookupResult ε) :=
  s.cached.lookup s.clock s.other name

/-- One step: the session after it, and what it answers. -/
def step (s : SourceSession ε) : SourceStep ε → Logged (SourceSession ε × SourceAnswer ε)
  | .lookup name => do
    let r ← s.lookup name
    let s := { s with cached := r.source }
    match r.answer with
    | some answer => return (s, .answered r.asked answer)
    | none => return (s, .panicked r.asked)
  | .invalidate name => do
    let cached ← s.cached.invalidate name
    return ({ s with cached }, .done)
  | .clear => return ({ s with cached := s.cached.clear }, .done)
  | .advance d =>
    match s.clock.advance? d with
    | some clock => return ({ s with clock }, .done)
    | none => return (s, .panicked false)
  | .change other => return ({ s with other }, .done)

/-- The session after steps, if every panic is caught. -/
def run (s : SourceSession ε) (steps : List (SourceStep ε)) : SourceSession ε :=
  steps.foldl (fun s st => (s.step st).value.1) s

/-- One step of a session that ends where a step panics: none if it ends. -/
def step? (s : SourceSession ε) (st : SourceStep ε) :
    Logged (Option (SourceSession ε × SourceAnswer ε)) := do
  match ← s.step st with
  | (_, .panicked _) => return none
  | (s, a) => return some (s, a)

/-- What the steps of a session answer that ends where a step panics: none if it ends. -/
def play (s : SourceSession ε) : List (SourceStep ε) → Logged (Option (List (SourceAnswer ε)))
  | [] => return some []
  | st :: steps => do
    match ← s.step? st with
    | none => return none
    | some (s, a) => return (← s.play steps).map (a :: ·)

end SourceSession

end QueryGate
