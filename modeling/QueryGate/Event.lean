namespace QueryGate

/-!
# Log events

What a component reports while it works is data: a computation gives its result together with
the events in the order in which they happened.
-/

/-- How much an event matters. -/
inductive Level where
  | trace
  | debug
  | info
  | warn
  | error
deriving DecidableEq, Repr

/-- The name of a level. -/
def Level.name : Level → String
  | trace => "TRACE"
  | debug => "DEBUG"
  | info => "INFO"
  | warn => "WARN"
  | error => "ERROR"

/-- The value of a field of an event. -/
inductive FieldValue where
  | text (s : String)
  | count (n : Nat)
  | flag (b : Bool)
deriving DecidableEq, Repr

/-- One event. -/
structure Event where
  level : Level
  message : String
  fields : List (String × FieldValue)
deriving DecidableEq, Repr

/-- A result and the events on the way to it. -/
structure Logged (α : Type) where
  value : α
  events : List Event

namespace Logged

/-- A result without events. -/
def silent (a : α) : Logged α := ⟨a, []⟩

/-- Runs one computation after another. -/
def andThen (x : Logged α) (f : α → Logged β) : Logged β :=
  let y := f x.value
  ⟨y.value, x.events ++ y.events⟩

instance : Monad Logged where
  pure := silent
  bind := andThen

/-- One event. -/
def report (e : Event) : Logged Unit := ⟨(), [e]⟩

end Logged

end QueryGate
