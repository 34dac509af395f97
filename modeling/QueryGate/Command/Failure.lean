import QueryGate.Executor

namespace QueryGate

/-!
# Failures of commands

A command fails for a reason, which may have a chain of causes. The report names the reason on its
first line and lists the causes below it, with numbers if there are several.
-/

/-- Why a command fails, and the causes of that, each brought about by the next one. -/
structure Failure where
  reason : String
  causes : List String
deriving DecidableEq, Repr

namespace Failure

/-- The failure to do something, for a reason with causes. -/
def toDo (task : String) (chain : List String) : Failure := ⟨task, chain⟩

/-- Settings that no gate can be built from. -/
def ofGateSettings (e : SettingsError) : Failure := ⟨e.gateMessage, e.message :: e.causes⟩

/-- A statement without an output. -/
def ofExecution (e : ExecutionError) : Failure := ⟨e.message, e.causes⟩

/-- A cause, with its lines below one another. -/
def causeText (number : Option Nat) (cause : String) : String :=
  match number with
  | some n => String.ofList ((toString n).toList.leftpad 5 ' ') ++ ": " ++ cause.replace "\n" "\n       "
  | none => "    " ++ cause.replace "\n" "\n    "

/-- The causes, one below the other. -/
def causesText : List String → String
  | [] => ""
  | [cause] => "\n\nCaused by:\n" ++ causeText none cause
  | causes =>
    let numbered := causes.zipIdx.map fun (cause, n) => causeText (some n) cause
    "\n\nCaused by:\n" ++ "\n".intercalate numbered

/-- The report. -/
def text (f : Failure) : String := "Error: " ++ f.reason ++ causesText f.causes ++ "\n"

end Failure

end QueryGate
