import QueryGate.Command

/-!
# The command line

Reads the arguments, the files and the environment, and writes the two output streams. There is no
database within reach.
-/

open QueryGate

/-- What is at a path now. -/
def fileAt (path : String) : IO FileState := do
  try
    return .readable (← IO.FS.readFile path)
  catch
    | .noFileOrDirectory .. => return .absent
    | e => return .unreadable (toString e)

/-- The paths that a command line may read. -/
def pathsOf (configured : Option String) (arguments : List String) : List String :=
  match Invocation.ofArguments configured arguments with
  | .error _ => []
  | .ok i =>
    let source := match i.command with
      | .check _ _ _ (.file path) | .limit _ (.file path) | .run _ _ (.file path) => [path]
      | _ => []
    i.config.getD defaultConfig :: source

/-- The variables that a command line may read: the two that are always read, and the one that the
settings name. -/
def variablesOf (files : List (String × FileState)) : List String :=
  configVariable :: files.filterMap fun (_, state) =>
    match settingsOf state.text with
    | .ok s => s.connection.credentialsVariable
    | .error _ => none

/-- An event on one line. -/
def eventLine (e : Event) : String :=
  let field : String × FieldValue → String
    | (name, .text s) => s!" {name}={s}"
    | (name, .count n) => s!" {name}={n}"
    | (name, .flag b) => s!" {name}={b}"
  s!"{e.level.name} {e.message}" ++ String.join (e.fields.map field)

/-- Whether an event is written. -/
def isWritten (verbose : Bool) (e : Event) : Bool :=
  match e.level with
  | .trace => false
  | .debug => verbose
  | _ => true

def main (arguments : List String) : IO UInt32 := do
  let configured ← IO.getEnv configVariable
  let files ← (pathsOf configured arguments).mapM fun path => return (path, ← fileAt path)
  let known ← (variablesOf files).mapM fun name => return (name, ← IO.getEnv name)
  let surroundings : Surroundings :=
    { file := fun path => (files.lookup path).getD .absent
      environment := fun name => (known.lookup name).join
      network := fun _ => .error .noConnection
      now := ⟨← IO.monoNanosNow⟩ }
  let ending := runArguments surroundings arguments
  let verbose := match Invocation.ofArguments configured arguments with
    | .ok i => i.verbose
    | .error _ => false
  for e in ending.events do
    if isWritten verbose e then IO.eprintln (eventLine e)
  IO.print ending.value.stdout
  IO.eprint ending.value.stderr
  return ending.value.status.toUInt32
