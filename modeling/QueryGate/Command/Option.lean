import QueryGate.Dialect
import QueryGate.Text.Count

namespace QueryGate

/-!
# Options of the command line

An option has a long name, and some have a letter. Flags stand alone; the value of any other option
follows an equals sign or is the next argument, which must not look like an option itself. The
letters of flags may be joined, and a value may follow its letter at once.
-/

/-- An option of the command line. -/
inductive CommandOption where
  | config
  | verbose
  | help
  | version
  | dialect
  | maxRows
  | defaultSchema
  | allowTrailingSemicolon
  | tables
  | json
  | schema
  | sql
  | file
deriving DecidableEq, Repr

namespace CommandOption

/-- The name after two dashes. -/
def name : CommandOption → String
  | config => "config"
  | verbose => "verbose"
  | help => "help"
  | version => "version"
  | dialect => "dialect"
  | maxRows => "max-rows"
  | defaultSchema => "default-schema"
  | allowTrailingSemicolon => "allow-trailing-semicolon"
  | tables => "tables"
  | json => "json"
  | schema => "schema"
  | sql => "sql"
  | file => "file"

/-- The letter after one dash. -/
def letter? : CommandOption → Option Char
  | config => some 'c'
  | verbose => some 'v'
  | help => some 'h'
  | version => some 'V'
  | _ => none

/-- Whether the option stands alone. -/
def isFlag : CommandOption → Bool
  | verbose | help | version | allowTrailingSemicolon | json => true
  | _ => false

/-- Whether the option may be given more than once. -/
def repeats : CommandOption → Bool
  | tables => true
  | _ => false

/-- The count of a text, which may have a plus sign. -/
def count? (value : String) : Option Nat :=
  match value.toList with
  | '+' :: digits => Text.readCount? (String.ofList digits)
  | _ => Text.readCount? value

/-- Whether a value can be read: paths are not empty, dialects are known, and counts have 64
bits. -/
def admits (o : CommandOption) (value : String) : Bool :=
  match o with
  | config | file => !value.isEmpty
  | dialect => (Dialect.read value).isOk
  | maxRows => (count? value).isSome
  | _ => true

end CommandOption

/-- What a command line asks for in the place of a command. -/
inductive Interruption where
  | help
  | version
  /-- The arguments make no sense. -/
  | misuse
deriving DecidableEq, Repr

/-- The options that were given, in order and with their values. -/
abbrev GivenOptions := List (CommandOption × String)

namespace GivenOptions

/-- The value of an option. -/
def value? (given : GivenOptions) (o : CommandOption) : Option String := given.lookup o

/-- Whether an option was given. -/
def has (given : GivenOptions) (o : CommandOption) : Bool := (given.value? o).isSome

/-- All values of an option. -/
def values (given : GivenOptions) (o : CommandOption) : List String :=
  (given.filter fun g => g.1 == o).map (·.2)

/-- Adds an option. -/
def give (given : GivenOptions) (o : CommandOption) (value : String) :
    Except Interruption GivenOptions :=
  match o with
  | .help => .error .help
  | .version => .error .version
  | o =>
    if (given.has o && !o.repeats) || !o.admits value then .error .misuse
    else .ok (given ++ [(o, value)])

/-- Adds the options of joined letters. Also gives the option that still lacks its value. -/
def giveLetters (known : List CommandOption) (given : GivenOptions) :
    List Char → Except Interruption (GivenOptions × Option CommandOption)
  | [] => .ok (given, none)
  | c :: rest =>
    match known.find? fun o => o.letter? == some c with
    | none => .error .misuse
    | some o =>
      if o.isFlag then do
        giveLetters known (← given.give o "") rest
      else
        match rest with
        | [] => .ok (given, some o)
        | '=' :: value => return (← given.give o (String.ofList value), none)
        | value => return (← given.give o (String.ofList value), none)

/-- Adds the option of a long name, with a value if there is an equals sign. Also gives the option
that still lacks its value. -/
def giveLong (known : List CommandOption) (given : GivenOptions) (cs : List Char) :
    Except Interruption (GivenOptions × Option CommandOption) :=
  match known.find? fun o => o.name.toList == cs.takeWhile (· != '=') with
  | none => .error .misuse
  | some o =>
    match o.isFlag, cs.dropWhile (· != '=') with
    | true, [] => return (← given.give o "", none)
    | true, _ :: _ => .error .misuse
    | false, [] => .ok (given, some o)
    | false, _ :: value => return (← given.give o (String.ofList value), none)

/-- Whether an argument looks like an option. -/
def looksLikeOption : List Char → Bool
  | '-' :: _ :: _ => true
  | _ => false

/-- Reads options up to the first word that is none. `waiting` is the option whose value comes
next. Also gives that word and what follows it. -/
def read (known : List CommandOption) (given : GivenOptions) (waiting : Option CommandOption) :
    List String → Except Interruption (GivenOptions × Option (String × List String))
  | [] => if waiting.isSome then .error .misuse else .ok (given, none)
  | argument :: rest =>
    let cs := argument.toList
    match waiting, cs with
    | some o, cs =>
      if looksLikeOption cs then .error .misuse
      else do
        read known (← given.give o argument) none rest
    | none, ['-', '-'] => if rest.isEmpty then .ok (given, none) else .error .misuse
    | none, '-' :: '-' :: name => do
      let (given, waiting) ← giveLong known given name
      read known given waiting rest
    | none, '-' :: c :: cs => do
      let (given, waiting) ← giveLetters known given (c :: cs)
      read known given waiting rest
    | none, _ => .ok (given, some (argument, rest))

end GivenOptions

end QueryGate
