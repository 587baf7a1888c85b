import Registrar.Text.Numeral
import Registrar.Text.Split
/-!
Command lines: words read against a layout of flags, places and further commands. What goes wrong
first from left to right is reported, except that the value of a flag is looked at only when a later
word needs it out of the way.
-/
set_option autoImplicit false

namespace Registrar

inductive UsageError where
  | help (about : String)
  | noCommand (about : String)
  | missingCommand (program : String)
  | unknownCommand (word : String)
  | unexpected (arg : String)
  | missingArguments
  | missingValue (flag : String)
  | badValue (value flag : String) (fault : Numeral.Fault)
  | repeated (flag : String)
  | surplusValue (value flag : String)
  deriving DecidableEq, Repr

/-- The first line of what is printed, which is all that the modelled outputs show of it; a shell
prints the further lines, with hints and the usage, as well. -/
def UsageError.message : UsageError → String
  | .help about | .noCommand about => about
  | .missingCommand program =>
    "error: '" ++ program ++ "' requires a subcommand but one was not provided"
  | .unknownCommand word => "error: unrecognized subcommand '" ++ word ++ "'"
  | .unexpected arg => "error: unexpected argument '" ++ arg ++ "' found"
  | .missingArguments => "error: the following required arguments were not provided:"
  | .missingValue flag => "error: a value is required for '" ++ flag ++ "' but none was supplied"
  | .badValue value flag fault =>
    "error: invalid value '" ++ value ++ "' for '" ++ flag ++ "': " ++ fault.message
  | .repeated flag => "error: the argument '" ++ flag ++ "' cannot be used multiple times"
  | .surplusValue value flag =>
    "error: unexpected value '" ++ value ++ "' for '" ++ flag ++ "' found; no more were expected"

namespace Usage

/-- A flag takes one value, a counting flag a number. -/
structure Flag where
  name : String
  placeholder : String
  counting : Bool
  deriving DecidableEq, Repr

def Flag.shown (f : Flag) : String := "--" ++ f.name ++ " <" ++ f.placeholder ++ ">"

/-- What the words of a command can be. A command that has further commands, each with what it is
about, has no places. -/
structure Layout where
  about : String
  flags : List Flag
  places : Nat
  commands : List (String × String)
  deriving Repr

def Layout.hasCommand (l : Layout) (word : String) : Bool := l.commands.any (·.1 == word)

/-- How far the reading has come. A pending flag has its value, or waits for it. -/
structure Reading where
  given : List (String × String)
  pending : Option (Flag × Option String)
  trailing : Bool
  places : List String
  deriving Repr

def Reading.start : Reading := ⟨[], none, false, []⟩

def commit (r : Reading) (f : Flag) (value : String) : Except UsageError Reading :=
  if r.given.any (·.1 == f.name) then .error (.repeated f.shown)
  else
    let taken := { r with given := r.given ++ [(f.name, value)], pending := none }
    if f.counting then
      match Numeral.nat64 value.toList with
      | .ok _ => .ok taken
      | .error fault => .error (.badValue value f.shown fault)
    else .ok taken

/-- Gets the pending flag out of the way. -/
def resolve (r : Reading) : Except UsageError Reading :=
  match r.pending with
  | none => .ok r
  | some (f, none) => .error (.missingValue f.shown)
  | some (f, some value) => commit r f value

def Reading.expecting (r : Reading) : Bool := r.pending.any (·.2.isNone)

/-- A word after two dashes: a name, and a value if an equals sign follows it. -/
def splitLong (cs : List Char) : String × Option String :=
  let (name, value) := cut (· == '=') cs
  (String.ofList name, value.map String.ofList)

def readLong (l : Layout) (r : Reading) (cs : List Char) : Except UsageError Reading :=
  match splitLong cs with
  | ("help", some value) => .error (.surplusValue value "--help")
  | ("help", none) => resolve r >>= fun _ => .error (.help l.about)
  | (name, value) =>
    match l.flags.find? (·.name == name) with
    | none => .error (.unexpected ("--" ++ name))
    | some f => do
      let r ← resolve r
      match value with
      | some v => commit r f v
      | none => .ok { r with pending := some (f, none) }

def readShort (l : Layout) (r : Reading) : List Char → Except UsageError Reading
  | 'h' :: _ => resolve r >>= fun _ => .error (.help l.about)
  | c :: _ => .error (.unexpected (String.ofList ['-', c]))
  | [] => .ok r

def readPlain (l : Layout) (r : Reading) (word : String) : Except UsageError Reading :=
  if r.places.length < l.places then do
    let r ← resolve r
    .ok { r with places := r.places ++ [word] }
  else if l.commands = [] then .error (.unexpected word)
  else if r.trailing ∧ l.hasCommand word then .error (.unexpected word)
  else .error (.unknownCommand word)

def readWord (l : Layout) (r : Reading) (word : String) : Except UsageError Reading :=
  if r.trailing then readPlain l r word
  else match word.toList with
    | ['-', '-'] => .ok { r with trailing := true }
    | '-' :: '-' :: cs => readLong l r cs
    | '-' :: c :: cs => readShort l r (c :: cs)
    | _ =>
      match r.pending with
      | some (f, none) => .ok { r with pending := some (f, some word) }
      | _ => readPlain l r word

/-- The help command names a command in turn, and its commands have none of their own. -/
def readHelp (l : Layout) : List String → UsageError
  | [] => .help l.about
  | word :: rest =>
    match l.commands.lookup word, rest with
    | none, _ => .unknownCommand word
    | some about, [] => .help about
    | some _, next :: _ => .unknownCommand next

def readFrom (l : Layout) (r : Reading) :
    List String → Except UsageError (Reading × Option (String × List String))
  | [] => .ok (r, none)
  | word :: rest =>
    if ¬ r.trailing ∧ ¬ r.expecting ∧ l.hasCommand word then
      if word = "help" then .error (readHelp l rest) else .ok (r, some (word, rest))
    else do
      let r ← readWord l r word
      readFrom l r rest

end Usage

end Registrar
