import Registrar.Command.Usage
set_option autoImplicit false

namespace Registrar

inductive Command where
  | register
  | login (subject : String)
  | verify (token : String)
  | logout (token : String)
  | refresh (token : String)
  | allocate (count : Nat) (day : Option String)
  | shell
  deriving DecidableEq, Repr

namespace Command

def needsEarlierState : Command → Bool
  | .verify _ | .logout _ | .refresh _ => true
  | _ => false

open Usage

def names : List String :=
  ["register", "login", "verify", "logout", "refresh", "allocate", "shell"]

def place (about : String) : Layout := ⟨about, [], 1, []⟩

def layout : String → Layout
  | "login" => place "Issue a token pair for a subject"
  | "verify" => place "Resolve an access token to its subject"
  | "logout" => place "Revoke the token pair behind an access token"
  | "refresh" => place "Trade a refresh token for a new pair"
  | "allocate" =>
    ⟨"Mint \x60count\x60 identifiers concurrently for a day (YYYYMMDD, default today)",
      [⟨"count", "COUNT", true⟩, ⟨"day", "DAY", false⟩], 0, []⟩
  | "shell" =>
    ⟨"Read commands from stdin, one per line, against a single server", [], 0, []⟩
  | _ => ⟨"Mint a sequential identifier for a new subject", [], 0, []⟩

def catalogue : List (String × String) :=
  names.map (fun name => (name, (layout name).about)) ++
    [("help", "Print this message or the help of the given subcommand(s)")]

def countOf (given : List (String × String)) : Nat :=
  match given.lookup "count" with
  | none => 1
  | some s =>
    match Numeral.nat64 s.toList with
    | .ok n => n
    | .error _ => 1

def build (name : String) (given : List (String × String)) :
    List String → Except UsageError Command
  | [] =>
    match name with
    | "register" => .ok .register
    | "allocate" => .ok (.allocate (countOf given) (given.lookup "day"))
    | "shell" => .ok .shell
    | _ => .error .missingArguments
  | word :: _ =>
    match name with
    | "login" => .ok (.login word)
    | "verify" => .ok (.verify word)
    | "logout" => .ok (.logout word)
    | "refresh" => .ok (.refresh word)
    | _ => .error (.unexpected word)

def ofRest (name : String) (words : List String) : Except UsageError Command := do
  let (r, _) ← readFrom (layout name) .start words
  let r ← resolve r
  build name r.given r.places

/-- A command after the flags that a layout has. Without any word the usage is shown. -/
def under (l : Layout) (program : String) (words : List String) :
    Except UsageError (List (String × String) × Command) := do
  let (r, next) ← readFrom l .start words
  match next with
  | some (name, rest) =>
    let c ← ofRest name rest
    let r ← resolve r
    .ok (r.given, c)
  | none =>
    let r ← resolve r
    .error (if r.given = [] then .noCommand l.about else .missingCommand program)

def shellLayout : Layout where
  about := "One line typed into the shell, parsed without a binary name"
  flags := []
  places := 0
  commands := catalogue

def ofWords (words : List String) : Except UsageError Command :=
  (under shellLayout "" words).map (·.2)

end Command

/-- A run of the program: where its settings are, and what it is to do. -/
structure Invocation where
  settings : Option String
  command : Command
  deriving DecidableEq, Repr

namespace Invocation

open Usage

def layout (program : String) : Layout where
  about := "Usage: " ++ program ++ " [OPTIONS] <COMMAND>"
  flags := [⟨"settings", "SETTINGS", false⟩]
  places := 0
  commands := Command.catalogue

def ofWords (program : String) (words : List String) : Except UsageError Invocation :=
  (Command.under (layout program) program words).map fun (given, c) =>
    ⟨given.lookup "settings", c⟩

end Invocation

end Registrar
