import Registrar.LogFilter
import Registrar.Settings.File
import Registrar.Shell
import Registrar.Text.Split
set_option autoImplicit false

namespace Registrar.Program

/-- What a run finds: its own name, the files around it and what it can read. -/
structure Scene where
  program : String
  files : Files
  site : Site
  input : List UInt8

/-- How a run ends: an exit code, what was written on the way, and what was written about errors. -/
structure Run where
  code : Nat
  output : List String
  errors : List String
  deriving DecidableEq, Repr

def success : Nat := 0
def failureCode : Nat := 1
def usageCode : Nat := 2
def crashCode : Nat := 101

def lines (s : String) : List String := (stretches (· == '\n') s.toList).map String.ofList

def fail (output : List String) (message : String) : Run :=
  ⟨failureCode, output, lines ("Error: " ++ message)⟩

def misused : UsageError → Run
  | .help about => ⟨success, lines about, []⟩
  | e => ⟨usageCode, [], lines e.message⟩

def forgets : String :=
  "the memory backend forgets tokens when the process exits; " ++
    "use the \x60shell\x60 command or the redis backend"

def runCommand (s : Server) (c : Command) : Run :=
  if c.needsEarlierState && s.isLocal then fail [] forgets
  else match (s.execute c).1 with
    | .finished (.ok o) => ⟨success, lines o.json.pretty, []⟩
    | .finished (.error r) => fail [] r.message
    | .crashed | .dropped => ⟨crashCode, [], []⟩

def runShell (s : Server) (input : List UInt8) : Run :=
  let (answers, finish, _) := Shell.run s input
  let output := answers.map Json.compact
  match finish with
  | .atEnd => ⟨success, output, []⟩
  | .badText fault => fail output fault.message
  | .crashed => ⟨crashCode, output, []⟩

def runInvocation (scene : Scene) (i : Invocation) : Run :=
  match Settings.load scene.files (i.settings.getD Settings.standardName) with
  | .error e => fail [] e.message
  | .ok settings =>
    match LogFilter.fault? settings.logFilter with
    | some fault => fail [] fault.message
    | none =>
      match (Server.start settings scene.site).1 with
      | .error e => fail [] e.message
      | .ok s => if i.command = .shell then runShell s scene.input else runCommand s i.command

/-- A run of the program with the words it is given. -/
def run (scene : Scene) (words : List String) : Run :=
  match Invocation.ofWords scene.program words with
  | .error e => misused e
  | .ok i => runInvocation scene i

end Registrar.Program
