import Registrar.Server
import Registrar.Text.Utf8
/-!
The shell: one command on each line, all for one server. Each line that is not blank is answered by
one line of JSON.
-/
set_option autoImplicit false

namespace Registrar.Shell

/-- Lines of bytes with their ends; the last one may lack its end. -/
def splitLines (acc : List UInt8) : List UInt8 → List (List UInt8)
  | [] => if acc = [] then [] else [acc.reverse]
  | b :: bs => if b = 10 then (b :: acc).reverse :: splitLines [] bs else splitLines (b :: acc) bs

def errorJson (message : String) : Json := .object [("error", .text message)]

/-- What is printed for a command that was carried out, and nothing if it crashed. -/
def answerTo : Ending (Except Refusal Output) → Option Json
  | .finished (.ok o) => some o.json
  | .finished (.error r) => some (errorJson r.message)
  | .crashed | .dropped => none

def respond (s : Server) (words : List String) : Option Json × Server :=
  match Command.ofWords words with
  | .error e => (some (errorJson e.message), s)
  | .ok c =>
    let (e, s) := s.execute c
    (answerTo e, s)

inductive Finish where
  | atEnd
  | badText (fault : Utf8.Fault)
  | crashed
  deriving DecidableEq, Repr

/-- The answers to lines in order, how the shell ended, and the server as it is left. -/
def runLines (s : Server) : List (List UInt8) → List Json × Finish × Server
  | [] => ([], .atEnd, s.shutdown)
  | line :: rest =>
    match Utf8.decode line with
    | .error fault => ([], .badText fault, s)
    | .ok text =>
      match words text with
      | [] => runLines s rest
      | ws =>
        match respond s ws with
        | (none, s) => ([], .crashed, s)
        | (some j, s) =>
          let (js, finish, s) := runLines s rest
          (j :: js, finish, s)

def run (s : Server) (input : List UInt8) : List Json × Finish × Server :=
  runLines s (splitLines [] input)

end Registrar.Shell
