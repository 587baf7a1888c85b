import Registrar.Scenario.Saved
import Registrar.Server
/-!
Sessions with a server: commands in words, given one after another, with looks at the server and
changes of its state in between.
-/
set_option autoImplicit false

namespace Registrar.Scenario

/-- The words may refer to what earlier commands gave. -/
inductive Move where
  | command (words : List String) (save : Option String)
  | advance (length : Span)
  | shutdown
  | look

/-- What a look at the server shows: a new request's context, and the server's own state. -/
structure View where
  timeLeft : Option Span
  cancelled : Bool
  shutdown : Bool
  isLocal : Bool
  deriving DecidableEq, Repr

inductive Response where
  | output (o : Output)
  | refused (r : Refusal)
  | usage (e : UsageError)
  | view (v : View)
  | done
  | crashed
  deriving Repr

def outputFields (o : Output) : List (String × String) :=
  match o.json with
  | .object fields => fields.filterMap fun (name, j) => j.text?.map (name, ·)
  | _ => []

structure Session where
  server : Server
  saved : Saved

namespace Session

def answer (m : Session) (save : Option String) :
    Ending (Except Refusal Output) × Server → Response × Session
  | (.finished (.ok o), s) => (.output o, ⟨s, Saved.keep m.saved save (outputFields o)⟩)
  | (.finished (.error r), s) => (.refused r, ⟨s, m.saved⟩)
  | (.crashed, s) | (.dropped, s) => (.crashed, ⟨s, m.saved⟩)

def look (m : Session) : Response × Session :=
  match m.server.requestContext? with
  | none => (.crashed, m)
  | some (ctx, s) =>
    (.view {
      timeLeft := ctx.deadline.map (· - s.backend.now)
      cancelled := ctx.isCancelled s.backend.signals
      shutdown := s.isShutdown
      isLocal := s.isLocal }, { m with server := s })

def play (m : Session) : Move → Response × Session
  | .command words save =>
    match Command.ofWords (words.map (Saved.fill m.saved)) with
    | .error e => (.usage e, m)
    | .ok c => m.answer save (m.server.execute c)
  | .advance length => (.done, { m with server := m.server.advance length })
  | .shutdown => (.done, { m with server := m.server.shutdown })
  | .look => m.look

def playAll (m : Session) : List Move → List Response × Session
  | [] => ([], m)
  | move :: rest =>
    let (r, m) := m.play move
    let (rs, m) := m.playAll rest
    (r :: rs, m)

end Session

end Registrar.Scenario
