import Registrar.Account
import Registrar.Backend
import Registrar.Command
import Registrar.Text.Quoted
import Registrar.Time.Stamp
/-!
The server: carries out commands, one request after another. A batch of identifiers is as many
requests at once.
-/
set_option autoImplicit false

namespace Registrar

inductive StartError where
  | backend (e : BackendError)
  | unknownCodec (name : String)
  | terms (e : TermsError)
  deriving DecidableEq, Repr

def StartError.message : StartError → String
  | .backend e => e.message
  | .unknownCodec name => "Unknown token codec: " ++ name
  | .terms e => e.message

inductive Output where
  | registered (subject : Subject)
  | pair (p : TokenPair)
  | verified (access : Access)
  | loggedOut
  | identifiers (ids : List Identifier)
  deriving Repr

/-- Fields in the order of their names. -/
def Output.json : Output → Json
  | .registered subject => .object [("subject", subject.json)]
  | .pair p => .object
    [("access_expires_at", .text p.accessExpiry.text), ("access_id", .text p.accessId),
      ("access_token", .text p.accessToken), ("refresh_expires_at", .text p.refreshExpiry.text),
      ("refresh_id", .text p.refreshId), ("refresh_token", .text p.refreshToken)]
  | .verified access => .object [("access_id", .text access.accessId), ("subject", access.subject.json)]
  | .loggedOut => .object [("logged_out", .bool true)]
  | .identifiers ids => .object [("ids", .list (ids.map fun i => .text i.text))]

inductive Refusal where
  | account (e : AccountError)
  | badDay (day : String) (fault : StampFault)
  | nestedShell
  deriving DecidableEq, Repr

def Refusal.message : Refusal → String
  | .account e => e.message
  | .badDay day fault => "invalid day " ++ Quoted.text day ++ ": " ++ fault.message
  | .nestedShell => "already in a shell"

/-- Each request has a context of its own under the root. -/
structure Server where
  backend : Backend
  accounts : Accounts
  root : Context
  timeout : Span

namespace Server

def allocatorFor (s : Settings) : Allocator :=
  { Allocator.standard with lockName := s.sequence.lockName, stem := s.sequence.stem }

def ofBackend (s : Settings) (b : Backend) : Except StartError Server :=
  if s.auth.codec = "fake" then
    match Terms.of (.ofSecs s.auth.accessSecs.toNat) (.ofSecs s.auth.refreshSecs.toNat) with
    | .error e => .error (.terms e)
    | .ok terms =>
      let (root, signals) := Context.background b.signals
      .ok ⟨b.withSignals signals, ⟨allocatorFor s, terms⟩, root, .ofMillis s.timeout.toNat⟩
  else .error (.unknownCodec s.auth.codec)

/-- A server, and the requests that a Redis server has had from it so far. -/
def start (s : Settings) (site : Site) : Except StartError Server × List Redis.Request :=
  match Backend.start s site with
  | (.ok b, sent) => (ofBackend s b, sent)
  | (.error e, sent) => (.error (.backend e), sent)

def isLocal (s : Server) : Bool := s.backend.isLocal

def underRequest {α : Type} (s : Server) (f : Context → Flow α) : Flow α :=
  .request s.root s.timeout f

def request {α : Type} (s : Server) (give : α → Output) (f : Context → AccountFlow α) :
    Ending (Except Refusal Output) × Server :=
  match s.backend.run [s.underRequest fun ctx => (f ctx).run] with
  | (.finished (.ok a) :: _, b) => (.finished (.ok (give a)), { s with backend := b })
  | (.finished (.error e) :: _, b) => (.finished (.error (.account e)), { s with backend := b })
  | (.crashed :: _, b) => (.crashed, { s with backend := b })
  | (_, b) => (.dropped, { s with backend := b })

def gather : List (Ending (Except AllocError Identifier)) → Option (List Identifier)
  | [] => some []
  | .finished (.ok i) :: rest => (gather rest).map (i :: ·)
  | _ :: _ => none

/-- A batch of this size or more does not fit into memory. -/
def batchLimit : Nat := 576460752303423488

/-- As many identifiers at once for one day. -/
def allocateMany (s : Server) (day : Day) (count : Nat) :
    Ending (Except AccountError (List Identifier)) × Server :=
  if count < batchLimit then
    let one := s.underRequest fun ctx => s.accounts.allocator.allocate ctx day
    let (es, b) := s.backend.run (List.replicate count one)
    (.finished (match gather es with
      | some ids => .ok (Identifier.sort ids)
      | none => .error .internal), { s with backend := b })
  else (.crashed, s)

def batch (s : Server) (day : Day) (count : Nat) : Ending (Except Refusal Output) × Server :=
  match s.allocateMany day count with
  | (.finished (.ok ids), s) => (.finished (.ok (.identifiers ids)), s)
  | (.finished (.error e), s) => (.finished (.error (.account e)), s)
  | (.crashed, s) => (.crashed, s)
  | (.dropped, s) => (.dropped, s)

def execute (s : Server) : Command → Ending (Except Refusal Output) × Server
  | .register => s.request .registered s.accounts.register
  | .login subject => s.request .pair fun ctx => s.accounts.login ctx ⟨subject⟩
  | .verify token => s.request .verified fun ctx => Accounts.authenticate ctx token
  | .logout token => s.request (fun _ => .loggedOut) fun ctx => Accounts.logout ctx token
  | .refresh token => s.request .pair fun ctx => s.accounts.refresh ctx token
  | .allocate count none =>
    match s.backend.clock.today? with
    | some day => s.batch day count
    | none => (.crashed, s)
  | .allocate count (some text) =>
    match Day.ofStamp text with
    | .ok day => s.batch day count
    | .error fault => (.finished (.error (.badDay text fault)), s)
  | .shell => (.finished (.error .nestedShell), s)

/-- Cancels the root and with it every request, those to come as well. -/
def shutdown (s : Server) : Server :=
  { s with backend := s.backend.withSignals (s.root.cancel s.backend.signals) }

def isShutdown (s : Server) : Bool := s.root.isCancelled s.backend.signals

/-- A context as a request would get it now, if the clock can hold its deadline. -/
def requestContext? (s : Server) : Option (Context × Server) :=
  (s.root.child s.backend.signals s.backend.now s.timeout).map fun (ctx, signals) =>
    (ctx, { s with backend := s.backend.withSignals signals })

def advance (s : Server) (d : Span) : Server := { s with backend := s.backend.advance d }

end Server

end Registrar
