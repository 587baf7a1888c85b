import Registrar.Redis.Address
import Registrar.Redis.Link
import Registrar.Settings
/-!
What a server runs its flows on: a world of its own, which ends with it, or a link to a Redis
server.
-/
set_option autoImplicit false

namespace Registrar

/-- What a server finds where it starts. The peer is the script of the Redis server, if one can be
reached at all. -/
structure Site where
  clock : Clock
  ids : Nat → String
  peer : Option (List Redis.Delivery)
  jitter : Nat → Nat

inductive Backend where
  | memory (w : World)
  | redis (l : Redis.Link)

inductive BackendError where
  | unknown (name : String)
  | address (fault : Redis.AddressFault)
  | unreachable
  | unanswered (e : Redis.Mishap)
  deriving DecidableEq, Repr

def BackendError.message : BackendError → String
  | .unknown name => "Unknown store backend: " ++ name
  | .address fault => fault.message
  | .unreachable => "Connection refused (os error 111)"
  | .unanswered e => e.message

namespace Backend

def lockSpace : String := "lock"

def worldFor (s : Settings) (site : Site) : World :=
  .start site.clock (some (.ofMillis s.lock.patience.toNat)) site.ids

def linkFor (s : Settings) (site : Site) (script : List Redis.Delivery) : Redis.Link where
  clock := site.clock
  elapsed := 0
  script := script
  sent := []
  waits := []
  jitter := site.jitter
  draws := 0
  holders := 0
  signals := .none
  ids := site.ids
  minted := 0
  keySpace := s.store.keySpace
  lockSpace := lockSpace
  terms :=
    { lease := .ofMillis s.lock.lease.toNat
      patience := .ofMillis s.lock.patience.toNat
      firstWait := .ofMillis s.lock.firstWait.toNat
      longestWait := .ofMillis s.lock.longestWait.toNat }

def greet (l : Redis.Link) : Except BackendError Backend × List Redis.Request :=
  match l.inquire none .ping (·.text? >>= id) with
  | (.reached (.ok _), l) => (.ok (.redis l), l.sent)
  | (.reached (.error e), l) => (.error (.unanswered e), l.sent)
  | (_, l) => (.error .unreachable, l.sent)

/-- The backend that the settings name, and the requests it has sent so far. -/
def start (s : Settings) (site : Site) : Except BackendError Backend × List Redis.Request :=
  match s.store.backend with
  | "memory" => (.ok (.memory (worldFor s site)), [])
  | "redis" =>
    match Redis.Address.ofText s.store.address, site.peer with
    | .error fault, _ => (.error (.address fault), [])
    | .ok _, none => (.error .unreachable, [])
    | .ok _, some script => greet (linkFor s site script)
  | name => (.error (.unknown name), [])

def isLocal : Backend → Bool
  | .memory _ => true
  | .redis _ => false

def clock : Backend → Clock
  | .memory w => w.clock
  | .redis l => l.clock

def now : Backend → Tick
  | .memory w => w.now
  | .redis l => l.elapsed

def signals : Backend → Signals
  | .memory w => w.signals
  | .redis l => l.signals

def withSignals (s : Signals) : Backend → Backend
  | .memory w => .memory { w with signals := s }
  | .redis l => .redis { l with signals := s }

def taskOf {α : Type} (f : Flow α) : Task Unit α where
  wait := 0
  window := none
  begin w s := (f, w, s)
  keep _ _ s := s

def inTurn {α : Type} : List (Flow α) → Redis.Link → List (Ending α) × Redis.Link
  | [], l => ([], l)
  | f :: fs, l =>
    let (e, l) := f.follow l
    let (es, l) := inTurn fs l
    (e :: es, l)

/-- The ends of flows that were started together. -/
def run {α : Type} (flows : List (Flow α)) : Backend → List (Ending α) × Backend
  | .memory w =>
    let (es, m) := (Machine.idle w ()).run (flows.map taskOf)
    (es, .memory m.world)
  | .redis l =>
    let (es, l) := inTurn flows l
    (es, .redis l)

def advance (d : Span) : Backend → Backend
  | .memory w => .memory ((Machine.idle w () : Machine Unit Unit).advance d).world
  | .redis l => .redis (l.wait none d).2

end Backend

end Registrar
