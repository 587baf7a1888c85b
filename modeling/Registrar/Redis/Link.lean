import Registrar.Redis.Reply
import Registrar.Redis.Request
import Registrar.Machine
/-!
The link to a Redis server: each request is sent and its reply awaited before the next one. Store
calls are one request each. A lock is claimed again and again, with growing waits in between, until
the claim succeeds or the time for it is up.
-/
set_option autoImplicit false

namespace Registrar.Redis

/-- How locks are claimed: the lease after which a claim lapses on the server, the time that one
call may go on claiming, and the first and the longest wait between two claims. -/
structure LockTerms where
  lease : Span
  patience : Span
  firstWait : Span
  longestWait : Span
  deriving DecidableEq, Repr

/-- Each wait is twice as long as the one before, up to the longest. -/
def LockTerms.nextWait (t : LockTerms) (wait : Span) : Span := min (2 * wait) t.longestWait

structure Delivery where
  latency : Span
  reply : Reply
  deriving DecidableEq, Repr

/-- The script holds the replies to come; after the last of them each request is refused. Requests
sent and waits made have the last first. The jitter gives the draws that lengthen the waits. -/
structure Link where
  clock : Clock
  elapsed : Tick
  script : List Delivery
  sent : List Request
  waits : List Span
  jitter : Nat → Nat
  draws : Nat
  holders : Nat
  signals : Signals
  ids : Nat → String
  minted : Nat
  keySpace : String
  lockSpace : String
  terms : LockTerms

/-- What becomes of work on the link: a result, too late a result, or none at all. -/
inductive Upshot (α : Type) where
  | reached (a : α)
  | overdue
  | crashed

/-- Milliseconds as the server takes them: of 64 bits, and never zero. -/
def millis (d : Span) : Nat := max 1 (d.wholeMillis % Numeral.range64)

/-- The same milliseconds with the highest bit as a sign. -/
def signedMillis (d : Span) : Int := Int.bmod (millis d) Numeral.range64

def exhaustedText : String := "ERR script exhausted"

def exhausted : Delivery := ⟨0, .error exhaustedText⟩

namespace Link

/-- Lets time pass, unless the cutoff comes first; says whether the wait was had to its end. -/
def wait (l : Link) (cutoff : Option Tick) (length : Span) : Bool × Link :=
  let due := l.elapsed.after length
  match cutoff with
  | some t => if t ≤ due then (false, { l with elapsed := max l.elapsed t }) else
      (true, { l with elapsed := due })
  | none => (true, { l with elapsed := due })

/-- Sends a request whose reply is known, and what the script holds after it. -/
def receive (l : Link) (cutoff : Option Tick) (r : Request) (d : Delivery)
    (rest : List Delivery) : Option Reply × Link :=
  let (intime, l) := { l with sent := r :: l.sent, script := rest }.wait cutoff d.latency
  (if intime then some d.reply else none, l)

def exchange (l : Link) (cutoff : Option Tick) (r : Request) : Option Reply × Link :=
  match l.script with
  | d :: rest => l.receive cutoff r d rest
  | [] => l.receive cutoff r exhausted []

def inquire {α : Type} (l : Link) (cutoff : Option Tick) (r : Request)
    (convert : Reply → Option α) : Upshot (Except Mishap α) × Link :=
  match l.exchange cutoff r with
  | (some reply, l) => (.reached (reply.read convert), l)
  | (none, l) => (.overdue, l)

/-- Within a key space keys follow its name and a colon. -/
def key (l : Link) (name : String) : String :=
  if l.keySpace = "" then name else l.keySpace ++ ":" ++ name

def lockKey (l : Link) (name : String) : String := l.lockSpace ++ ":" ++ name

def storeError : Mishap → StoreError
  | .lost => .unavailable Mishap.lost.message
  | e => .protocol e.message

def consult {α β : Type} (l : Link) (cutoff : Option Tick) (r : Request)
    (convert : Reply → Option α) (f : α → β) : Upshot (Except StoreError β) × Link :=
  match l.inquire cutoff r convert with
  | (.reached (.ok a), l) => (.reached (.ok (f a)), l)
  | (.reached (.error e), l) => (.reached (.error (storeError e)), l)
  | (.overdue, l) => (.overdue, l)
  | (.crashed, l) => (.crashed, l)

def store (l : Link) (cutoff : Option Tick) :
    (c : StoreCall) → Upshot (Except StoreError c.Answer) × Link
  | .set key value ttl =>
    l.consult cutoff (.set (l.key key) value (millis ttl)) Reply.text? fun s => s == some "OK"
  | .get key => l.consult cutoff (.get (l.key key)) Reply.text? id
  | .del [] => (.reached (.ok (0 : Nat)), l)
  | .del (key :: keys) =>
    l.consult cutoff (.del ((key :: keys).map l.key)) Reply.count? id
  | .incr key => l.consult cutoff (.increment (l.key key)) Reply.int? id
  | .expire key ttl =>
    l.consult cutoff (.expire (l.key key) (signedMillis ttl)) Reply.truth? id

def granted? (r : Reply) : Option Bool := r.text?.map Option.isSome

def draw (l : Link) (bound : Nat) : Nat × Link :=
  (l.jitter l.draws % (bound + 1), { l with draws := l.draws + 1 })

def jitterBound (wait : Span) : Nat := wait.wholeMillis % Numeral.range64 / 2

/-- The wait between two claims, lengthened by a draw. -/
def pause (l : Link) (cutoff : Option Tick) (length : Span) : Bool × Link :=
  let (extra, l) := l.draw (jitterBound length)
  let length := length + Span.ofMillis extra
  { l with waits := length :: l.waits }.wait cutoff length

/-- Claims a lock until a claim is answered with a grant or an error, or one is refused after the
deadline. -/
def claim (t : LockTerms) (token : LockToken) (r : Request) (deadline : Tick)
    (cutoff : Option Tick) (wait : Span) :
    List Delivery → Link → Upshot (Except LockError LockToken) × Link
  | [], l =>
    match l.receive cutoff r exhausted [] with
    | (none, l) => (.overdue, l)
    | (some _, l) => (.reached (.error (.unavailable exhaustedText)), l)
  | d :: rest, l =>
    match l.receive cutoff r d rest with
    | (none, l) => (.overdue, l)
    | (some reply, l) =>
      match reply.read granted? with
      | .error e => (.reached (.error (.unavailable e.message)), l)
      | .ok true => (.reached (.ok token), l)
      | .ok false =>
        if deadline ≤ l.elapsed then (.reached (.error (.timeout token.name)), l)
        else
          match l.pause cutoff wait with
          | (false, l) => (.overdue, l)
          | (true, l) => claim t token r deadline cutoff (t.nextWait wait) rest l

/-- A new holder claims the lock. The deadline has to be one that the clock can hold. -/
def lock (l : Link) (cutoff : Option Tick) (name : String) :
    Upshot (Except LockError LockToken) × Link :=
  let holder := .issued l.holders
  let r := .claim (l.lockKey name) holder (l.terms.lease.wholeMillis % Numeral.range64)
  match l.elapsed.after? l.terms.patience with
  | none => (.crashed, l)
  | some deadline =>
    claim l.terms ⟨name, holder⟩ r deadline cutoff l.terms.firstWait l.script
      { l with holders := l.holders + 1 }

/-- Whether a reply says that the server does not know the script. -/
def unknownScript : Reply → Bool
  | .error text => text.toList.takeWhile (· ≠ ' ') = "NOSCRIPT".toList
  | _ => false

def unlocked : Except Mishap Int → Except LockError Bool
  | .ok n => .ok (n = 1)
  | .error e => .error (.unavailable e.message)

/-- A server that does not know the script is taught it, and asked once more. -/
def unlock (l : Link) (cutoff : Option Tick) (token : LockToken) :
    Upshot (Except LockError Bool) × Link :=
  let r := .surrender (l.lockKey token.name) token.holder
  match l.exchange cutoff r with
  | (none, l) => (.overdue, l)
  | (some reply, l) =>
    if unknownScript reply then
      match l.inquire cutoff .teach some with
      | (.reached (.ok _), l) =>
        match l.inquire cutoff r Reply.int? with
        | (.reached a, l) => (.reached (unlocked a), l)
        | (.overdue, l) => (.overdue, l)
        | (.crashed, l) => (.crashed, l)
      | (.reached (.error e), l) => (.reached (.error (.unavailable e.message)), l)
      | (.overdue, l) => (.overdue, l)
      | (.crashed, l) => (.crashed, l)
    else (.reached (unlocked (reply.read Reply.int?)), l)

def perform (l : Link) (cutoff : Option Tick) : (c : Call) → Upshot c.Answer × Link
  | .store c => l.store cutoff c
  | .lock name _ => l.lock cutoff name
  | .unlock token => l.unlock cutoff token
  | .pause none => (.overdue, l)
  | .pause (some length) =>
    match l.wait cutoff length with
    | (true, l) => (.reached (), l)
    | (false, l) => (.overdue, l)

/-- The first moment at which a guarded call's answer comes too late. An answer at the very end of
a guard's own limit is in time, one at a context's deadline is not. -/
def cutoff (l : Link) : Guard → Option Tick
  | .free => none
  | .under ctx => ctx.deadline
  | .within limit => some (l.elapsed.after limit + 1)

/-- What the guard decides before the call is made. -/
def before (l : Link) {α : Type} : (g : Guard) → Option (g.Outcome α)
  | .under ctx => (ctx.interruption? l.signals l.elapsed).map Except.error
  | .free | .within _ => none

/-- What the guard makes of a call that is overdue. -/
def late {α : Type} : (g : Guard) → Option (g.Outcome α)
  | .free => none
  | .under _ => some (.error .deadlineExceeded)
  | .within _ => some none

end Link

end Registrar.Redis

namespace Registrar.Flow

/-- Follows a flow to its end, alone on the link. Without an outcome to go on with, it is dropped. -/
def follow {α : Type} : Flow α → Redis.Link → Ending α × Redis.Link
  | .done a, l => (.finished a, l)
  | .crash, l => (.crashed, l)
  | .now k, l => (k l.clock).follow l
  | .mint k, l => (k (l.ids l.minted)).follow { l with minted := l.minted + 1 }
  | .request root timeout k, l =>
    match root.child l.signals l.elapsed timeout with
    | none => (.crashed, l)
    | some (ctx, signals) => (k ctx).follow { l with signals := signals }
  | .call g c _ k, l =>
    match l.before g with
    | some o => (k o).follow l
    | none =>
      match l.perform (l.cutoff g) c with
      | (.reached a, l) => (k (g.answered a)).follow l
      | (.crashed, l) => (.crashed, l)
      | (.overdue, l) =>
        match Redis.Link.late g with
        | some o => (k o).follow l
        | none => (.dropped, l)

end Registrar.Flow
