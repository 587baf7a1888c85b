import Registrar.Fault
/-!
The world that flows share: the clock, the store, the locks, the signals, and the record of what
was asked of them. Here a single call is looked after, from its first moment to its outcome.
-/
set_option autoImplicit false

namespace Registrar

/-- `ids` supplies the token identifiers, `tickets` numbers the calls. The journal has the last call
first; `holders` has those who came to hold a lock, the first first. Orphans are the locks of
abandoned flows, still to be given back. -/
structure World where
  clock : Clock
  store : Store
  locks : Locks
  signals : Signals
  faults : Faults
  ids : Nat → String
  minted : Nat
  tickets : Nat
  journal : List Call
  holders : List Holder
  orphans : List Held

/-- How far the work on a call has come. -/
inductive Phase (c : Call) where
  | fresh
  | sleeping (due : Tick) (next : Fault c.Answer)
  | stalled
  | queued (limit : Option Tick)

inductive Progress (c : Call) where
  | answered (a : c.Answer)
  | pending (p : Phase c)
  | crashed

inductive Turn (g : Guard) (c : Call) where
  | concluded (o : g.Outcome c.Answer)
  | pending (p : Phase c)
  | crashed

namespace World

def start (clock : Clock) (patience : Option Span) (ids : Nat → String) : World where
  clock := clock
  store := .empty
  locks := .idle patience
  signals := .none
  faults := .none
  ids := ids
  minted := 0
  tickets := 0
  journal := []
  holders := []
  orphans := []

def now (w : World) : Tick := w.clock.now

def setNow (w : World) (t : Tick) : World := { w with clock := { w.clock with now := t } }

def mint (w : World) : String × World := (w.ids w.minted, { w with minted := w.minted + 1 })

def noteHolder (w : World) (h : Holder) : World :=
  if h ∈ w.holders then w else { w with holders := w.holders ++ [h] }

def noteAnswer (w : World) : (c : Call) → c.Answer → World
  | .lock _ _, .ok token => w.noteHolder token.holder
  | _, _ => w

/-- Direct calls and pauses leave no trace in the journal. -/
def record (w : World) : Call → World
  | .lock _ true | .pause _ => w
  | c => { w with journal := c :: w.journal }

def await (w : World) (ticket : Nat) (name : String) (direct : Bool) (limit : Option Tick) :
    World × Progress (.lock name direct) :=
  match w.locks.collect name ticket with
  | (some token, locks) =>
    ({ w with locks := locks }.noteHolder token.holder, .answered (.ok token))
  | (none, _) =>
    if limit.any (· ≤ w.now) then
      ({ w with locks := w.locks.leave name ticket }, .answered (.error (.timeout name)))
    else (w, .pending (.queued limit))

def perform (w : World) (ticket : Nat) : (c : Call) → World × Progress c
  | .store c =>
    match w.store.perform w.now c with
    | none => (w, .crashed)
    | some (a, store) => ({ w with store := store }, .answered a)
  | .lock name direct =>
    if w.locks.available then
      match w.locks.enter name ticket with
      | (some token, locks) =>
        ({ w with locks := locks }.noteHolder token.holder, .answered (.ok token))
      | (none, locks) =>
        { w with locks := locks }.await ticket name direct (locks.patience.map w.now.after)
    else (w, .pending .stalled)
  | .unlock token =>
    let (found, locks) := w.locks.unlock token
    ({ w with locks := locks }, .answered (.ok found))
  | .pause none => (w, .pending .stalled)
  | .pause (some length) =>
    if length = 0 then (w, .answered ())
    else (w, .pending (.sleeping (w.now.after length) (.answer ())))

def undergo (w : World) (ticket : Nat) (c : Call) : Fault c.Answer → World × Progress c
  | .pass => w.perform ticket c
  | .stall => (w, .pending .stalled)
  | .delay length next =>
    if length = 0 then w.undergo ticket c next
    else (w, .pending (.sleeping (w.now.after length) next))
  | .answer a => (w.noteAnswer c a, .answered a)

def work (w : World) (ticket : Nat) (c : Call) : Phase c → World × Progress c
  | .fresh =>
    let (fault, faults) := w.faults.take c
    ({ w with faults := faults }.record c).undergo ticket c fault
  | .sleeping due next =>
    if due ≤ w.now then w.undergo ticket c next else (w, .pending (.sleeping due next))
  | .stalled => (w, .pending .stalled)
  | .queued limit =>
    match c with
    | .lock name direct => w.await ticket name direct limit
    | _ => (w, .pending (.queued limit))

/-- Work that is given up leaves no later effect: a waiter leaves the queue. -/
def abandon (w : World) (ticket : Nat) : (c : Call) → Phase c → World
  | .lock name _, .queued _ => { w with locks := w.locks.leave name ticket }
  | _, _ => w

/-- What the guard decides before the work is looked at. -/
def before (w : World) {α : Type} : (g : Guard) → Option (g.Outcome α)
  | .under ctx => (ctx.interruption? w.signals w.now).map Except.error
  | .free | .within _ => none

/-- What the guard decides when the work is not done yet. -/
def after (w : World) {α : Type} (lapse : Tick) : (g : Guard) → Option (g.Outcome α)
  | .within _ => if lapse ≤ w.now then some none else none
  | .free | .under _ => none

/-- When a guard's own limit runs out, counted from now. -/
def lapse (w : World) : Guard → Tick
  | .within limit => w.now.after limit
  | .free | .under _ => w.now

def attend (w : World) (ticket : Nat) (lapse : Tick) (g : Guard) (c : Call) (p : Phase c) :
    World × Turn g c :=
  match w.before g with
  | some o => (w.abandon ticket c p, .concluded o)
  | none =>
    match w.work ticket c p with
    | (w, .answered a) => (w, .concluded (g.answered a))
    | (w, .crashed) => (w, .crashed)
    | (w, .pending p) =>
      match w.after lapse g with
      | some o => (w.abandon ticket c p, .concluded o)
      | none => (w, .pending p)

def orphan (w : World) (held : Option Held) : World :=
  { w with orphans := w.orphans ++ held.toList }

end World

end Registrar
