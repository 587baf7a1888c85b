import Registrar.World
/-!
Activities: flows under way. An activity is looked at from time to time; each look takes its flow
as far as it goes before it has to wait again. It can be dropped between two looks.
-/
set_option autoImplicit false

namespace Registrar

/-- A waiting activity knows its call's ticket and when the guard's own limit runs out. -/
inductive Activity (α : Type) where
  | fresh (f : Flow α)
  | waiting (ticket : Nat) (lapse : Tick) (g : Guard) (c : Call) (held : Option Held)
      (k : g.Outcome c.Answer → Flow α) (p : Phase c)
  | done (a : α)
  | crashed

namespace Flow

variable {α : Type}

/-- Takes a flow to its first wait or to its end. A crash leaves behind what the flow held. -/
def advance : Flow α → World → World × Activity α
  | .done a, w => (w, .done a)
  | .crash, w => (w, .crashed)
  | .now k, w => (k w.clock).advance w
  | .mint k, w => let (id, w) := w.mint; (k id).advance w
  | .request root timeout k, w =>
    match root.child w.signals w.now timeout with
    | none => (w, .crashed)
    | some (ctx, signals) => (k ctx).advance { w with signals := signals }
  | .call g c held k, w =>
    let ticket := w.tickets
    let lapse := w.lapse g
    match { w with tickets := ticket + 1 }.attend ticket lapse g c .fresh with
    | (w, .concluded o) => (k o).advance w
    | (w, .pending p) => (w, .waiting ticket lapse g c held k p)
    | (w, .crashed) => (w.orphan held, .crashed)

end Flow

inductive Cause where
  | due (t : Tick)
  | cancelled (ctx : Context)
  | offered (name : String) (ticket : Nat)
  deriving DecidableEq, Repr

def Cause.met (w : World) : Cause → Bool
  | .due t => t ≤ w.now
  | .cancelled ctx => ctx.isCancelled w.signals
  | .offered name ticket => (w.locks.find name).seat = .offered ticket

/-- When causes are met at one moment, those that a signal brings come in the order in which it is
heard; all others come as they stand. -/
def Cause.rank (w : World) : Cause → Nat
  | .cancelled ctx => (ctx.lineage.head?.map w.signals.rank).getD 0
  | .due _ | .offered _ _ => 0

namespace Activity

variable {α : Type}

def poll : Activity α → World → World × Activity α
  | .fresh f, w => f.advance w
  | .waiting ticket lapse g c held k p, w =>
    match w.attend ticket lapse g c p with
    | (w, .concluded o) => (k o).advance w
    | (w, .pending p) => (w, .waiting ticket lapse g c held k p)
    | (w, .crashed) => (w.orphan held, .crashed)
  | a, w => (w, a)

/-- The end of an activity that is not let finish: its call is given up first, then the lock that
it holds is left to be released. -/
def drop : Activity α → World → World
  | .waiting ticket _ _ c held _ p, w => (w.abandon ticket c p).orphan held
  | _, w => w

/-- As if dropped where nothing can be set going any more: a held lock stays held. -/
def forsake : Activity α → World → World
  | .waiting ticket _ _ c _ _ p, w => w.abandon ticket c p
  | _, w => w

def guardCauses (lapse : Tick) : Guard → List Cause
  | .free => []
  | .under ctx => .cancelled ctx :: (ctx.deadline.map Cause.due).toList
  | .within _ => [.due lapse]

def phaseCauses (ticket : Nat) : (c : Call) → Phase c → List Cause
  | _, .sleeping due _ => [.due due]
  | .lock name _, .queued limit => .offered name ticket :: (limit.map Cause.due).toList
  | _, _ => []

/-- What an activity waits for, the first looked at first. A limit is looked at after the work. -/
def causes : Activity α → List Cause
  | .waiting ticket lapse (.within limit) c _ _ p =>
    phaseCauses ticket c p ++ guardCauses lapse (.within limit)
  | .waiting ticket lapse g c _ _ p => guardCauses lapse g ++ phaseCauses ticket c p
  | _ => []

def ticket? : Activity α → Option Nat
  | .waiting ticket .. => some ticket
  | _ => none

end Activity

end Registrar
