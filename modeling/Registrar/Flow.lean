import Registrar.Context
import Registrar.Lock
import Registrar.Store
import Registrar.Time.Zone
/-!
Flows: pieces of work that go on between the calls they make. A call suspends the flow until it is
concluded; all else happens at once. What a flow is suspended on, and what it holds meanwhile, can
be read off it.
-/
set_option autoImplicit false

namespace Registrar

/-- A direct lock call goes straight to the locks; the other calls are recorded and can be made to
fail. A pause without a length lasts for ever. -/
inductive Call where
  | store (c : StoreCall)
  | lock (name : String) (direct : Bool)
  | unlock (token : LockToken)
  | pause (length : Option Span)
  deriving DecidableEq, Repr

def Call.Answer : Call → Type
  | .store c => Except StoreError c.Answer
  | .lock _ _ => Except LockError LockToken
  | .unlock _ => Except LockError Bool
  | .pause _ => Unit

/-- What may end a call before its answer: nothing, its context, or a limit of its own. -/
inductive Guard where
  | free
  | under (ctx : Context)
  | within (limit : Span)
  deriving DecidableEq, Repr

def Guard.Outcome : Guard → Type → Type
  | .free, α => α
  | .under _, α => Except Interrupted α
  | .within _, α => Option α

def Guard.answered {α : Type} : (g : Guard) → α → g.Outcome α
  | .free, a => a
  | .under _, a => .ok a
  | .within _, a => some a

/-- A lock in the hands of a flow, and how long its release may take if the flow is abandoned. -/
structure Held where
  token : LockToken
  limit : Span
  deriving DecidableEq, Repr

inductive Flow (α : Type) where
  | done (a : α)
  | crash
  | now (k : Clock → Flow α)
  | mint (k : String → Flow α)
  | request (root : Context) (timeout : Span) (k : Context → Flow α)
  | call (g : Guard) (c : Call) (held : Option Held) (k : g.Outcome c.Answer → Flow α)

namespace Flow

variable {α β : Type}

def bind : Flow α → (α → Flow β) → Flow β
  | .done a, f => f a
  | .crash, _ => .crash
  | .now k, f => .now fun t => (k t).bind f
  | .mint k, f => .mint fun s => (k s).bind f
  | .request root timeout k, f => .request root timeout fun ctx => (k ctx).bind f
  | .call g c held k, f => .call g c held fun o => (k o).bind f

instance : Monad Flow where
  pure := .done
  bind := bind

@[simp] theorem pure_bind (a : α) (f : α → Flow β) : (pure a >>= f : Flow β) = f a := rfl

def ask (ctx : Context) (c : StoreCall) :
    Flow (Except Interrupted (Except StoreError c.Answer)) :=
  .call (.under ctx) (.store c) none .done

/-- Gives a lock back that an abandoned flow held. -/
def release (h : Held) : Flow Unit :=
  .call (.within h.limit) (.unlock h.token) none fun _ => .done ()

end Flow

end Registrar
