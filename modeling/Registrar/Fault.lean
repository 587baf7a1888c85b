import Registrar.Flow
/-!
Planned faults: each kind of call has a queue of them, and each call takes the next of its kind.
-/
set_option autoImplicit false

namespace Registrar

/-- How a call goes: as it should, never, after a delay, or with an answer made up. -/
inductive Fault (α : Type) where
  | pass
  | stall
  | delay (length : Span) (next : Fault α)
  | answer (a : α)
  deriving Repr, Inhabited

def Fault.map {α β : Type} (f : α → β) : Fault α → Fault β
  | .pass => .pass
  | .stall => .stall
  | .delay d next => .delay d (next.map f)
  | .answer a => .answer (f a)

/-- A made-up grant names the holder only, since the call names the lock. -/
structure Faults where
  set : List (Fault (Except StoreError Bool))
  get : List (Fault (Except StoreError (Option String)))
  del : List (Fault (Except StoreError Nat))
  incr : List (Fault (Except StoreError Int))
  expire : List (Fault (Except StoreError Bool))
  lock : List (Fault (Except LockError Holder))
  unlock : List (Fault (Except LockError Bool))
  deriving Repr

namespace Faults

def none : Faults := ⟨[], [], [], [], [], [], []⟩

def first {α : Type} : List (Fault α) → Fault α
  | [] => .pass
  | f :: _ => f

/-- The fault that a call meets, and the plan that is left. -/
def take (fs : Faults) : (c : Call) → Fault c.Answer × Faults
  | .store (.set _ _ _) => (first fs.set, { fs with set := fs.set.tail })
  | .store (.get _) => (first fs.get, { fs with get := fs.get.tail })
  | .store (.del _) => (first fs.del, { fs with del := fs.del.tail })
  | .store (.incr _) => (first fs.incr, { fs with incr := fs.incr.tail })
  | .store (.expire _ _) => (first fs.expire, { fs with expire := fs.expire.tail })
  | .lock name false =>
    ((first fs.lock).map fun a => a.map (⟨name, ·⟩), { fs with lock := fs.lock.tail })
  | .lock _ true => (.pass, fs)
  | .unlock _ => (first fs.unlock, { fs with unlock := fs.unlock.tail })
  | .pause _ => (.pass, fs)

end Faults

end Registrar
