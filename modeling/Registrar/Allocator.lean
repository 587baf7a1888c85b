import Registrar.Flow
import Registrar.Identifier
/-!
Allocators mint identifiers: take the lock, count up, renew the counter's expiry, give the lock
back. Nothing is tried twice, since a second try could count twice.
-/
set_option autoImplicit false

namespace Registrar

inductive ReleaseFailure where
  | notHeld
  | failed (e : LockError)
  | timedOut
  deriving DecidableEq, Repr

def ReleaseFailure.message : ReleaseFailure → String
  | .notHeld => "lock was no longer held"
  | .failed e => e.message
  | .timedOut => "unlock timed out"

/-- After a failed release the counter has advanced, but the identifier must not be taken for
issued. -/
inductive AllocError where
  | lockUnavailable (e : LockError)
  | storeUnavailable (e : StoreError)
  | negativeCounter (key : String)
  | releaseFailed (unconfirmed : Identifier) (reason : ReleaseFailure)
  | interrupted (i : Interrupted)
  deriving DecidableEq, Repr

def Interrupted.message : Interrupted → String
  | .cancelled => "operation cancelled"
  | .deadlineExceeded => "deadline exceeded"

def AllocError.message : AllocError → String
  | .lockUnavailable e => "lock unavailable: " ++ e.message
  | .storeUnavailable e => "store unavailable: " ++ e.message
  | .negativeCounter key => "store unavailable: counter " ++ key ++ " is negative"
  | .releaseFailed i reason =>
    "lock release failed after allocating " ++ i.text ++ ": " ++ reason.message
  | .interrupted i => i.message

/-- One lock serialises the allocations for all days; each day has a counter of its own, whose key
is the stem followed by the day's stamp. -/
structure Allocator where
  lockName : String
  stem : String
  /-- How long the counter of a day that has ended is kept. -/
  grace : Span
  /-- How long the release may take, whatever the deadline of the caller. -/
  releaseLimit : Span
  deriving DecidableEq, Repr

namespace Allocator

def standard : Allocator where
  lockName := "user-id-sequence"
  stem := "user"
  grace := .ofSecs (24 * 60 * 60)
  releaseLimit := .ofSecs 1

def counterKey (a : Allocator) (day : Day) : String := a.stem ++ day.stamp

/-- The time until the local midnight that ends the day, or the grace if there is none to come. -/
def counterTtl (a : Allocator) (clock : Clock) (day : Day) : Span :=
  match day.succ? >>= clock.zone.midnight? with
  | some midnight => if clock.wall < midnight then clock.wall.untilInstant midnight else a.grace
  | none => a.grace

def held (a : Allocator) (token : LockToken) : Held := ⟨token, a.releaseLimit⟩

def releaseFailure? : Option (Except LockError Bool) → Option ReleaseFailure
  | some (.ok true) => none
  | some (.ok false) => some .notHeld
  | some (.error e) => some (.failed e)
  | none => some .timedOut

def settle (day : Day) (counted : Except AllocError Nat) (failure : Option ReleaseFailure) :
    Except AllocError Identifier :=
  match counted, failure with
  | .ok n, none => .ok ⟨day, n⟩
  | .ok n, some reason => .error (.releaseFailed ⟨day, n⟩ reason)
  | .error e, _ => .error e

/-- The release, which ends every allocation that came to hold the lock. -/
def finish (a : Allocator) (day : Day) (token : LockToken) (counted : Except AllocError Nat) :
    Flow (Except AllocError Identifier) :=
  .call (.within a.releaseLimit) (.unlock token) (some (a.held token)) fun o =>
    .done (settle day counted (releaseFailure? o))

def afterExpire (a : Allocator) (day : Day) (token : LockToken) (n : Int) :
    Except Interrupted (Except StoreError Bool) → Flow (Except AllocError Identifier)
  | .error i => a.finish day token (.error (.interrupted i))
  | .ok (.error e) => a.finish day token (.error (.storeUnavailable e))
  | .ok (.ok _) =>
    a.finish day token
      (if n < 0 then .error (.negativeCounter (a.counterKey day)) else .ok n.toNat)

def afterIncr (a : Allocator) (ctx : Context) (day : Day) (token : LockToken) :
    Except Interrupted (Except StoreError Int) → Flow (Except AllocError Identifier)
  | .error i => a.finish day token (.error (.interrupted i))
  | .ok (.error e) => a.finish day token (.error (.storeUnavailable e))
  | .ok (.ok n) => .now fun clock =>
    .call (.under ctx) (.store (.expire (a.counterKey day) (a.counterTtl clock day)))
      (some (a.held token)) (a.afterExpire day token n)

def afterLock (a : Allocator) (ctx : Context) (day : Day) :
    Except Interrupted (Except LockError LockToken) → Flow (Except AllocError Identifier)
  | .error i => .done (.error (.interrupted i))
  | .ok (.error e) => .done (.error (.lockUnavailable e))
  | .ok (.ok token) =>
    .call (.under ctx) (.store (.incr (a.counterKey day))) (some (a.held token))
      (a.afterIncr ctx day token)

def allocate (a : Allocator) (ctx : Context) (day : Day) : Flow (Except AllocError Identifier) :=
  .call (.under ctx) (.lock a.lockName false) none (a.afterLock ctx day)

def allocateToday (a : Allocator) (ctx : Context) : Flow (Except AllocError Identifier) :=
  .now fun clock =>
    match clock.today? with
    | some day => a.allocate ctx day
    | none => .crash

end Allocator

end Registrar
