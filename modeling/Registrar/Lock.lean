import Registrar.Table
import Registrar.Time.Span
/-!
Named locks. A lock has one seat and a queue of the tickets that wait for it, first come, first
served. A seat that falls free is offered to the head of the queue, and belongs to that ticket
until it is taken or turned down.
-/
set_option autoImplicit false

namespace Registrar

/-- Who holds a lock. Issued holders are numbered, so no two are equal; any text can be named as a
holder, but no text is an issued one. -/
inductive Holder where
  | issued (n : Nat)
  | named (text : String)
  deriving DecidableEq, Repr

structure LockToken where
  name : String
  holder : Holder
  deriving DecidableEq, Repr

inductive LockError where
  | unavailable (reason : String)
  | timeout (name : String)
  deriving DecidableEq, Repr

def LockError.message : LockError → String
  | .unavailable reason => "lock provider unavailable: " ++ reason
  | .timeout name => "timed out waiting for lock " ++ name

inductive Seat where
  | free
  | offered (ticket : Nat)
  | held (holder : Holder)
  deriving DecidableEq, Repr

structure Lock where
  seat : Seat
  queue : List Nat
  deriving DecidableEq, Repr

namespace Lock

def idle : Lock := ⟨.free, []⟩

def passOn : List Nat → Lock
  | [] => idle
  | ticket :: queue => ⟨.offered ticket, queue⟩

/-- A ticket that no longer waits. A seat that it was offered goes to the next. -/
def leave (l : Lock) (ticket : Nat) : Lock :=
  if l.seat = .offered ticket then passOn l.queue else { l with queue := l.queue.erase ticket }

end Lock

/-- Unavailable locks answer nobody. With patience, a waiter gives up after that long. -/
structure Locks where
  table : Table String Lock
  available : Bool
  patience : Option Span
  issued : Nat
  deriving Repr

namespace Locks

def idle (patience : Option Span) : Locks := ⟨.empty, true, patience, 0⟩

def find (ls : Locks) (name : String) : Lock := (ls.table.get? name).getD .idle

def put (ls : Locks) (name : String) (l : Lock) : Locks :=
  { ls with table := ls.table.insert name l }

theorem find_put (ls : Locks) (name other : String) (l : Lock) :
    (ls.put name l).find other = if other = name then l else ls.find other := by
  by_cases h : other = name <;> simp [find, put, Table.get?_insert, h]

/-- A lock counts as held from the grant on, also while it is only offered. -/
def isHeld (ls : Locks) (name : String) : Bool := (ls.find name).seat != .free

def grant (ls : Locks) (name : String) : LockToken × Locks :=
  let holder := .issued ls.issued
  (⟨name, holder⟩, { ls.put name { ls.find name with seat := .held holder } with
    issued := ls.issued + 1 })

def enter (ls : Locks) (name : String) (ticket : Nat) : Option LockToken × Locks :=
  let l := ls.find name
  if l.seat = .free then let (token, ls) := ls.grant name; (some token, ls)
  else (none, ls.put name { l with queue := l.queue ++ [ticket] })

def collect (ls : Locks) (name : String) (ticket : Nat) : Option LockToken × Locks :=
  if (ls.find name).seat = .offered ticket then let (token, ls) := ls.grant name; (some token, ls)
  else (none, ls)

def leave (ls : Locks) (name : String) (ticket : Nat) : Locks :=
  ls.put name ((ls.find name).leave ticket)

/-- Only the holder's own token frees a lock. -/
def unlock (ls : Locks) (token : LockToken) : Bool × Locks :=
  let l := ls.find token.name
  if l.seat = .held token.holder then (true, ls.put token.name (.passOn l.queue)) else (false, ls)

end Locks

end Registrar
