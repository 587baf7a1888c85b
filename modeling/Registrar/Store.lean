import Registrar.Table
import Registrar.Time.Span
/-!
The store in memory: texts under keys, each with the moment it dies. A dead entry may stay behind
for a while, but no call can tell it from an absent one.
-/
set_option autoImplicit false

namespace Registrar

inductive StoreError where
  | unavailable (reason : String)
  | protocol (reason : String)
  deriving DecidableEq, Repr

def StoreError.message : StoreError → String
  | .unavailable reason => "store unavailable: " ++ reason
  | .protocol reason => "unexpected store reply: " ++ reason

/-- What can be asked of a store. Each call concerns the keys it names and no other. -/
inductive StoreCall where
  | set (key value : String) (ttl : Span)
  | get (key : String)
  | del (keys : List String)
  | incr (key : String)
  | expire (key : String) (ttl : Span)
  deriving DecidableEq, Repr

/-- Whether it was written, the value, how many went, the new count, whether there was an entry. -/
def StoreCall.Answer : StoreCall → Type
  | .set _ _ _ => Bool
  | .get _ => Option String
  | .del _ => Nat
  | .incr _ => Int
  | .expire _ _ => Bool

def StoreCall.keys : StoreCall → List String
  | .set key _ _ | .get key | .incr key | .expire key _ => [key]
  | .del keys => keys

/-- Without an expiry an entry stays until it is removed. -/
structure Entry where
  value : String
  expiry : Option Tick
  deriving DecidableEq, Repr

/-- An entry is dead from the moment of its expiry on. -/
def Entry.live (now : Tick) (e : Entry) : Bool :=
  match e.expiry with
  | none => true
  | some dies => now < dies

/-- An unavailable store fails each call; one that does not accept refuses to write. -/
structure Store where
  entries : Table String Entry
  available : Bool
  accepting : Bool
  deriving Repr

namespace Store

def empty : Store := ⟨.empty, true, true⟩

def find? (s : Store) (now : Tick) (key : String) : Option Entry :=
  (s.entries.get? key).filter (Entry.live now)

def peek (s : Store) (now : Tick) (key : String) : Option String :=
  (s.find? now key).map (·.value)

def ttl (s : Store) (now : Tick) (key : String) : Option Span :=
  s.find? now key >>= (·.expiry) |>.map (· - now)

def put (s : Store) (key : String) (e : Entry) : Store :=
  { s with entries := s.entries.insert key e }

def drop (s : Store) (key : String) : Store := { s with entries := s.entries.erase key }

/-- Nothing if the store's clock cannot hold the expiry. -/
def set (s : Store) (now : Tick) (key value : String) (ttl : Span) : Option (Bool × Store) :=
  if s.accepting then
    (now.after? ttl).map fun dies => (true, s.put key ⟨value, some dies⟩)
  else some (false, s)

def get (s : Store) (now : Tick) (key : String) : Option String × Store :=
  match s.entries.get? key with
  | none => (none, s)
  | some e => if e.live now then (some e.value, s) else (none, s.drop key)

def del (s : Store) (now : Tick) : List String → Nat × Store
  | [] => (0, s)
  | key :: keys =>
    let (n, rest) := (s.drop key).del now keys
    (if (s.find? now key).isSome then n + 1 else n, rest)

/-- A counter that is absent or dead starts from nought and has no expiry. -/
def incr (s : Store) (now : Tick) (key : String) : Except StoreError Int × Store :=
  let e := (s.find? now key).getD ⟨"0", none⟩
  match Numeral.int64? e.value.toList with
  | none => (.error (.protocol ("value at " ++ key ++ " is not an integer")), s)
  | some n =>
    if n < Numeral.maxInt64 then
      (.ok (n + 1), s.put key { e with value := String.ofList (Numeral.signed (n + 1)) })
    else (.error (.protocol ("increment of " ++ key ++ " would overflow")), s)

/-- Nothing if the store's clock cannot hold the expiry. -/
def expire (s : Store) (now : Tick) (key : String) (ttl : Span) : Option (Bool × Store) :=
  match s.find? now key with
  | none => some (false, s)
  | some e => (now.after? ttl).map fun dies => (true, s.put key { e with expiry := some dies })

def outage : StoreError := .unavailable "memory store switched off"

/-- One call. Nothing if it would have to note a moment that the clock cannot hold. -/
def perform (s : Store) (now : Tick) :
    (c : StoreCall) → Option (Except StoreError c.Answer × Store)
  | .set key value ttl =>
    if s.available then (s.set now key value ttl).map fun (a, t) => (.ok a, t)
    else some (.error outage, s)
  | .get key =>
    if s.available then let (a, t) := s.get now key; some (.ok a, t) else some (.error outage, s)
  | .del keys =>
    if s.available then let (a, t) := s.del now keys; some (.ok a, t) else some (.error outage, s)
  | .incr key => if s.available then some (s.incr now key) else some (.error outage, s)
  | .expire key ttl =>
    if s.available then (s.expire now key ttl).map fun (a, t) => (.ok a, t)
    else some (.error outage, s)

end Store

end Registrar
