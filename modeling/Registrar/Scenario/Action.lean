import Registrar.Account
import Registrar.Fault
set_option autoImplicit false

namespace Registrar.Scenario

inductive Opening where
  | root
  | timed (timeout : Span)
  | child (parent : String) (timeout : Span)
  deriving DecidableEq, Repr

/-- Store and lock instructions go straight to the adapters. An echo runs under a context and gives its
value back after the delay, or never. Expiries are counted from the wall clock, in nanoseconds. -/
inductive Action where
  | refuse (reason : String)
  | store (c : StoreCall)
  | storeAvailable (on : Bool)
  | storeAccepting (on : Bool)
  | peek (key : String)
  | lock (name : String)
  | unlock (name holder : String)
  | isHeld (name : String)
  | locksAvailable (on : Bool)
  | context (id : String) (opening : Opening)
  | cancel
  | contextState
  | echo (delay : Option Span) (value : Json)
  | plan (add : (String → Holder) → Faults → Faults)
  | pass (length : Span)
  | readClock
  | counterKey (day : Day)
  | allocate (day : Day)
  | allocateToday
  | allocateForsaken (day : Day)
  | record (subject : Subject) (accessId refreshId : String) (accessIn refreshIn : Int)
  | resolve (id : String)
  | revoke (access : Access)
  | revokeOne (id : String)
  | register
  | login (subject : Subject)
  | authenticate (token : String)
  | logout (token : String)
  | refresh (token : String)
  | encodeAccess (claims : AccessClaims)
  | encodeRefresh (claims : RefreshClaims)
  | decodeAccess (token : String)
  | decodeRefresh (token : String)

/-- An action, the context it runs under and the allocator it is for, both by name. -/
structure Instruction where
  ctx : String
  allocator : String
  action : Action

inductive Value where
  | null
  | flag (b : Bool)
  | count (n : Int)
  | text (s : String)
  | absent
  | json (j : Json)
  | entry (value : Option String) (ttl : Option Span)
  | grant (token : LockToken)
  | contextState (cancelled : Bool) (deadline : Option Tick)
  | clock (utc inZone : String)
  | identifier (i : Identifier)
  | wellFormed (b : Bool)
  | pair (p : TokenPair)
  | access (a : Access)
  | accessClaims (c : AccessClaims)
  | refreshClaims (c : RefreshClaims)

def Value.ofAnswer : (c : StoreCall) → c.Answer → Value
  | .set _ _ _, b => .flag b
  | .get _, some s => .text s
  | .get _, none => .absent
  | .del _, n => .count (Int.ofNat n)
  | .incr _, n => .count n
  | .expire _ _, b => .flag b

/-- Holders are shown by the order in which they came to hold a lock, and others by their names. -/
def label (holders : List Holder) (h : Holder) : String :=
  match holders.idxOf? h, h with
  | some i, _ => "h" ++ String.ofList (Numeral.decimal (i + 1))
  | none, .named s => s
  | none, .issued _ => ""

def labelNumber? : List Char → Option Nat
  | 'h' :: cs => Numeral.nat? cs
  | _ => none

/-- The holder that a label stands for; any other text stands for itself. -/
def labelled (holders : List Holder) (s : String) : Holder :=
  match labelNumber? s.toList with
  | some (i + 1) => (holders[i]?).getD (.named s)
  | _ => .named s

def Value.fields (holders : List Holder) : Value → List (String × String)
  | .grant token => [("name", token.name), ("holder", label holders token.holder)]
  | .pair p =>
    [("access_token", p.accessToken), ("refresh_token", p.refreshToken),
      ("access_id", p.accessId), ("refresh_id", p.refreshId),
      ("access_expires_at", p.accessExpiry.text), ("refresh_expires_at", p.refreshExpiry.text)]
  | .access a =>
    [("access_id", a.accessId), ("refresh_id", a.refreshId), ("subject_id", a.subject.name)]
  | .accessClaims c =>
    [("access_id", c.accessId), ("refresh_id", c.refreshId), ("subject_id", c.subject.name),
      ("expires_at", c.expiry.text)]
  | .refreshClaims c =>
    [("refresh_id", c.refreshId), ("subject_id", c.subject.name), ("expires_at", c.expiry.text)]
  | .entry value ttl => (value.map ("value", ·)).toList ++ (ttl.map fun d => ("ttl", d.seconds)).toList
  | .contextState _ deadline => (deadline.map fun t => ("deadline", Span.seconds t)).toList
  | .clock utc inZone => [("utc", utc), ("local", inZone)]
  | _ => []

inductive Failure where
  | refused (reason : String)
  | store (e : StoreError)
  | lock (e : LockError)
  | interrupted (i : Interrupted)
  | alloc (e : AllocError)
  | token (e : TokenError)
  | account (e : AccountError)
  | codec (e : TokenRefusal)
  deriving Repr

/-- What an instruction that was not cut short has to tell. -/
inductive Result where
  | ok (v : Value)
  | failed (e : Failure)
  | forsaken

end Registrar.Scenario
