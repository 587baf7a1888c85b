import Registrar.Text.Numeral
set_option autoImplicit false

namespace Registrar.Redis

/-- What comes back for a request. Arrays answer none of the requests made here, so their items do
not matter. A closed connection answers nothing. -/
inductive Reply where
  | nil
  | int (n : Int)
  | simple (text : String)
  | bulk (text : String)
  | array
  | error (text : String)
  | closed
  deriving DecidableEq, Repr

inductive Mishap where
  | lost
  | refused (text : String)
  | unreadable
  deriving DecidableEq, Repr

def Mishap.message : Mishap → String
  | .lost => "connection closed"
  | .refused text => text
  | .unreadable => "reply of another kind"

namespace Reply

def text? : Reply → Option (Option String)
  | .nil => some none
  | .int n => some (some (String.ofList (Numeral.signed n)))
  | .simple s | .bulk s => some (some s)
  | .array | .error _ | .closed => none

def int? : Reply → Option Int
  | .int n => some n
  | .simple s | .bulk s => Numeral.int64? s.toList
  | .nil | .array | .error _ | .closed => none

/-- A number without sign, of 64 bits; a negative one is taken modulo their range. -/
def count? : Reply → Option Nat
  | .int n => some (n % Numeral.range64).toNat
  | .simple s | .bulk s => (Numeral.nat64 s.toList).toOption
  | .nil | .array | .error _ | .closed => none

def digitTruth? (s : String) : Option Bool :=
  if s = "1" then some true else if s = "0" then some false else none

def truth? : Reply → Option Bool
  | .nil => some false
  | .int n => some (n ≠ 0)
  | .simple s => if s = "OK" then some true else digitTruth? s
  | .bulk s => digitTruth? s
  | .array | .error _ | .closed => none

/-- A reply read in one of these ways. -/
def read {α : Type} (convert : Reply → Option α) : Reply → Except Mishap α
  | .closed => .error .lost
  | .error text => .error (.refused text)
  | r =>
    match convert r with
    | some a => .ok a
    | none => .error .unreadable

end Reply

end Registrar.Redis
