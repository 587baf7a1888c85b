set_option autoImplicit false

namespace Registrar.Numeral

def decimal (n : Nat) : List Char := Nat.toDigits 10 n

/-- Padding never cuts: a number wider than the field keeps all its digits. -/
def padded (width n : Nat) : List Char :=
  List.replicate (width - (decimal n).length) '0' ++ decimal n

def signed (n : Int) : List Char :=
  if n < 0 then '-' :: decimal n.natAbs else decimal n.natAbs

def digitValue (c : Char) : Nat := c.toNat - '0'.toNat

/-- The value of a run of digits, most significant first. -/
def value (cs : List Char) : Nat := cs.foldl (fun n c => 10 * n + digitValue c) 0

/-- At least one digit and nothing else. -/
def nat? (cs : List Char) : Option Nat :=
  if !cs.isEmpty && cs.all Char.isDigit then some (value cs) else none

def int? : List Char → Option Int
  | '+' :: cs => (nat? cs).map Int.ofNat
  | '-' :: cs => (nat? cs).map fun n => -(n : Int)
  | cs => (nat? cs).map Int.ofNat

def minInt64 : Int := -9223372036854775808
def maxInt64 : Int := 9223372036854775807
def maxNat64 : Nat := 18446744073709551615

/-- How many numbers 64 bits tell apart. -/
def range64 : Nat := 18446744073709551616

def int64? (cs : List Char) : Option Int :=
  (int? cs).filter fun n => minInt64 ≤ n && n ≤ maxInt64

inductive Fault where
  | empty
  | invalidDigit
  | tooLarge
  deriving DecidableEq, Repr

def Fault.message : Fault → String
  | .empty => "cannot parse integer from empty string"
  | .invalidDigit => "invalid digit found in string"
  | .tooLarge => "number too large to fit in target type"

def digits64 (n : Nat) : List Char → Except Fault Nat
  | [] => .ok n
  | c :: cs =>
    if !c.isDigit then .error .invalidDigit
    else if maxNat64 < 10 * n + digitValue c then .error .tooLarge
    else digits64 (10 * n + digitValue c) cs

/-- An unsigned numeral within 64 bits; a plus sign may stand in front. -/
def nat64 : List Char → Except Fault Nat
  | [] => .error .empty
  | ['+'] => .error .invalidDigit
  | '+' :: cs => digits64 0 cs
  | cs => digits64 0 cs

end Registrar.Numeral
