import Registrar.Text.Double
import Registrar.Text.Json
import Registrar.Text.Split
set_option autoImplicit false

namespace Registrar

inductive Quantity where
  | int (n : Int)
  | double (d : Double)
  deriving Repr

namespace Quantity

/-- Takes digits as long as the number has 64 bits, and leaves the others. -/
def gather (n : Nat) : List Char → Nat × List Char
  | [] => (n, [])
  | c :: cs =>
    let next := 10 * n + Numeral.digitValue c
    if Numeral.maxNat64 < next then (n, c :: cs) else gather next cs

def topPower : Nat := 308

def power (k : Nat) : Double := .ofFraction false (Nat.pow 10 k) 1

/-- A number times a power of ten, in steps if the power is too small for one; nothing if the result
is too large. Three steps down take any number to zero. -/
def shifted : Nat → Double → Int → Option Double
  | 0, d, _ => some d
  | n + 1, d, e =>
    if e.natAbs ≤ topPower then
      if 0 ≤ e then (d.scale (power e.toNat)).ifFinite? else some (d.divide (power e.natAbs))
    else if d.isZero then some d
    else if 0 ≤ e then none
    else shifted n (d.divide (power topPower)) (e + topPower)

def signed (negative : Bool) (d : Double) : Double := if negative then d.negate else d

def maxInt32 : Nat := 2147483647

/-- The digits before and after the point, and the exponent. One that has more than 32 bits makes
all zero, or too large. -/
def ofParts (negative : Bool) (whole : List Char) (frac : List Char) (exponent : Int) :
    Option Double :=
  let (n, left) := gather 0 whole
  let (n, rest) := gather n frac
  let e := exponent + left.length - (frac.length - rest.length)
  if maxInt32 < exponent.natAbs then
    if n ≠ 0 ∧ 0 < exponent then none else some (signed negative (.ofNat 0))
  else (shifted 4 (.ofNat n) e).map (signed negative)

def ofWhole (negative : Bool) (digits : List Char) : Option Quantity :=
  let n := Numeral.value digits
  if Numeral.maxNat64 < n then (ofParts negative digits [] 0).map .double
  else if negative then
    some (if 0 < n ∧ (n : Int) ≤ -Numeral.minInt64 then .int (-n)
      else .double (.negate (.ofNat n)))
  else some (if (n : Int) ≤ Numeral.maxInt64 then .int n else .double (.ofNat n))

def isExponentMark (c : Char) : Bool := c == 'e' || c == 'E'

/-- The number of a numeral as JSON has it; nothing if it is too large. -/
def ofNumeral? (s : String) : Option Quantity :=
  let (negative, cs) := match s.toList with
    | '-' :: cs => (true, cs)
    | cs => (false, cs)
  let (mantissa, exponent) := cut isExponentMark cs
  let (whole, frac) := cut (· == '.') mantissa
  match frac, exponent with
  | none, none => ofWhole negative whole
  | _, _ => do
    let e ← match exponent with
      | none => some 0
      | some ds => Numeral.int? ds
    (ofParts negative whole (frac.getD []) e).map .double

end Quantity

end Registrar
