import Registrar.Text.Numeral
set_option autoImplicit false

namespace Registrar

/-- A finite number is its mantissa times a power of two; zero has a sign. -/
inductive Double where
  | finite (negative : Bool) (mantissa : Nat) (exponent : Int)
  | infinite (negative : Bool)
  | nan
  deriving DecidableEq, Repr

namespace Double

def minExponent : Int := -1074
def maxExponent : Int := 971

def raised (q : Int) : Nat := Nat.pow 2 q.toNat
def lowered (q : Int) : Nat := Nat.pow 2 (-q).toNat

def tens (p : Int) : Nat := Nat.pow 10 p.toNat
def tenths (p : Int) : Nat := Nat.pow 10 (-p).toNat

def leastMantissa : Nat := 4503599627370496

def nearest (num den : Nat) : Nat :=
  let d := num / den
  let r := num % den
  if 2 * r < den ∨ (2 * r = den ∧ d % 2 = 0) then d else d + 1

/-- The exponent at which the mantissa of a fraction has 53 bits, or fewer at the smallest. -/
def exponentOf (num den : Nat) : Int :=
  let q : Int := (Nat.log2 num : Int) - (Nat.log2 den : Int) - 52
  let q := if num * lowered q < leastMantissa * (den * raised q) then q - 1 else q
  max q minExponent

def ofFraction (negative : Bool) (num den : Nat) : Double :=
  if num = 0 then .finite negative 0 minExponent
  else
    let q := exponentOf num den
    let m := nearest (num * lowered q) (den * raised q)
    let (m, q) := if m = 2 * leastMantissa then (leastMantissa, q + 1) else (m, q)
    if maxExponent < q then .infinite negative else .finite negative m q

/-- Beyond this power of ten all is infinite, and below its inverse all is zero. -/
def farPower : Int := 800

def ofDecimal (negative : Bool) (digits : List Char) (power : Int) : Double :=
  let n := Numeral.value digits
  let top := power + (Numeral.decimal n).length
  if n = 0 ∨ top < -farPower then .finite negative 0 minExponent
  else if farPower < top then .infinite negative
  else ofFraction negative (n * tens power) (tenths power)

def ofNat (n : Nat) : Double := ofFraction false n 1

def negate : Double → Double
  | .finite s m q => .finite (!s) m q
  | .infinite s => .infinite (!s)
  | .nan => .nan

def isInfinite : Double → Bool
  | .infinite _ => true
  | _ => false

def ifFinite? (d : Double) : Option Double := if d.isInfinite then none else some d

def isZero : Double → Bool
  | .finite _ m _ => m = 0
  | _ => false

def scale : Double → Double → Double
  | .finite s m q, .finite _ n r => ofFraction s (m * n * raised (q + r)) (lowered (q + r))
  | x, _ => x

def divide : Double → Double → Double
  | .finite s m q, .finite _ n r => ofFraction s (m * raised (q - r)) (n * lowered (q - r))
  | x, _ => x

/-- The nearest whole number, halves away from zero, cut to the range of 64 bits without sign. -/
def toWord : Double → Nat
  | .finite true _ _ | .infinite true | .nan => 0
  | .infinite false => Numeral.maxNat64
  | .finite false m q => min Numeral.maxNat64 ((2 * m * raised q + lowered q) / (2 * lowered q))

/-- The power of ten of the first digit of a fraction below one; the count bounds the search. -/
def leadBelow (den : Nat) : Nat → Nat → Int → Int
  | 0, _, k => k
  | n + 1, num, k => if den ≤ num then k else leadBelow den n (10 * num) (k - 1)

def lead (num den : Nat) : Int :=
  if den ≤ num then ((Numeral.decimal (num / den)).length : Int) - 1 else leadBelow den 400 num 0

/-- A positive number with the range of fractions that round to it, all over one denominator. The
ends belong to the range if the mantissa is even. -/
structure Range where
  low : Nat
  value : Nat
  high : Nat
  den : Nat
  closed : Bool
  deriving Repr

/-- Below a power of two the next number is half as far away as above it. -/
def range (m : Nat) (q : Int) : Range :=
  let u := raised q
  let step := if m = leastMantissa ∧ minExponent < q then u else 2 * u
  ⟨4 * m * u - step, 4 * m * u, 4 * m * u + 2 * u, 4 * lowered q, m % 2 = 0⟩

structure Digits where
  count : Nat
  power : Int
  deriving DecidableEq, Repr

def Range.holds (r : Range) (d : Digits) : Bool :=
  let x := d.count * tens d.power * r.den
  let p := tenths d.power
  if r.closed then r.low * p ≤ x && x ≤ r.high * p else r.low * p < x && x < r.high * p

/-- How far a decimal is from the number, over a denominator that its power alone decides. -/
def Range.distance (r : Range) (d : Digits) : Nat :=
  let x := d.count * tens d.power * r.den
  let y := r.value * tenths d.power
  (x - y) + (y - x)

/-- The decimals next to the number on the grid of a power of ten that round to it; the nearer one
if both do, and the greater if they are equally near. -/
def Range.onGrid (r : Range) (power : Int) : Option Digits :=
  let d := r.value * tenths power / (r.den * tens power)
  let below : Digits := ⟨d, power⟩
  let above : Digits := ⟨d + 1, power⟩
  match r.holds below, r.holds above with
  | true, true => if r.distance below < r.distance above then some below else some above
  | true, false => some below
  | false, true => some above
  | false, false => none

/-- The first grid with a decimal that rounds to the number, from coarse to fine. -/
def Range.shortest (r : Range) : Nat → Int → Digits
  | 0, power => ⟨r.value * tenths power / (r.den * tens power), power⟩
  | n + 1, power =>
    match r.onGrid power with
    | some d => d
    | none => r.shortest n (power - 1)

/-- The fewest digits that read back; seventeen always do. The first grid is that of the next power
of ten above the number, to which it can round. -/
def digits (m : Nat) (q : Int) : Digits :=
  let r := range m q
  r.shortest 18 (lead r.value r.den + 1)

def Digits.chars (d : Digits) : List Char :=
  let ds := Numeral.decimal d.count
  if 0 ≤ d.power then ds ++ List.replicate d.power.toNat '0'
  else
    let places := (-d.power).toNat
    let ds := List.replicate (places + 1 - ds.length) '0' ++ ds
    ds.take (ds.length - places) ++ '.' :: ds.drop (ds.length - places)

def unsignedChars (m : Nat) (q : Int) : List Char :=
  if m = 0 then ['0'] else (digits m q).chars

def text : Double → String
  | .nan => "NaN"
  | .infinite s => if s then "-inf" else "inf"
  | .finite s m q => String.ofList ((if s then ['-'] else []) ++ unsignedChars m q)

end Double

end Registrar
