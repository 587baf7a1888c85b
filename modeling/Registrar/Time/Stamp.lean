import Registrar.Text.Blank
import Registrar.Time.Day
set_option autoImplicit false

namespace Registrar

inductive StampFault where
  | premature
  | invalid
  | outOfRange
  | trailing
  deriving DecidableEq, Repr

def StampFault.message : StampFault → String
  | .premature => "premature end of input"
  | .invalid => "input contains invalid characters"
  | .outOfRange => "input is out of range"
  | .trailing => "trailing input"

namespace Day

def readNumber (most : Nat) (cs : List Char) : Except StampFault (Nat × List Char) :=
  let ds := (cs.takeWhile Char.isDigit).take most
  if cs = [] then .error .premature
  else if ds = [] then .error .invalid
  else if Numeral.maxInt64 < Numeral.value ds then .error .outOfRange
  else .ok (Numeral.value ds, cs.drop ds.length)

def readYear (cs : List Char) : Except StampFault (Int × List Char) := do
  let (y, rest) ← match cs.dropWhile isBlank with
    | '-' :: cs => (readNumber cs.length cs).map fun (n, r) => (-(n : Int), r)
    | '+' :: cs => (readNumber cs.length cs).map fun (n, r) => ((n : Int), r)
    | cs => (readNumber 4 cs).map fun (n, r) => ((n : Int), r)
  if -2147483648 ≤ y ∧ y < 2147483648 then .ok (y, rest) else .error .outOfRange

/-- A number between one and the last, checked before what follows is read. -/
def readPart (last : Nat) (cs : List Char) : Except StampFault (Nat × List Char) := do
  let (n, rest) ← readNumber 2 (cs.dropWhile isBlank)
  if 1 ≤ n ∧ n ≤ last then .ok (n, rest) else .error .outOfRange

def ofChars (cs : List Char) : Except StampFault Day := do
  let (year, cs) ← readYear cs
  let (month, cs) ← readPart 12 cs
  let (day, cs) ← readPart 31 cs
  if cs ≠ [] then .error .trailing
  else match ofCivil? year month day with
    | some d => .ok d
    | none => .error .outOfRange

def ofStamp (s : String) : Except StampFault Day := ofChars s.toList

end Day

end Registrar
