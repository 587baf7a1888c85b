import Registrar.Time.Day
set_option autoImplicit false

namespace Registrar

structure Identifier where
  day : Day
  number : Nat
  deriving DecidableEq, Repr

namespace Identifier

/-- The digits that a number has at least. -/
def width : Nat := 8

def chars (i : Identifier) : List Char := i.day.stampChars ++ Numeral.padded width i.number

/-- A number wider than its field is not cut. -/
def text (i : Identifier) : String := String.ofList i.chars

/-- By day, and by number within a day. -/
def le (a b : Identifier) : Bool :=
  if a.day = b.day then a.number ≤ b.number else a.day.le b.day

def sort (is : List Identifier) : List Identifier := is.mergeSort le

end Identifier

end Registrar
