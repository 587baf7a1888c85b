import Registrar.Text.Numeral
set_option autoImplicit false

namespace Registrar.Uuid

def nibbles : Nat → Nat → List Char
  | 0, _ => []
  | k + 1, n => Nat.digitChar (n % 16) :: nibbles k (n / 16)

def chars (n : Nat) : List Char :=
  let ds := (nibbles 30 n).reverse
  ds.take 8 ++ '-' :: (ds.drop 8).take 4 ++ '-' :: '4' :: (ds.drop 12).take 3 ++
    '-' :: '8' :: (ds.drop 15).take 3 ++ '-' :: ds.drop 18

/-- Different numbers below 16 ^ 30 have different texts. -/
def text (n : Nat) : String := String.ofList (chars n)

end Registrar.Uuid
