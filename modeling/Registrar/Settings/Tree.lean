import Registrar.Text.Blank
import Registrar.Text.Double
set_option autoImplicit false

namespace Registrar

inductive Tree where
  | nil
  | bool (b : Bool)
  | int (n : Int)
  | double (d : Double)
  | text (s : String)
  | list (items : List Tree)
  | table (fields : List (String × Tree))
  deriving Repr, Inhabited

namespace Tree

/-- Why a text is taken for a number: it may spell a truth value instead. -/
def truthWord? (s : String) : Option Nat :=
  match String.ofList (s.toList.map Char.toLower) with
  | "true" | "on" | "yes" => some 1
  | "false" | "off" | "no" => some 0
  | _ => none

def word? : Tree → Option UInt64
  | .int n => if 0 ≤ n ∧ n ≤ Numeral.maxNat64 then some (UInt64.ofNat n.toNat) else none
  | .bool b => some (if b then 1 else 0)
  | .double d => some (UInt64.ofNat d.toWord)
  | .text s =>
    match truthWord? s with
    | some n => some (UInt64.ofNat n)
    | none => (Numeral.nat64 s.toList).toOption.map UInt64.ofNat
  | .nil | .list _ | .table _ => none

def text? : Tree → Option String
  | .text s => some s
  | .bool b => some (if b then "true" else "false")
  | .int n => some (String.ofList (Numeral.signed n))
  | .double d => some d.text
  | .nil | .list _ | .table _ => none

end Tree

end Registrar
