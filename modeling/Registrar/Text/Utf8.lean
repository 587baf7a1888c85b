import Registrar.Text.Numeral
set_option autoImplicit false

namespace Registrar.Utf8

/-- A wrong sequence of so many bytes, or one cut off at the end, by the number of bytes before. -/
inductive Fault where
  | invalid (length index : Nat)
  | incomplete (index : Nat)
  deriving DecidableEq, Repr

def decimal (n : Nat) : String := String.ofList (Numeral.decimal n)

def Fault.message : Fault → String
  | .invalid length index =>
    "invalid utf-8 sequence of " ++ decimal length ++ " bytes from index " ++ decimal index
  | .incomplete index => "incomplete utf-8 byte sequence from index " ++ decimal index

def isRest (b : UInt8) : Bool := 0x80 ≤ b && b < 0xC0

def fitsThree (a b : UInt8) : Bool :=
  isRest b && !(a == 0xE0 && b < 0xA0) && !(a == 0xED && 0xA0 ≤ b)

def fitsFour (a b : UInt8) : Bool :=
  isRest b && !(a == 0xF0 && b < 0x90) && !(a == 0xF4 && 0x90 ≤ b)

def bits (b : UInt8) (n : Nat) : Nat := b.toNat % Nat.pow 2 n

def decodeFrom (i : Nat) : List UInt8 → Except Fault (List Char)
  | [] => .ok []
  | a :: bs =>
    if a < 0x80 then (decodeFrom (i + 1) bs).map (Char.ofNat a.toNat :: ·)
    else if a < 0xC2 ∨ 0xF4 < a then .error (.invalid 1 i)
    else match bs with
      | [] => .error (.incomplete i)
      | b :: bs =>
        if a < 0xE0 then
          if isRest b then
            (decodeFrom (i + 2) bs).map (Char.ofNat (bits a 5 * 64 + bits b 6) :: ·)
          else .error (.invalid 1 i)
        else if ¬ (if a < 0xF0 then fitsThree a b else fitsFour a b) then .error (.invalid 1 i)
        else match bs with
          | [] => .error (.incomplete i)
          | c :: bs =>
            if ¬ isRest c then .error (.invalid 2 i)
            else if a < 0xF0 then
              (decodeFrom (i + 3) bs).map
                (Char.ofNat ((bits a 4 * 64 + bits b 6) * 64 + bits c 6) :: ·)
            else match bs with
              | [] => .error (.incomplete i)
              | d :: bs =>
                if isRest d then
                  (decodeFrom (i + 4) bs).map
                    (Char.ofNat (((bits a 3 * 64 + bits b 6) * 64 + bits c 6) * 64 + bits d 6) :: ·)
                else .error (.invalid 3 i)

def decode (bs : List UInt8) : Except Fault String := (decodeFrom 0 bs).map String.ofList

end Registrar.Utf8
