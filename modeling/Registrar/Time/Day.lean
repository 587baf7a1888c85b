import Registrar.Text.Numeral
set_option autoImplicit false

namespace Registrar

def isLeap (year : Int) : Bool := year % 4 == 0 && (year % 100 != 0 || year % 400 == 0)

def daysIn (year : Int) : Nat → Nat
  | 2 => if isLeap year then 29 else 28
  | 4 | 6 | 9 | 11 => 30
  | _ => 31

def minYear : Int := -262143
def maxYear : Int := 262142

structure Day where
  year : Int
  month : Nat
  day : Nat
  in_years : minYear ≤ year ∧ year ≤ maxYear
  in_year : 1 ≤ month ∧ month ≤ 12
  in_month : 1 ≤ day ∧ day ≤ daysIn year month
  deriving DecidableEq, Repr

namespace Day

def ofCivil? (year : Int) (month day : Nat) : Option Day :=
  if hy : minYear ≤ year ∧ year ≤ maxYear then
    if hm : 1 ≤ month ∧ month ≤ 12 then
      if hd : 1 ≤ day ∧ day ≤ daysIn year month then some ⟨year, month, day, hy, hm, hd⟩
      else none
    else none
  else none

def beforeYear (year : Int) : Int :=
  365 * year + (year + 3) / 4 - (year + 99) / 100 + (year + 399) / 400

def beforeMonth (year : Int) : Nat → Nat
  | 0 | 1 => 0
  | m + 1 => beforeMonth year m + daysIn year m

def epoch : Int := 719528

def number (d : Day) : Int :=
  beforeYear d.year + beforeMonth d.year d.month + d.day - 1 - epoch

def yearAt (n : Int) : Int :=
  let y := 400 * n / 146097
  if n < beforeYear y then y - 1 else if beforeYear (y + 1) ≤ n then y + 1 else y

/-- The last month, up to the given one, that begins on or before this day of the year. -/
def monthAt (year : Int) (dayOfYear : Nat) : Nat → Nat
  | 0 | 1 => 1
  | m + 1 => if beforeMonth year (m + 1) ≤ dayOfYear then m + 1 else monthAt year dayOfYear m

def ofNumber? (n : Int) : Option Day :=
  let year := yearAt (n + epoch)
  let dayOfYear := (n + epoch - beforeYear year).toNat
  let month := monthAt year dayOfYear 12
  ofCivil? year month (dayOfYear - beforeMonth year month + 1)

/-- The day after; the last day of the calendar has none. -/
def succ? (d : Day) : Option Day :=
  ofCivil? d.year d.month (d.day + 1) <|> ofCivil? d.year (d.month + 1) 1 <|>
    ofCivil? (d.year + 1) 1 1

def le (a b : Day) : Bool :=
  a.year < b.year || (a.year == b.year &&
    (a.month < b.month || (a.month == b.month && a.day ≤ b.day)))

end Day

/-- Four digits at least; a year outside 0 to 9999 carries its sign. -/
def yearText (year : Int) : List Char :=
  if 0 ≤ year ∧ year ≤ 9999 then Numeral.padded 4 year.natAbs
  else (if year < 0 then '-' else '+') :: Numeral.padded 4 year.natAbs

def Day.stampChars (d : Day) : List Char :=
  yearText d.year ++ Numeral.padded 2 d.month ++ Numeral.padded 2 d.day

/-- Year, month and day without separators, shared by identifiers and counter keys. -/
def Day.stamp (d : Day) : String := String.ofList d.stampChars

end Registrar
