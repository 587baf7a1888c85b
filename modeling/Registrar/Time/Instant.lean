import Registrar.Time.Day
import Registrar.Time.Span
set_option autoImplicit false

namespace Registrar

abbrev Instant := Int

namespace Instant

def nanosPerSec : Int := 1000000000
def nanosPerDay : Int := 86400 * nanosPerSec

def min : Instant := -8334601228800 * nanosPerSec

def max : Instant := 8210266876800 * nanosPerSec - 1

def InRange (t : Instant) : Prop := min ≤ t ∧ t ≤ max

instance (t : Instant) : Decidable t.InRange := inferInstanceAs (Decidable (_ ∧ _))

def check? (t : Int) : Option Instant := if InRange t then some t else none

def after? (t : Instant) (d : Span) : Option Instant := check? (t + d)

def ofMillis? (n : Int) : Option Instant := check? (n * 1000000)

/-- Whole milliseconds, rounded down also before 1970. -/
def millis (t : Instant) : Int := t / 1000000

def untilInstant (t later : Instant) : Span := (later - t).toNat

def fraction (nanos : Nat) : List Char :=
  if nanos = 0 then []
  else if nanos % 1000000 = 0 then '.' :: Numeral.padded 3 (nanos / 1000000)
  else if nanos % 1000 = 0 then '.' :: Numeral.padded 6 (nanos / 1000)
  else '.' :: Numeral.padded 9 nanos

/-- Date, `T` and time of day of a wall-clock reading, without its zone. -/
def civil (t : Instant) : List Char :=
  let secs := (t / nanosPerSec % 86400).toNat
  let date := match Day.ofNumber? (t / nanosPerDay) with
    | some d => yearText d.year ++ '-' :: Numeral.padded 2 d.month ++ '-' :: Numeral.padded 2 d.day
    | none => []
  date ++ 'T' :: Numeral.padded 2 (secs / 3600) ++ ':' :: Numeral.padded 2 (secs / 60 % 60) ++
    ':' :: Numeral.padded 2 (secs % 60) ++ fraction (t % nanosPerSec).toNat

def text (t : Instant) : String := String.ofList (t.civil ++ ['Z'])

end Instant

end Registrar
