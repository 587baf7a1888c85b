import Registrar.Text.Numeral
set_option autoImplicit false

namespace Registrar

abbrev Span := Nat

/-- A reading of the forward clock: the time since the run began. -/
abbrev Tick := Nat

namespace Span

def ofMillis (n : Nat) : Span := n * 1000000
def ofSecs (n : Nat) : Span := n * 1000000000
def wholeMillis (d : Span) : Nat := d / 1000000
def wholeSecs (d : Span) : Nat := d / 1000000000

def seconds (d : Span) : String :=
  String.ofList (Numeral.decimal d.wholeSecs ++ '.' :: Numeral.padded 9 (d % 1000000000))

def trimZeros (cs : List Char) : List Char := (cs.reverse.dropWhile (· == '0')).reverse

def inUnits (d : Span) (unit places : Nat) : List Char :=
  let fraction := trimZeros (Numeral.padded places (d % unit))
  Numeral.decimal (d / unit) ++ if d % unit = 0 then [] else '.' :: fraction

/-- The largest unit that is not zero, with the exact fraction. -/
def text (d : Span) : String :=
  if 1000000000 ≤ d then String.ofList (inUnits d 1000000000 9) ++ "s"
  else if 1000000 ≤ d then String.ofList (inUnits d 1000000 6) ++ "ms"
  else if 1000 ≤ d then String.ofList (inUnits d 1000 3) ++ "µs"
  else String.ofList (Numeral.decimal d) ++ "ns"

end Span

namespace Tick

/-- Readings stay below this bound; a later one does not exist. -/
def limit : Tick := 9223372036854775807 * 1000000000

def after? (t : Tick) (d : Span) : Option Tick := if t + d < limit then some (t + d) else none

theorem eq_of_after? {t u : Tick} {d : Span} (h : t.after? d = some u) : u = t + d := by
  unfold after? at h
  split at h
  · exact (Option.some.inj h).symm
  · cases h

def farAfter (t : Tick) : Tick := t + Span.ofSecs (86400 * 365 * 30)

/-- A later reading for a wait, which may be as long as it likes. -/
def after (t : Tick) (d : Span) : Tick := (t.after? d).getD t.farAfter

theorem le_after (t : Tick) (d : Span) : t ≤ t.after d := by
  unfold after after?
  split
  · exact Nat.le_add_right t d
  · exact Nat.le_add_right t _

theorem lt_after (t : Tick) {d : Span} (h : 0 < d) : t < t.after d := by
  unfold after after?
  split
  · exact Nat.lt_add_of_pos_right h
  · exact Nat.lt_add_of_pos_right (by decide)

end Tick

end Registrar
