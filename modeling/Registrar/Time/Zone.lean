import Registrar.Time.Instant
/-!
Local time: a fixed offset from UTC, or one with a daylight period inside each calendar year.
Wall readings are seconds since 1 January 1970 on the local clock.
-/
set_option autoImplicit false

namespace Registrar

/-- Daylight time of each year runs from a wall reading `start`, on the standard clock, to a wall
reading `stop`, on its own. -/
structure Daylight where
  offset : Int
  start : Int → Int
  stop : Int → Int

/-- A date that is the same every year: a day of the year, 29 February left out, and a second of
that day. -/
structure Yearly where
  dayOfYear : Nat
  second : Nat
  deriving DecidableEq, Repr

def Yearly.wall (m : Yearly) (year : Int) : Int :=
  let leapDay : Int := if isLeap year ∧ 60 ≤ m.dayOfYear then 1 else 0
  (Day.beforeYear year + m.dayOfYear - 1 + leapDay - Day.epoch) * 86400 + m.second

instance : Coe Yearly (Int → Int) := ⟨Yearly.wall⟩

structure Zone where
  offset : Int
  daylight : Option Daylight

namespace Zone

def utc : Zone := ⟨0, none⟩

def yearOfWall (wall : Int) : Int := Day.yearAt (wall / 86400 + Day.epoch)

def offsetAt (z : Zone) (secs : Int) : Int :=
  match z.daylight with
  | none => z.offset
  | some d =>
    let standard := secs + z.offset
    let year := yearOfWall standard
    if d.start year ≤ standard ∧ secs + d.offset < d.stop year then d.offset
    else z.offset

/-- The offset that a wall reading is taken to have. The readings that the start of daylight time
skips have none, and those that its end repeats belong to standard time. -/
def offsetOf? (z : Zone) (wall : Int) : Option Int :=
  match z.daylight with
  | none => some z.offset
  | some d =>
    let year := yearOfWall wall
    let gain := d.offset - z.offset
    let start := d.start year
    let stop := d.stop year
    if wall ≤ start then some z.offset
    else if wall < start + gain then none
    else if wall < stop - gain then some d.offset
    else some z.offset

def localTime (z : Zone) (t : Instant) : Int :=
  t + z.offsetAt (t / Instant.nanosPerSec) * Instant.nanosPerSec

def localDay? (z : Zone) (t : Instant) : Option Day :=
  Day.ofNumber? (z.localTime t / Instant.nanosPerDay)

/-- The instant at which a local day begins, if its midnight exists. -/
def midnight? (z : Zone) (d : Day) : Option Instant := do
  let wall := d.number * 86400
  let offset ← z.offsetOf? wall
  Instant.check? ((wall - offset) * Instant.nanosPerSec)

/-- Hours and minutes, the seconds of an offset rounded to the nearest minute. -/
def offsetText (offset : Int) : List Char :=
  let minutes := (offset.natAbs + 30) / 60
  (if offset < 0 then '-' else '+') :: Numeral.padded 2 (minutes / 60) ++
    ':' :: Numeral.padded 2 (minutes % 60)

def localText (z : Zone) (t : Instant) : String :=
  String.ofList (Instant.civil (z.localTime t) ++
    offsetText (z.offsetAt (t / Instant.nanosPerSec)))

end Zone

/-- The two clocks of a run: the forward clock, and the wall clock that moves with it. -/
structure Clock where
  origin : Instant
  zone : Zone
  now : Tick

namespace Clock

def wall (c : Clock) : Instant := c.origin + c.now

def today? (c : Clock) : Option Day := c.zone.localDay? c.wall

end Clock

end Registrar
