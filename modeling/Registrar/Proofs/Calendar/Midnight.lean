import Registrar.Proofs.Calendar
/-!
Local midnights. Where daylight time is kept, the midnight that ends a day may be skipped, or come
twice, and a day that has ended may come back for a while. Main statement: the counter of the running
day is kept until the day is over for good (`counter_outlives_day`).
-/
set_option autoImplicit false

namespace Registrar

namespace Day

theorem of_ofCivil? {year : Int} {month day : Nat} {d : Day}
    (h : ofCivil? year month day = some d) :
    d.year = year ∧ d.month = month ∧ d.day = day := by
  unfold ofCivil? at h
  split at h
  · split at h
    · split at h
      · cases h
        exact ⟨rfl, rfl, rfl⟩
      · cases h
    · cases h
  · cases h

theorem exists_ofCivil? {year : Int} {month day : Nat} (hy : minYear ≤ year ∧ year ≤ maxYear)
    (hm : 1 ≤ month ∧ month ≤ 12) (hd : 1 ≤ day ∧ day ≤ daysIn year month) :
    ∃ d, ofCivil? year month day = some d :=
  ⟨⟨year, month, day, hy, hm, hd⟩, by simp [ofCivil?, hy, hm, hd]⟩

theorem ofCivil?_eq_none {year : Int} {month day : Nat} (h : 12 < month ∨ daysIn year month < day) :
    ofCivil? year month day = none := by
  cases hd : ofCivil? year month day with
  | none => rfl
  | some d =>
    obtain ⟨rfl, rfl, rfl⟩ := of_ofCivil? hd
    have hmonths := d.in_year
    have hdays := d.in_month
    omega

theorem number_of_ofNumber? {n : Int} {d : Day} (h : ofNumber? n = some d) : d.number = n := by
  obtain ⟨hy, hm, hd⟩ := of_ofCivil? h
  have hbegun := (yearAt_spec (n + epoch)).1
  have hmonth := (monthAt_spec (yearAt (n + epoch))
    (n + epoch - beforeYear (yearAt (n + epoch))).toNat (show 1 ≤ 12 by decide)).2.2.1
  simp only [number, hy, hm, hd]
  omega

theorem one_le_daysIn (year : Int) (month : Nat) : 1 ≤ daysIn year month := by
  unfold daysIn
  split
  · split <;> decide
  all_goals decide

theorem succ?_eq {d : Day} (hd : d.year < maxYear) :
    ∃ next, d.succ? = some next ∧ next.number = d.number + 1 := by
  have hyears := d.in_years
  have hmonths := d.in_year
  have hdays := d.in_month
  unfold succ?
  by_cases hday : d.day + 1 ≤ daysIn d.year d.month
  · obtain ⟨next, hnext⟩ := exists_ofCivil? hyears hmonths ⟨Nat.le_add_left 1 d.day, hday⟩
    obtain ⟨hy, hm, hn⟩ := of_ofCivil? hnext
    refine ⟨next, by rw [hnext]; rfl, ?_⟩
    simp only [number, hy, hm, hn]
    omega
  · have hlast : d.day = daysIn d.year d.month := by omega
    rw [ofCivil?_eq_none (.inr (Nat.lt_of_not_le hday))]
    by_cases hmonth : d.month + 1 ≤ 12
    · obtain ⟨next, hnext⟩ : ∃ next, ofCivil? d.year (d.month + 1) 1 = some next :=
        exists_ofCivil? hyears ⟨Nat.le_add_left 1 d.month, hmonth⟩ ⟨Nat.le_refl 1, one_le_daysIn _ _⟩
      obtain ⟨hy, hm, hn⟩ := of_ofCivil? hnext
      refine ⟨next, by rw [hnext]; rfl, ?_⟩
      simp only [number, hy, hm, hn, hlast, beforeMonth_succ d.year hmonths.1]
      omega
    · have hdecember : d.month = 12 := by omega
      rw [ofCivil?_eq_none (.inl (Nat.lt_of_not_le hmonth))]
      obtain ⟨next, hnext⟩ : ∃ next, ofCivil? (d.year + 1) 1 1 = some next :=
        exists_ofCivil? (by omega) (by decide) ⟨Nat.le_refl 1, one_le_daysIn _ _⟩
      obtain ⟨hy, hm, hn⟩ := of_ofCivil? hnext
      refine ⟨next, by rw [hnext]; rfl, ?_⟩
      have hend : beforeMonth d.year 12 + 31 = if isLeap d.year then 366 else 365 :=
        beforeMonth_end d.year
      have hdecemberDays : daysIn d.year 12 = 31 := rfl
      have hjanuary : beforeMonth (d.year + 1) 1 = 0 := rfl
      simp only [number, hy, hm, hn, hlast, hdecember, hdecemberDays, hjanuary, beforeYear_succ]
      split at hend <;> simp_all <;> omega

def yearStart (year : Int) : Int := (beforeYear year - epoch) * 86400

theorem yearStart_mono {y z : Int} (h : y ≤ z) : yearStart y ≤ yearStart z := by
  have hle := beforeYear_mono h
  unfold yearStart
  omega

theorem yearStart_yearOfWall (wall : Int) :
    yearStart (Zone.yearOfWall wall) ≤ wall ∧ wall < yearStart (Zone.yearOfWall wall + 1) := by
  have hspec := yearAt_spec (wall / 86400 + epoch)
  unfold Zone.yearOfWall yearStart
  omega

end Day

open Day (yearStart yearStart_mono yearStart_yearOfWall)

/-- One daylight period inside each calendar year, longer than twice what it gains. -/
structure Daylight.Seasonal (d : Daylight) (standard : Int) : Prop where
  gains : standard < d.offset
  inside : ∀ year, yearStart year ≤ d.start year ∧ d.stop year ≤ yearStart (year + 1)
  long : ∀ year, 2 * (d.offset - standard) < d.stop year - d.start year

theorem Yearly.seasonal {start stop : Yearly} {offset standard : Int} (hgains : standard < offset)
    (hfirst : 1 ≤ start.dayOfYear) (horder : start.dayOfYear ≤ stop.dayOfYear)
    (hlast : stop.dayOfYear ≤ 365) (hend : stop.second ≤ 86400)
    (hlong : 2 * (offset - standard) <
      ((stop.dayOfYear : Int) - start.dayOfYear) * 86400 + stop.second - start.second) :
    Daylight.Seasonal ⟨offset, start, stop⟩ standard where
  gains := hgains
  inside year := by
    have hnext := Day.beforeYear_succ year
    simp only [Yearly.wall, yearStart]
    split <;> split <;> split at hnext <;> simp_all <;> omega
  long year := by
    simp only [Yearly.wall]
    split <;> split <;> simp_all <;> omega

def Zone.Seasonal (z : Zone) : Prop := ∀ d ∈ z.daylight, d.Seasonal z.offset

namespace Zone

variable {z : Zone} {d : Daylight} {secs wall offset : Int}

def reading (z : Zone) (secs : Int) : Int := secs + z.offsetAt secs

theorem reading_cases (hd : z.daylight = some d) (secs : Int) :
    ∃ year, yearStart year ≤ secs + z.offset ∧ secs + z.offset < yearStart (year + 1) ∧
      (z.reading secs = secs + d.offset ∧ d.start year ≤ secs + z.offset ∧
          secs + d.offset < d.stop year ∨
        z.reading secs = secs + z.offset ∧
          (secs + z.offset < d.start year ∨ d.stop year ≤ secs + d.offset)) := by
  obtain ⟨hbegun, hends⟩ := yearStart_yearOfWall (secs + z.offset)
  refine ⟨yearOfWall (secs + z.offset), hbegun, hends, ?_⟩
  simp only [reading, offsetAt, hd]
  split
  · rename_i hin
    exact .inl ⟨rfl, hin⟩
  · rename_i hout
    exact .inr ⟨rfl, by omega⟩

theorem offsetOf?_cases (hd : z.daylight = some d) (wall : Int) :
    ∃ year, yearStart year ≤ wall ∧ wall < yearStart (year + 1) ∧
      (z.offsetOf? wall = some z.offset ∧ wall ≤ d.start year ∨
        z.offsetOf? wall = none ∧ d.start year < wall ∧
          wall < d.start year + (d.offset - z.offset) ∨
        z.offsetOf? wall = some d.offset ∧ d.start year + (d.offset - z.offset) ≤ wall ∧
          wall < d.stop year - (d.offset - z.offset) ∨
        z.offsetOf? wall = some z.offset ∧ d.stop year - (d.offset - z.offset) ≤ wall) := by
  obtain ⟨hbegun, hends⟩ := yearStart_yearOfWall wall
  refine ⟨yearOfWall wall, hbegun, hends, ?_⟩
  simp only [offsetOf?, hd]
  split
  · rename_i hearly
    exact .inl ⟨rfl, hearly⟩
  · split
    · rename_i hskipped
      exact .inr (.inl ⟨rfl, by omega, hskipped⟩)
    · split
      · rename_i hsummer
        exact .inr (.inr (.inl ⟨rfl, by omega, hsummer⟩))
      · exact .inr (.inr (.inr ⟨rfl, by omega⟩))

/-- Before the moment that a wall reading is taken for: so is every second at which the walls show
an earlier reading, also one that comes back. -/
theorem before_of_reading (hz : z.Seasonal) (ho : z.offsetOf? wall = some offset)
    (hr : z.reading secs < wall) : secs < wall - offset := by
  cases hd : z.daylight with
  | none =>
    simp only [offsetOf?, hd, Option.some.injEq] at ho
    simp only [reading, offsetAt, hd] at hr
    omega
  | some d =>
    have hs := hz d hd
    have hgains := hs.gains
    obtain ⟨year, hnew, hnext, hreading⟩ := reading_cases hd secs
    obtain ⟨found, hbegun, hends, hfound⟩ := offsetOf?_cases hd wall
    have hinside := hs.inside found
    rcases Int.lt_trichotomy year found with hlt | rfl | hgt
    · have hle := yearStart_mono (show year + 1 ≤ found from hlt)
      rcases hfound with ⟨hf, hw⟩ | ⟨hf, hw⟩ | ⟨hf, hw⟩ | ⟨hf, hw⟩ <;> rw [hf] at ho <;> cases ho <;>
        omega
    · rcases hfound with ⟨hf, hw⟩ | ⟨hf, hw⟩ | ⟨hf, hw⟩ | ⟨hf, hw⟩ <;> rw [hf] at ho <;> cases ho <;>
        omega
    · have hle := yearStart_mono (show found + 1 ≤ year from hgt)
      omega

/-- A day whose last midnight is skipped is shown by the standard clock alone, and for less than a
day. -/
theorem shown_of_skipped (hz : z.Seasonal) {n : Int} (ho : z.offsetOf? (n * 86400 + 86400) = none) :
    ∃ start, start < n * 86400 + 86400 ∧
      ∀ secs, n * 86400 ≤ z.reading secs → z.reading secs < n * 86400 + 86400 →
        z.reading secs = secs + z.offset ∧ secs + z.offset < start := by
  cases hd : z.daylight with
  | none => simp [offsetOf?, hd] at ho
  | some d =>
    have hs := hz d hd
    have hgains := hs.gains
    obtain ⟨found, hbegun, hends, hfound⟩ := offsetOf?_cases hd (n * 86400 + 86400)
    have hinside := hs.inside found
    have hlong := hs.long found
    have hgap : d.start found < n * 86400 + 86400 ∧
        n * 86400 + 86400 < d.start found + (d.offset - z.offset) := by
      rcases hfound with ⟨hf, -⟩ | ⟨-, hf⟩ | ⟨hf, -⟩ | ⟨hf, -⟩
      · cases hf.symm.trans ho
      · exact hf
      · cases hf.symm.trans ho
      · cases hf.symm.trans ho
    have hday : yearStart found ≤ n * 86400 := by
      unfold yearStart at hinside ⊢
      omega
    refine ⟨d.start found, hgap.1, fun secs hfirst hlast => ?_⟩
    obtain ⟨year, hnew, hnext, hreading⟩ := reading_cases hd secs
    rcases Int.lt_trichotomy year found with hlt | rfl | hgt
    · have hle := yearStart_mono (show year + 1 ≤ found from hlt)
      have hstop := (hs.inside year).2
      omega
    · omega
    · have hle := yearStart_mono (show found + 1 ≤ year from hgt)
      omega

theorem reading_of_localDay? {t : Instant} {day : Day} (h : z.localDay? t = some day) :
    day.number * 86400 ≤ z.reading (t / Instant.nanosPerSec) ∧
      z.reading (t / Instant.nanosPerSec) < day.number * 86400 + 86400 := by
  have hn := Day.number_of_ofNumber? h
  unfold localTime at hn
  unfold reading
  generalize z.offsetAt (t / Instant.nanosPerSec) = offset at hn ⊢
  simp only [Instant.nanosPerDay, Instant.nanosPerSec] at hn ⊢
  omega

end Zone

namespace Day

theorem beforeMonth_le (year : Int) (month : Nat) : beforeMonth year month ≤ 31 * month := by
  induction month with
  | zero => simp [beforeMonth]
  | succ m ih =>
    cases m with
    | zero => simp [beforeMonth]
    | succ m =>
      rw [beforeMonth_succ year (Nat.le_add_left 1 m)]
      have hle := daysIn_le year (m + 1)
      omega

theorem number_bounds {day : Day} (h : 0 ≤ day.year ∧ day.year ≤ 9999) :
    -1000000 ≤ day.number ∧ day.number ≤ 3000000 := by
  have hlow := beforeYear_mono h.1
  have hhigh := beforeYear_mono h.2
  have hzero : beforeYear 0 = 0 := by decide
  have hend : beforeYear 9999 = 3652060 := by decide
  have hmonth := beforeMonth_le day.year day.month
  have hmonths := day.in_year
  have hday := day.in_month
  have hle := daysIn_le day.year day.month
  unfold number epoch
  omega

end Day

theorem Zone.Near.check? {z : Zone} (h : z.Near) {wall offset : Int}
    (ho : z.offsetOf? wall = some offset) (hw : -86400000000 ≤ wall ∧ wall ≤ 86400 * 3000001) :
    Instant.check? ((wall - offset) * Instant.nanosPerSec) =
      some ((wall - offset) * Instant.nanosPerSec) := by
  have hoffset : -86400 < offset ∧ offset < 86400 := by
    cases hd : z.daylight with
    | none =>
      simp only [offsetOf?, hd, Option.some.injEq] at ho
      rw [← ho]
      exact h.standard
    | some d =>
      obtain ⟨_, -, -, hfound⟩ := offsetOf?_cases hd wall
      rcases hfound with ⟨hf, -⟩ | ⟨hf, -⟩ | ⟨hf, -⟩ | ⟨hf, -⟩ <;> rw [hf] at ho <;> cases ho
      · exact h.standard
      · exact h.daylight d hd
      · exact h.standard
  refine if_pos ?_
  simp only [Instant.InRange, Instant.min, Instant.max, Instant.nanosPerSec]
  lia

/-- The counter of the running day has some time left, and lives on for as long as the day can still
be shown: also where its last midnight is skipped, and where it comes back after that midnight. -/
theorem Allocator.counter_outlives_day {a : Allocator} {c : Clock} {day : Day}
    (hg : Span.ofSecs 86400 ≤ a.grace) (hnear : c.zone.Near) (hz : c.zone.Seasonal)
    (hday : c.today? = some day) (hyears : 0 ≤ day.year ∧ day.year ≤ 9999) :
    0 < a.counterTtl c day ∧
      ∀ t, c.wall ≤ t → c.zone.localDay? t = some day → t < c.wall + a.counterTtl c day := by
  have hbounds := Day.number_bounds hyears
  obtain ⟨next, hnext, hnumber⟩ := Day.succ?_eq (d := day) (by simp only [maxYear]; omega)
  have hwall : next.number * 86400 = day.number * 86400 + 86400 := by omega
  have hnow := Zone.reading_of_localDay? hday
  simp only [counterTtl, hnext, Option.bind_eq_bind, Option.bind_some, Zone.midnight?, hwall]
  simp only [Span.ofSecs] at hg
  cases ho : c.zone.offsetOf? (day.number * 86400 + 86400) with
  | none =>
    obtain ⟨start, hstart, hshown⟩ := Zone.shown_of_skipped hz ho
    have hfirst := hshown _ hnow.1 hnow.2
    refine ⟨by simp; lia, fun t ht hd => ?_⟩
    have hlater := Zone.reading_of_localDay? hd
    have hlast := hshown _ hlater.1 hlater.2
    simp only [Instant.nanosPerSec] at *
    simp
    lia
  | some offset =>
    have hcheck := hnear.check? ho (by omega)
    have hbefore := Zone.before_of_reading hz ho hnow.2
    simp only [Option.bind_some, hcheck]
    have hlt : c.wall < (day.number * 86400 + 86400 - offset) * Instant.nanosPerSec := by
      simp only [Instant.nanosPerSec] at *
      lia
    rw [if_pos hlt]
    unfold Instant.untilInstant
    refine ⟨by lia, fun t ht hd => ?_⟩
    have hlater := Zone.before_of_reading hz ho (Zone.reading_of_localDay? hd).2
    simp only [Instant.nanosPerSec] at *
    lia

namespace Day

def lastSunday (year : Int) (month : Nat) : Int :=
  let last := beforeYear year + beforeMonth year (month + 1) - 1 - epoch
  last - (last + 4) % 7

theorem lastSunday_bounds (year : Int) (month : Nat) :
    beforeYear year + beforeMonth year (month + 1) - 7 - epoch ≤ lastSunday year month ∧
      lastSunday year month ≤ beforeYear year + beforeMonth year (month + 1) - 1 - epoch := by
  simp only [lastSunday]
  omega

end Day

/-- On the eve of the last Sunday of March the clocks go from half past eleven to half past midnight,
and on the last Sunday of October back from half past midnight. -/
def Zone.nocturnal : Zone :=
  ⟨0, some ⟨3600, fun year => Day.lastSunday year 3 * 86400 - 1800,
    fun year => Day.lastSunday year 10 * 86400 + 1800⟩⟩

theorem Zone.nocturnal_seasonal : Zone.nocturnal.Seasonal := by
  have hmarch : ∀ year, Day.beforeMonth year 4 = if isLeap year then 91 else 90 := by
    intro year
    simp only [Day.beforeMonth, daysIn]
    split <;> rfl
  have hoctober : ∀ year, Day.beforeMonth year 11 = if isLeap year then 305 else 304 := by
    intro year
    simp only [Day.beforeMonth, daysIn]
    split <;> rfl
  rintro d ⟨rfl⟩
  have hstandard : Zone.nocturnal.offset = 0 := rfl
  refine ⟨by decide, fun year => ?_, fun year => ?_⟩
  all_goals
    have hspring := Day.lastSunday_bounds year 3
    have hautumn := Day.lastSunday_bounds year 10
    have hnext := Day.beforeYear_succ year
    simp only [Nat.reduceAdd, hmarch, hoctober] at hspring hautumn
    simp only [yearStart, hstandard]
    split at hnext <;> simp_all <;> omega

def Day.october (day : Nat) (h : 1 ≤ day ∧ day ≤ 31) : Day :=
  ⟨2021, 10, day, by decide, by decide, h⟩

/-- One minute before the first of two midnights; sixteen minutes later it is the next day, and
after another half hour the old one again. -/
def Clock.beforeMidnight : Clock := ⟨1635634740000000000, .nocturnal, 0⟩

theorem Allocator.counter_outlives_day_twice :
    let day := Day.october 30 (by decide)
    let next := Day.october 31 (by decide)
    Zone.nocturnal.localDay? 1635635700000000000 = some next ∧
      Zone.nocturnal.localDay? 1635637500000000000 = some day ∧
      1635637500000000000 < Clock.beforeMidnight.wall + standard.counterTtl .beforeMidnight day := by
  have hnear : Zone.nocturnal.Near := ⟨by decide, fun d hd => by cases hd; decide⟩
  refine ⟨by decide +kernel, by decide +kernel, ?_⟩
  exact (counter_outlives_day (by decide) hnear Zone.nocturnal_seasonal (by decide +kernel)
    (by decide)).2 _ (by decide) (by decide +kernel)

end Registrar
