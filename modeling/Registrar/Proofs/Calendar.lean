import Mathlib.Data.Int.Init
import Mathlib.Tactic.ByContra
import Registrar.Proofs.Claims
import Registrar.Allocator
set_option autoImplicit false

namespace Registrar

namespace Day

def firstNumber : Int := -96465292

def endNumber : Int := 95026237

theorem beforeYear_succ (year : Int) :
    beforeYear (year + 1) = beforeYear year + if isLeap year then 366 else 365 := by
  have hleap : isLeap year = true ↔ year % 4 = 0 ∧ (¬ year % 100 = 0 ∨ year % 400 = 0) := by
    simp [isLeap]
  unfold beforeYear
  split
  · rename_i h
    have hd := hleap.1 h
    omega
  · rename_i h
    have hd : ¬ (year % 4 = 0 ∧ (¬ year % 100 = 0 ∨ year % 400 = 0)) := fun hd => h (hleap.2 hd)
    omega

theorem yearAt_spec (n : Int) : beforeYear (yearAt n) ≤ n ∧ n < beforeYear (yearAt n + 1) := by
  unfold yearAt
  simp only
  generalize hy : 400 * n / 146097 = y
  -- The mean length of a year leads astray by one year at most.
  have hlow : beforeYear (y - 1) ≤ n := by
    unfold beforeYear
    omega
  have hhigh : n < beforeYear (y + 2) := by
    unfold beforeYear
    omega
  split
  · rename_i hlt
    rw [show y - 1 + 1 = y from by omega]
    exact ⟨hlow, hlt⟩
  · split
    · rename_i hle
      rw [show y + 1 + 1 = y + 2 from by omega]
      exact ⟨hle, hhigh⟩
    · omega

theorem beforeYear_mono {y z : Int} (h : y ≤ z) : beforeYear y ≤ beforeYear z := by
  induction z, h using Int.leInduction with
  | base => exact Int.le_refl _
  | succ z _ ih =>
    rw [beforeYear_succ]
    split <;> omega

theorem yearAt_inRange {n : Int} (h : firstNumber ≤ n ∧ n < endNumber) :
    minYear ≤ yearAt (n + epoch) ∧ yearAt (n + epoch) ≤ maxYear := by
  obtain ⟨hbegun, hends⟩ := yearAt_spec (n + epoch)
  generalize yearAt (n + epoch) = y at hbegun hends ⊢
  have hfirst : beforeYear minYear = firstNumber + epoch := by decide
  have hlast : beforeYear (maxYear + 1) = endNumber + epoch := by decide
  constructor
  · by_contra hy
    have hle := beforeYear_mono (show y + 1 ≤ minYear by omega)
    omega
  · by_contra hy
    have hle := beforeYear_mono (show maxYear + 1 ≤ y by omega)
    omega

theorem beforeMonth_succ (year : Int) {m : Nat} (hm : 1 ≤ m) :
    beforeMonth year (m + 1) = beforeMonth year m + daysIn year m := by
  cases m with
  | zero => cases hm
  | succ m => rfl

theorem beforeMonth_end (year : Int) :
    beforeMonth year 13 = if isLeap year then 366 else 365 := by
  simp only [beforeMonth, daysIn]
  split <;> rfl

theorem monthAt_spec (year : Int) (dayOfYear : Nat) {last : Nat} (hlast : 1 ≤ last) :
    1 ≤ monthAt year dayOfYear last ∧ monthAt year dayOfYear last ≤ last ∧
      beforeMonth year (monthAt year dayOfYear last) ≤ dayOfYear ∧
      (monthAt year dayOfYear last < last →
        dayOfYear < beforeMonth year (monthAt year dayOfYear last + 1)) := by
  induction hlast with
  | refl => simp [monthAt, beforeMonth]
  | @step last hlast ih =>
    have hrec : monthAt year dayOfYear (last + 1) =
        if beforeMonth year (last + 1) ≤ dayOfYear then last + 1
        else monthAt year dayOfYear last := by
      cases last with
      | zero => cases hlast
      | succ k => rfl
    rw [hrec]
    split
    · rename_i hbegun
      exact ⟨Nat.le_add_left 1 last, Nat.le_refl _, hbegun, fun h => absurd h (Nat.lt_irrefl _)⟩
    · rename_i hnot
      obtain ⟨hpos, hle, hbegun, hlater⟩ := ih
      refine ⟨hpos, Nat.le_succ_of_le hle, hbegun, fun _ => ?_⟩
      rcases Nat.lt_or_eq_of_le hle with hlt | heq
      · exact hlater hlt
      · rw [heq]
        exact Nat.lt_of_not_le hnot

theorem isSome_ofNumber? {n : Int} (h : firstNumber ≤ n ∧ n < endNumber) :
    (ofNumber? n).isSome = true := by
  have hyears := yearAt_inRange h
  have hspec := yearAt_spec (n + epoch)
  unfold ofNumber?
  simp only
  generalize yearAt (n + epoch) = year at hyears hspec ⊢
  rw [beforeYear_succ] at hspec
  have hdays : (n + epoch - beforeYear year).toNat < beforeMonth year 13 := by
    rw [beforeMonth_end]
    split at hspec <;> simp_all <;> omega
  generalize (n + epoch - beforeYear year).toNat = dayOfYear at hdays ⊢
  obtain ⟨hpos, hle, hbegun, hlater⟩ := monthAt_spec year dayOfYear (show 1 ≤ 12 by decide)
  generalize monthAt year dayOfYear 12 = month at hpos hle hbegun hlater ⊢
  have hnext : dayOfYear < beforeMonth year (month + 1) := by
    rcases Nat.lt_or_eq_of_le hle with hlt | rfl
    · exact hlater hlt
    · exact hdays
  rw [beforeMonth_succ year hpos] at hnext
  have hday : 1 ≤ dayOfYear - beforeMonth year month + 1 ∧
      dayOfYear - beforeMonth year month + 1 ≤ daysIn year month := by omega
  simp [ofCivil?, hyears, hpos, hle, hday]

end Day

theorem Tick.after_of_isSome {t : Tick} {d : Span} (h : (t.after? d).isSome = true) :
    t.after d = t + d := by
  unfold after
  unfold after? at h ⊢
  split at h
  · rename_i hlt
    rw [if_pos hlt]
    rfl
  · cases h

/-- Less than a day away from UTC, at every moment. -/
structure Zone.Near (z : Zone) : Prop where
  standard : -86400 < z.offset ∧ z.offset < 86400
  daylight : ∀ d ∈ z.daylight, -86400 < d.offset ∧ d.offset < 86400

theorem Zone.Near.offsetAt {z : Zone} (h : z.Near) (secs : Int) :
    -86400 < z.offsetAt secs ∧ z.offsetAt secs < 86400 := by
  unfold Zone.offsetAt
  split
  · exact h.standard
  · rename_i d hd
    simp only
    split
    · exact h.daylight d hd
    · exact h.standard

/-- Started in 1970 or later, and not beyond the calendar. -/
structure Clock.Sane (c : Clock) : Prop where
  origin : 0 ≤ c.origin
  wall : c.wall ≤ Instant.max
  zone : c.zone.Near

namespace Clock.Sane

variable {c : Clock}

theorem wall_nonneg (h : c.Sane) : 0 ≤ c.wall := by
  have horigin := h.origin
  unfold Clock.wall
  lia

theorem now_le (h : c.Sane) : c.now ≤ Instant.max := by
  have horigin := h.origin
  have hwall := h.wall
  unfold Clock.wall at hwall
  lia

theorem isSome_after? (h : c.Sane) {d : Span} (hd : Instant.max + d < Tick.limit) :
    (c.now.after? d).isSome = true := by
  have hnow := h.now_le
  have hlt : c.now + d < Tick.limit := by lia
  simp [Tick.after?, hlt]

theorem isSome_after?_of_le (h : c.Sane) {d : Span} (hd : d ≤ Instant.max) :
    (c.now.after? d).isSome = true := by
  have hfar : Instant.max + Instant.max < Tick.limit := by decide
  exact h.isSome_after? (by lia)

theorem after?_eq (h : c.Sane) (d : Span) :
    c.wall.after? d = if c.wall + d ≤ Instant.max then some (c.wall + d) else none := by
  have hwall := h.wall_nonneg
  have hmin : Instant.min ≤ 0 := by decide
  have hlow : Instant.min ≤ c.wall + d := by lia
  simp [Instant.after?, Instant.check?, Instant.InRange, hlow]

theorem isSome_today? (h : c.Sane) (hl : c.wall + Instant.nanosPerDay ≤ Instant.max) :
    c.today?.isSome = true := by
  have hwall := h.wall_nonneg
  have hoffset := h.zone.offsetAt (c.wall / Instant.nanosPerSec)
  refine Day.isSome_ofNumber? ?_
  unfold Zone.localTime
  generalize c.zone.offsetAt (c.wall / Instant.nanosPerSec) = offset at hoffset ⊢
  simp only [Instant.max, Instant.nanosPerDay, Instant.nanosPerSec] at hl ⊢
  unfold Day.firstNumber Day.endNumber
  lia

theorem later (h : c.Sane) {d : Span} (hd : c.wall + d ≤ Instant.max) :
    c.now.after d = c.now + d ∧ ({ c with now := c.now + d } : Clock).Sane := by
  have hwall := h.wall_nonneg
  refine ⟨Tick.after_of_isSome (h.isSome_after?_of_le (by lia)), h.origin, ?_, h.zone⟩
  have hmoved : ({ c with now := c.now + d } : Clock).wall = c.wall + d := by
    unfold Clock.wall
    lia
  rw [hmoved]
  exact hd

theorem counterTtl_le (h : c.Sane) {a : Allocator} (hg : a.grace ≤ Instant.max) (day : Day) :
    a.counterTtl c day ≤ Instant.max := by
  unfold Allocator.counterTtl
  split
  · rename_i midnight hm
    split
    · have hle : midnight ≤ Instant.max := by
        obtain ⟨next, -, hm⟩ := Option.bind_eq_some_iff.1 hm
        obtain ⟨offset, -, hm⟩ := Option.bind_eq_some_iff.1 hm
        obtain ⟨rfl, hrange⟩ := Instant.check?_inRange hm
        exact hrange.2
      have hwall := h.wall_nonneg
      have hmax : 0 ≤ Instant.max := by decide
      unfold Instant.untilInstant
      lia
    · exact hg
  · exact hg

end Clock.Sane

end Registrar
