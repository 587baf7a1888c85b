import Registrar.Proofs.Calendar
import Registrar.Identifier
set_option autoImplicit false

namespace Registrar

namespace Day

variable {d e : Day}

theorem beforeMonth_mono (year : Int) {m n : Nat} (hm : 1 ≤ m) (h : m ≤ n) :
    beforeMonth year m ≤ beforeMonth year n := by
  induction h with
  | refl => exact Nat.le_refl _
  | @step n hmn ih =>
    rw [beforeMonth_succ year (Nat.le_trans hm hmn)]
    exact Nat.le_trans ih (Nat.le_add_right _ _)

theorem before_month_end (d : Day) :
    beforeMonth d.year d.month + d.day ≤ beforeMonth d.year (d.month + 1) := by
  rw [beforeMonth_succ d.year d.in_year.1]
  exact Nat.add_le_add_left d.in_month.2 _

theorem before_year_end (d : Day) : d.number < beforeYear (d.year + 1) - epoch := by
  have hmonth := d.before_month_end
  have hmonths := d.in_year
  have hend := beforeMonth_mono d.year (show 1 ≤ d.month + 1 by omega) (show d.month + 1 ≤ 13 by omega)
  have hyear : beforeYear (d.year + 1) = beforeYear d.year + beforeMonth d.year 13 := by
    rw [beforeYear_succ, beforeMonth_end]
    split <;> rfl
  rw [hyear, number]
  omega

theorem year_begun (d : Day) : beforeYear d.year - epoch ≤ d.number := by
  have hday := d.in_month.1
  rw [number]
  omega

theorem number_lt_of_year (h : d.year < e.year) : d.number < e.number := by
  have hends := d.before_year_end
  have hbegun := e.year_begun
  have hyears := beforeYear_mono (show d.year + 1 ≤ e.year from h)
  omega

theorem number_lt_of_month (hy : d.year = e.year) (h : d.month < e.month) :
    d.number < e.number := by
  have hends := d.before_month_end
  have hday := e.in_month.1
  have hmonths := beforeMonth_mono d.year (Nat.le_add_left 1 d.month) (show d.month + 1 ≤ e.month from h)
  rw [number, number, ← hy]
  omega

theorem number_of_month (hy : d.year = e.year) (hm : d.month = e.month) :
    d.number - e.number = d.day - e.day := by
  rw [number, number, hy, hm]
  omega

theorem le_iff_fields : d.le e = true ↔ d.year < e.year ∨ d.year = e.year ∧
    (d.month < e.month ∨ d.month = e.month ∧ d.day ≤ e.day) := by
  simp [le]

theorem le_iff : d.le e = true ↔ d.number ≤ e.number := by
  rw [le_iff_fields]
  rcases Int.lt_trichotomy d.year e.year with hy | hy | hy
  · have hlt := number_lt_of_year hy
    omega
  · rcases Nat.lt_trichotomy d.month e.month with hm | hm | hm
    · have hlt := number_lt_of_month hy hm
      omega
    · have hdays := number_of_month hy hm
      omega
    · have hlt := number_lt_of_month hy.symm hm
      omega
  · have hlt := number_lt_of_year hy
    omega

theorem number_inj (h : d.number = e.number) : d = e := by
  have hle := le_iff_fields.1 (le_iff.2 (Int.le_of_eq h))
  have hge := le_iff_fields.1 (le_iff.2 (Int.le_of_eq h.symm))
  have hfields : d.year = e.year ∧ d.month = e.month ∧ d.day = e.day := by omega
  cases d
  cases e
  simp_all

end Day

namespace Identifier

variable {i j : Identifier}

theorem le_iff : i.le j = true ↔
    i.day.number < j.day.number ∨ i.day = j.day ∧ i.number ≤ j.number := by
  unfold le
  split
  · rename_i hday
    simp [hday]
  · rename_i hday
    have hne : i.day.number ≠ j.day.number := fun h => hday (Day.number_inj h)
    rw [Day.le_iff]
    simp only [hday, false_and, or_false]
    omega

theorem le_trans {k : Identifier} (h : i.le j = true) (h' : j.le k = true) : i.le k = true := by
  rw [le_iff] at h h' ⊢
  rcases h with h | ⟨hd, hn⟩
  · rcases h' with h' | ⟨hd', -⟩
    · exact .inl (Int.lt_trans h h')
    · exact .inl (hd' ▸ h)
  · rw [hd]
    exact h'.imp_right fun ⟨hd', hn'⟩ => ⟨hd', Nat.le_trans hn hn'⟩

theorem le_total (i j : Identifier) : (i.le j || j.le i) = true := by
  rw [Bool.or_eq_true, le_iff, le_iff]
  rcases Int.lt_trichotomy i.day.number j.day.number with hlt | heq | hgt
  · exact .inl (.inl hlt)
  · have hday := Day.number_inj heq
    exact (Nat.le_total i.number j.number).imp (fun h => .inr ⟨hday, h⟩) fun h => .inr ⟨hday.symm, h⟩
  · exact .inr (.inl hgt)

theorem pairwise_sort (is : List Identifier) : (sort is).Pairwise fun i j => i.le j = true :=
  @List.pairwise_mergeSort _ le (fun _ _ _ => le_trans) le_total is

end Identifier

end Registrar
