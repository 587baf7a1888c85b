import Mathlib.Algebra.Group.Nat.Defs
import Registrar.Allocator
set_option autoImplicit false

namespace Registrar

namespace Numeral

@[simp] theorem value_decimal (n : Nat) : value (decimal n) = n :=
  Nat.ofDigitChars_ten_toDigits

theorem value_append (cs ds : List Char) :
    value (cs ++ ds) = 10 ^ ds.length * value cs + value ds :=
  (Nat.ofDigitChars_append 0).trans Nat.ofDigitChars_eq_ofDigitChars_zero

theorem value_cons (c : Char) (cs : List Char) :
    value (c :: cs) = 10 ^ cs.length * digitValue c + value cs := by
  simpa [value] using value_append [c] cs

theorem toNat_of_isDigit {c : Char} (h : c.isDigit = true) : 48 ≤ c.toNat ∧ c.toNat ≤ 57 := by
  simpa [Char.isDigit, UInt32.le_iff_toNat_le] using h

theorem toNat_eq_of_isDigit {c : Char} (h : c.isDigit = true) : c.toNat = 48 + digitValue c := by
  have hc := toNat_of_isDigit h
  have hzero : '0'.toNat = 48 := rfl
  rw [digitValue, hzero]
  omega

theorem digitValue_lt {c : Char} (h : c.isDigit = true) : digitValue c < 10 := by
  have hc := toNat_of_isDigit h
  have heq := toNat_eq_of_isDigit h
  omega

theorem value_lt {cs : List Char} (h : ∀ c ∈ cs, c.isDigit = true) : value cs < 10 ^ cs.length := by
  induction cs with
  | nil => exact Nat.zero_lt_one
  | cons c cs ih =>
    have hfirst : 10 ^ cs.length * (digitValue c + 1) ≤ 10 ^ cs.length * 10 :=
      Nat.mul_le_mul_left _ (digitValue_lt (h c List.mem_cons_self))
    have hrest := ih fun d hd => h d (List.mem_cons_of_mem c hd)
    rw [value_cons, List.length_cons, Nat.pow_succ]
    rw [Nat.mul_succ] at hfirst
    omega

theorem isDigit_of_mem_decimal {n : Nat} {c : Char} (h : c ∈ decimal n) : c.isDigit = true :=
  Nat.isDigit_of_mem_toDigits (by decide) (by decide) h

theorem decimal_ne_nil (n : Nat) : decimal n ≠ [] := Nat.toDigits_ne_nil

@[simp] theorem value_padded (width n : Nat) : value (padded width n) = n := by
  have h := Nat.ofDigitChars_append (b := 10) (l := List.replicate (width - (decimal n).length) '0')
    (m := decimal n) 0
  rw [Nat.ofDigitChars_replicate_zero, Nat.mul_zero] at h
  exact h.trans (value_decimal n)

theorem isDigit_of_mem_padded {width n : Nat} {c : Char} (h : c ∈ padded width n) :
    c.isDigit = true := by
  rcases List.mem_append.1 h with h | h
  · rw [(List.mem_replicate.1 h).2]
    rfl
  · exact isDigit_of_mem_decimal h

theorem padded_ne_nil (width n : Nat) : padded width n ≠ [] := by
  simp [padded, decimal_ne_nil]

theorem length_padded {width n : Nat} (hw : 0 < width) (h : n < 10 ^ width) :
    (padded width n).length = width := by
  have hl : (decimal n).length ≤ width := (Nat.length_toDigits_le_iff (by decide) hw).2 h
  simp [padded]
  omega

theorem padded_inj {width m n : Nat} (h : padded width m = padded width n) : m = n := by
  rw [← value_padded width m, h, value_padded]

theorem nat?_padded (width n : Nat) : nat? (padded width n) = some n := by
  have hd : (padded width n).all Char.isDigit = true :=
    List.all_eq_true.2 fun c hc => isDigit_of_mem_padded hc
  simp [nat?, hd, padded_ne_nil]

theorem int?_of_digits {cs : List Char} (h : ∀ c ∈ cs, c.isDigit = true) :
    int? cs = (nat? cs).map Int.ofNat := by
  unfold int?
  split
  · simp at h
  · simp at h
  · rfl

theorem int?_padded {width : Nat} {n : Int} (h : 0 ≤ n) :
    int? (padded width n.natAbs) = some n := by
  have hn : (n.natAbs : Int) = n := by omega
  rw [int?_of_digits fun c hc => isDigit_of_mem_padded hc, nat?_padded]
  simp [hn]

theorem int?_plus {width : Nat} {n : Int} (h : 0 ≤ n) :
    int? ('+' :: padded width n.natAbs) = some n := by
  have hn : (n.natAbs : Int) = n := by omega
  simp [int?, nat?_padded, hn]

theorem int?_minus {width : Nat} {n : Int} (h : n < 0) :
    int? ('-' :: padded width n.natAbs) = some n := by
  have hn : -(n.natAbs : Int) = n := by omega
  rw [int?, nat?_padded]
  exact congrArg some hn

theorem padded_zero (n : Nat) : padded 0 n = decimal n := by simp [padded]

theorem int64?_signed {n : Int} (hmin : minInt64 ≤ n) (hmax : n ≤ maxInt64) :
    int64? (signed n) = some n := by
  have h : int? (signed n) = some n := by
    unfold signed
    split
    · rename_i hn
      exact padded_zero n.natAbs ▸ int?_minus hn
    · rename_i hn
      exact padded_zero n.natAbs ▸ int?_padded (Int.not_lt.1 hn)
  simp [int64?, h, hmin, hmax]

end Numeral

theorem int?_yearText (year : Int) : Numeral.int? (yearText year) = some year := by
  unfold yearText
  split
  · rename_i h
    exact Numeral.int?_padded h.1
  · split
    · rename_i h
      exact Numeral.int?_minus h
    · rename_i h
      exact Numeral.int?_plus (Int.not_lt.1 h)

theorem daysIn_le (year : Int) (month : Nat) : daysIn year month ≤ 31 := by
  unfold daysIn
  split
  · split <;> omega
  all_goals omega

namespace Day

theorem month_lt (d : Day) : d.month < 10 ^ 2 := by
  have h := d.in_year
  omega

theorem day_lt (d : Day) : d.day < 10 ^ 2 := by
  have h := d.in_month
  have hle := daysIn_le d.year d.month
  omega

theorem stamp_inj {d e : Day} (h : d.stamp = e.stamp) : d = e := by
  have hchars : d.stampChars = e.stampChars := by
    have hl := congrArg String.toList h
    simpa [stamp] using hl
  have hday : ∀ f : Day, (Numeral.padded 2 f.day).length = 2 := fun f =>
    Numeral.length_padded (by decide) f.day_lt
  have hmonth : ∀ f : Day, (Numeral.padded 2 f.month).length = 2 := fun f =>
    Numeral.length_padded (by decide) f.month_lt
  obtain ⟨hfront, hd⟩ := List.append_inj' hchars ((hday d).trans (hday e).symm)
  obtain ⟨hy, hm⟩ := List.append_inj' hfront ((hmonth d).trans (hmonth e).symm)
  replace hd := Numeral.padded_inj hd
  replace hm := Numeral.padded_inj hm
  have hyear : some d.year = some e.year := by
    rw [← int?_yearText, ← int?_yearText, hy]
  cases d
  cases e
  simp_all

end Day

/-- A day of a year that is written with four digits. -/
def Day.Common (d : Day) : Prop := 0 ≤ d.year ∧ d.year ≤ 9999

instance (d : Day) : Decidable d.Common := inferInstanceAs (Decidable (_ ∧ _))

namespace Day.Common

variable {d : Day}

theorem yearText_eq (h : d.Common) : yearText d.year = Numeral.padded 4 d.year.natAbs := if_pos h

theorem year_lt (h : d.Common) : d.year.natAbs < 10 ^ 4 := by
  obtain ⟨hmin, hmax⟩ := h
  omega

theorem length_stamp (h : d.Common) : d.stampChars.length = 8 := by
  simp only [stampChars, h.yearText_eq, List.length_append,
    Numeral.length_padded (by decide : 0 < 4) h.year_lt,
    Numeral.length_padded (by decide : 0 < 2) d.month_lt,
    Numeral.length_padded (by decide : 0 < 2) d.day_lt]

end Day.Common

theorem Allocator.counterKey_inj {a b : Allocator} {d e : Day} (hs : b.stem = a.stem)
    (h : b.counterKey d = a.counterKey e) : d = e := by
  rw [counterKey, counterKey, hs] at h
  exact Day.stamp_inj ((String.append_right_inj a.stem).1 h)

end Registrar
