import Mathlib.Data.List.Basic
import Registrar.Proofs.Digits
import Registrar.Time.Stamp
set_option autoImplicit false

namespace Registrar

theorem isBlank_of_isDigit {c : Char} (h : c.isDigit = true) : isBlank c = false := by
  have hc := Numeral.toNat_of_isDigit h
  simp [isBlank]
  omega

namespace Day

section

variable {ds rest : List Char} {most last : Nat}

theorem readNumber_digits (hd : ∀ c ∈ ds, c.isDigit = true) (hne : ds ≠ []) (hmost : most ≤ 18)
    (hlen : ds.length ≤ most) (hstop : ds.length = most ∨ rest = []) :
    readNumber most (ds ++ rest) = .ok (Numeral.value ds, rest) := by
  have htake : ((ds ++ rest).takeWhile Char.isDigit).take most = ds := by
    rw [List.takeWhile_append_of_pos hd]
    rcases hstop with hfull | rfl
    · exact List.take_left' hfull
    · rw [List.takeWhile_nil, List.append_nil, List.take_of_length_le hlen]
  have hsmall : ¬ Numeral.maxInt64 < Numeral.value ds := by
    have hvalue := Numeral.value_lt hd
    have hpow : 10 ^ ds.length ≤ 10 ^ 18 := Nat.pow_le_pow_right (by decide) (by omega)
    simp only [Numeral.maxInt64]
    omega
  simp [readNumber, htake, hne, hsmall]

theorem dropWhile_digits (hd : ∀ c ∈ ds, c.isDigit = true) :
    (ds ++ rest).dropWhile isBlank = if ds = [] then rest.dropWhile isBlank else ds ++ rest := by
  cases ds with
  | nil => rfl
  | cons c ds => simp [isBlank_of_isDigit (hd c List.mem_cons_self)]

theorem readYear_digits (hd : ∀ c ∈ ds, c.isDigit = true) (hne : ds ≠ []) (hlen : ds.length ≤ 4)
    (hstop : ds.length = 4 ∨ rest = []) : readYear (ds ++ rest) = .ok (Numeral.value ds, rest) := by
  have hread := readNumber_digits hd hne (by decide) hlen hstop
  obtain ⟨y, hy⟩ : ∃ y : Int, y = Numeral.value ds := ⟨_, rfl⟩
  have hrange : -2147483648 ≤ y ∧ y < 2147483648 := by
    have hvalue := Numeral.value_lt hd
    have hpow : 10 ^ ds.length ≤ 10 ^ 4 := Nat.pow_le_pow_right (by decide) hlen
    omega
  have hmap : ∀ f : Nat × List Char → Int × List Char, f (Numeral.value ds, rest) = (y, rest) →
      (readNumber 4 (ds ++ rest)).map f = .ok (y, rest) := fun f hf => by
    rw [hread, Except.map, hf]
  have hunsigned : ∀ c : Char, c.isDigit = false → ∀ cs, ds ++ rest ≠ c :: cs := by
    intro c hc cs h
    obtain ⟨d, ds, rfl⟩ := List.exists_cons_of_ne_nil hne
    have hdc : d = c := (List.cons.inj h).1
    rw [← hdc, hd d List.mem_cons_self] at hc
    cases hc
  rw [← hy, readYear, dropWhile_digits hd, if_neg hne]
  split
  · rename_i h
    exact absurd h (hunsigned '-' rfl _)
  · rename_i h
    exact absurd h (hunsigned '+' rfl _)
  · rw [hmap _ (by rw [hy])]
    exact if_pos hrange

theorem readPart_digits (hd : ∀ c ∈ ds, c.isDigit = true) (hne : ds ≠ []) (hlen : ds.length ≤ 2)
    (hstop : ds.length = 2 ∨ rest = []) : readPart last (ds ++ rest) =
      if 1 ≤ Numeral.value ds ∧ Numeral.value ds ≤ last then .ok (Numeral.value ds, rest)
      else .error .outOfRange := by
  rw [readPart, dropWhile_digits hd, if_neg hne, readNumber_digits hd hne (by decide) hlen hstop]
  rfl

theorem readYear_padded {n : Nat} (h : n < 10 ^ 4) (rest : List Char) :
    readYear (Numeral.padded 4 n ++ rest) = .ok (n, rest) := by
  have hlen := Numeral.length_padded (by decide) h
  rw [readYear_digits (fun _ => Numeral.isDigit_of_mem_padded) (Numeral.padded_ne_nil 4 n)
    (Nat.le_of_eq hlen) (.inl hlen), Numeral.value_padded]

theorem readPart_padded {n : Nat} (h : n < 10 ^ 2) (hn : 1 ≤ n ∧ n ≤ last) (rest : List Char) :
    readPart last (Numeral.padded 2 n ++ rest) = .ok (n, rest) := by
  have hlen := Numeral.length_padded (by decide) h
  rw [readPart_digits (fun _ => Numeral.isDigit_of_mem_padded) (Numeral.padded_ne_nil 2 n)
    (Nat.le_of_eq hlen) (.inl hlen), Numeral.value_padded, if_pos hn]

end

variable {d : Day}

theorem ofCivil?_fields (d : Day) : ofCivil? d.year d.month d.day = some d := by
  simp [ofCivil?, d.in_years, d.in_year, d.in_month]

theorem ofChars_month (h : d.Common) (rest : List Char) :
    ofChars (yearText d.year ++ Numeral.padded 2 d.month ++ rest) =
      readPart 31 rest >>= fun (day, cs) =>
        if cs ≠ [] then .error .trailing
        else (ofCivil? d.year d.month day).elim (.error .outOfRange) .ok := by
  have hyear : (d.year.natAbs : Int) = d.year := Int.natAbs_of_nonneg h.1
  rw [ofChars, h.yearText_eq, List.append_assoc, readYear_padded h.year_lt, hyear]
  simp only [bind, Except.bind, readPart_padded d.month_lt d.in_year]
  cases readPart 31 rest with
  | error fault => rfl
  | ok v =>
    simp only
    cases ofCivil? d.year d.month v.1 <;> rfl

theorem ofChars_stampChars (h : d.Common) (rest : List Char) :
    ofChars (d.stampChars ++ rest) = if rest = [] then .ok d else .error .trailing := by
  have hday : 1 ≤ d.day ∧ d.day ≤ 31 :=
    ⟨d.in_month.1, Nat.le_trans d.in_month.2 (daysIn_le d.year d.month)⟩
  rw [stampChars, List.append_assoc, ofChars_month h, readPart_padded d.day_lt hday]
  by_cases hrest : rest = []
  · simp [hrest, bind, Except.bind, ofCivil?_fields]
  · simp [hrest, bind, Except.bind]

theorem ofStamp_append (h : d.Common) (rest : String) :
    ofStamp (d.stamp ++ rest) = if rest = "" then .ok d else .error .trailing := by
  have hempty : rest.toList = [] ↔ rest = "" := String.toList_eq_nil_iff
  rw [ofStamp, String.toList_append, stamp, String.toList_ofList, ofChars_stampChars h]
  simp only [hempty]

theorem ofStamp_stamp (h : d.Common) : ofStamp d.stamp = .ok d := by
  have hread := ofStamp_append h ""
  rwa [String.append_empty, if_pos rfl] at hread

theorem take_padded_two {n : Nat} (h : n < 10 ^ 2) :
    ∃ c e, Numeral.padded 2 n = [c, e] ∧ c.isDigit = true ∧ Numeral.digitValue c = n / 10 := by
  have hlen := Numeral.length_padded (by decide) h
  obtain ⟨c, e, hce⟩ := List.length_eq_two.1 hlen
  have hc : c.isDigit = true := Numeral.isDigit_of_mem_padded (hce ▸ List.mem_cons_self)
  have he : e.isDigit = true :=
    Numeral.isDigit_of_mem_padded (hce ▸ List.mem_cons_of_mem c List.mem_cons_self)
  refine ⟨c, e, hce, hc, ?_⟩
  have hvalue := Numeral.value_padded 2 n
  have hlt := Numeral.digitValue_lt he
  rw [hce, Numeral.value_cons] at hvalue
  simp [Numeral.value] at hvalue
  omega

theorem ofChars_year {ds : List Char} (hd : ∀ c ∈ ds, c.isDigit = true) (hlen : ds.length ≤ 4) :
    ofChars ds = .error .premature := by
  by_cases hne : ds = []
  · subst hne
    rfl
  · rw [ofChars, ← List.append_nil ds, readYear_digits hd hne hlen (.inr rfl)]
    rfl

theorem ofChars_tens (h : d.Common) {c : Char} (hc : c.isDigit = true)
    (hvalue : Numeral.digitValue c = d.month / 10) : ofChars (yearText d.year ++ [c]) =
      .error (if d.month < 10 then .outOfRange else .premature) := by
  have hdigits : ∀ x ∈ [c], x.isDigit = true := fun x hx => List.mem_singleton.1 hx ▸ hc
  have hone : Numeral.value [c] = d.month / 10 := by simpa [Numeral.value] using hvalue
  have hmonth := d.in_year.2
  have hpart : readPart 12 [c] =
      if d.month < 10 then .error .outOfRange else .ok (d.month / 10, []) := by
    have hread : readPart 12 ([c] ++ []) = _ :=
      readPart_digits hdigits (List.cons_ne_nil c []) (by simp) (.inr rfl)
    rw [List.append_nil, hone] at hread
    rw [hread]
    by_cases hten : d.month < 10
    · rw [if_pos hten, if_neg (by omega)]
    · rw [if_neg hten, if_pos (by omega)]
  rw [ofChars, h.yearText_eq, readYear_padded h.year_lt]
  by_cases hten : d.month < 10
  · rw [if_pos hten] at hpart ⊢
    simp only [bind, Except.bind, hpart]
  · rw [if_neg hten] at hpart ⊢
    simp only [bind, Except.bind, hpart]
    rfl

theorem ofChars_take (h : d.Common) {n : Nat} (hn : n < 7) : ofChars (d.stampChars.take n) =
    .error (if n = 5 ∧ d.month < 10 then .outOfRange else .premature) := by
  have hyear : (yearText d.year).length = 4 := by
    rw [h.yearText_eq, Numeral.length_padded (by decide) h.year_lt]
  obtain ⟨c, e, hce, hc, hvalue⟩ := take_padded_two d.month_lt
  have hlater : ∀ k, d.stampChars.take (4 + k) =
      yearText d.year ++ ([c, e] ++ Numeral.padded 2 d.day).take k := by
    intro k
    rw [stampChars, hce, List.append_assoc, ← hyear]
    exact List.take_length_add_append k
  rcases Nat.lt_or_ge 4 n with hlong | hshort
  · obtain rfl | rfl : n = 5 ∨ n = 6 := by omega
    · rw [hlater 1]
      simpa using ofChars_tens h hc hvalue
    · have hread := ofChars_month h []
      rw [List.append_nil, hce] at hread
      rw [hlater 2]
      exact hread
  · have htake : d.stampChars.take n = (yearText d.year).take n := by
      rw [stampChars, List.append_assoc, List.take_append_of_le_length (hyear ▸ hshort)]
    have hdigits : ∀ x ∈ (yearText d.year).take n, x.isDigit = true := fun x hx =>
      Numeral.isDigit_of_mem_padded (h.yearText_eq ▸ List.mem_of_mem_take hx)
    rw [htake, ofChars_year hdigits (by simp; omega), if_neg (by omega)]

theorem ofStamp_take (h : d.Common) {n : Nat} (hn : n < 7) :
    ofStamp (String.ofList (d.stampChars.take n)) =
      .error (if n = 5 ∧ d.month < 10 then .outOfRange else .premature) := by
  rw [ofStamp, String.toList_ofList, ofChars_take h hn]

end Day

end Registrar
