import Registrar.Proofs.Calendar.Order
import Registrar.Proofs.Stamp
import Registrar.Proofs.Text.Utf8
import Registrar.Text.Json
set_option autoImplicit false

namespace Registrar

theorem Utf8.encodeChars_digit {c : Char} (h : c.isDigit = true) (cs : List Char) :
    encodeChars (c :: cs) = .ofNat c.toNat :: encodeChars cs := by
  have hc := Numeral.toNat_of_isDigit h
  rw [encodeChars_cons, utf8EncodeChar_eq, if_pos (by omega), List.singleton_append]

namespace Numeral

variable {cs ds : List Char} {c d : Char}

theorem byte_toNat (h : c.isDigit = true) : (UInt8.ofNat c.toNat).toNat = 48 + digitValue c := by
  have hc := toNat_of_isDigit h
  rw [UInt8.toNat_ofNat', Nat.mod_eq_of_lt (by omega), toNat_eq_of_isDigit h]

theorem value_cons_lt_iff (hlen : cs.length = ds.length) (hcs : value cs < 10 ^ cs.length)
    (hds : value ds < 10 ^ ds.length) : value (c :: cs) < value (d :: ds) ↔
      digitValue c < digitValue d ∨ digitValue c = digitValue d ∧ value cs < value ds := by
  have hstep : ∀ {m n : Nat}, m < n → 10 ^ cs.length * m + 10 ^ cs.length ≤ 10 ^ cs.length * n :=
    fun h => Nat.mul_le_mul_left _ h
  rw [value_cons, value_cons, ← hlen]
  rw [← hlen] at hds
  rcases Nat.lt_trichotomy (digitValue c) (digitValue d) with hlt | heq | hgt
  · have hle := hstep hlt
    omega
  · rw [heq]
    omega
  · have hle := hstep hgt
    omega

theorem encodeChars_lt_iff (hlen : cs.length = ds.length) (hcs : ∀ c ∈ cs, c.isDigit = true)
    (hds : ∀ d ∈ ds, d.isDigit = true) :
    Utf8.encodeChars cs < Utf8.encodeChars ds ↔ value cs < value ds := by
  induction cs generalizing ds with
  | nil =>
    obtain rfl : ds = [] := List.length_eq_zero_iff.1 hlen.symm
    simp
  | cons c cs ih =>
    cases ds with
    | nil => cases hlen
    | cons d ds =>
      obtain ⟨hc, hcs⟩ := List.forall_mem_cons.1 hcs
      obtain ⟨hd, hds⟩ := List.forall_mem_cons.1 hds
      have hlen : cs.length = ds.length := Nat.succ.inj hlen
      have hbc := byte_toNat hc
      have hbd := byte_toNat hd
      rw [Utf8.encodeChars_digit hc, Utf8.encodeChars_digit hd, List.cons_lt_cons_iff,
        UInt8.lt_iff_toNat_lt, ← UInt8.toNat_inj, hbc, hbd, ih hlen hcs hds,
        value_cons_lt_iff hlen (value_lt hcs) (value_lt hds)]
      omega

end Numeral

namespace Json

theorem escaped_of_isDigit {c : Char} (h : c.isDigit = true) : escaped c = [c] := by
  have hc := Numeral.toNat_of_isDigit h
  unfold escaped
  split
  case h_8 => exact if_neg (by omega)
  all_goals exact absurd hc (by decide)

theorem quoted_of_digits {s : String} (h : ∀ c ∈ s.toList, c.isDigit = true) :
    quoted s = "\"" ++ s ++ "\"" := by
  have hflat : s.toList.flatMap escaped = s.toList := by
    rw [List.flatMap_congr fun c hc => escaped_of_isDigit (h c hc)]
    exact List.flatMap_singleton' _
  refine String.toList_injective ?_
  simp [quoted, hflat]

end Json

namespace Day

variable {d e : Day}

theorem Common.isDigit (h : d.Common) : ∀ c ∈ d.stampChars, c.isDigit = true := by
  intro c hc
  rw [stampChars, h.yearText_eq] at hc
  rcases List.mem_append.1 hc with hc | hc
  · rcases List.mem_append.1 hc with hc | hc <;> exact Numeral.isDigit_of_mem_padded hc
  · exact Numeral.isDigit_of_mem_padded hc

theorem Common.value_stamp (h : d.Common) :
    Numeral.value d.stampChars = (d.year.natAbs * 100 + d.month) * 100 + d.day := by
  rw [stampChars, h.yearText_eq, Numeral.value_append, Numeral.value_append,
    Numeral.length_padded (by decide) d.month_lt, Numeral.length_padded (by decide) d.day_lt]
  simp only [Numeral.value_padded]
  omega

theorem Common.value_le_iff (hd : d.Common) (he : e.Common) :
    Numeral.value d.stampChars ≤ Numeral.value e.stampChars ↔ d.number ≤ e.number := by
  rw [hd.value_stamp, he.value_stamp, ← le_iff, le_iff_fields]
  have hy := hd.1
  have hy' := he.1
  have hm := d.month_lt
  have hm' := e.month_lt
  have hday := d.day_lt
  have hday' := e.day_lt
  omega

end Day

namespace Identifier

variable {i j : Identifier}

/-- The first eight characters of an identifier's text. -/
def front (i : Identifier) : String := String.ofList (i.text.toList.take 8)

def back (i : Identifier) : String := String.ofList (i.text.toList.drop 8)

theorem front_append_back (i : Identifier) : i.front ++ i.back = i.text := by
  rw [front, back, ← String.ofList_append, List.take_append_drop, String.ofList_toList]

theorem front_eq (h : i.day.Common) : i.front = i.day.stamp := by
  rw [front, text, String.toList_ofList, chars, List.take_left' h.length_stamp, Day.stamp]

theorem back_eq (h : i.day.Common) : i.back = String.ofList (Numeral.padded width i.number) := by
  rw [back, text, String.toList_ofList, chars, List.drop_left' h.length_stamp]

theorem ofStamp_front (h : i.day.Common) : Day.ofStamp i.front = .ok i.day := by
  rw [front_eq h, Day.ofStamp_stamp h]

theorem nat?_back (h : i.day.Common) : Numeral.nat? i.back.toList = some i.number := by
  rw [back_eq h, String.toList_ofList, Numeral.nat?_padded]

theorem text_inj (hi : i.day.Common) (hj : j.day.Common) (h : i.text = j.text) : i = j := by
  have hfront : i.day.stamp = j.day.stamp := by rw [← front_eq hi, ← front_eq hj, front, front, h]
  have hback : some i.number = some j.number := by
    rw [← nat?_back hi, ← nat?_back hj, back, back, h]
  have hday := Day.stamp_inj hfront
  have hnumber := Option.some.inj hback
  cases i
  cases j
  simp_all

theorem isDigit_chars (h : i.day.Common) : ∀ c ∈ i.chars, c.isDigit = true := by
  intro c hc
  rcases List.mem_append.1 hc with hc | hc
  · exact h.isDigit c hc
  · exact Numeral.isDigit_of_mem_padded hc

theorem quoted_text (h : i.day.Common) : Json.quoted i.text = "\"" ++ i.text ++ "\"" :=
  Json.quoted_of_digits fun c hc => isDigit_chars h c (by rwa [text, String.toList_ofList] at hc)

theorem value_chars (i : Identifier) (hn : i.number < 10 ^ width) :
    Numeral.value i.chars = 10 ^ width * Numeral.value i.day.stampChars + i.number := by
  rw [chars, Numeral.value_append, Numeral.length_padded (by decide) hn, Numeral.value_padded]

theorem length_chars (h : i.day.Common) (hn : i.number < 10 ^ width) : i.chars.length = 16 := by
  rw [chars, List.length_append, h.length_stamp, Numeral.length_padded (by decide) hn]
  rfl

theorem le_iff_value (hi : i.day.Common) (hj : j.day.Common) (hni : i.number < 10 ^ width)
    (hnj : j.number < 10 ^ width) :
    i.le j = true ↔ Numeral.value i.chars ≤ Numeral.value j.chars := by
  have hle := hi.value_le_iff hj
  have hge := hj.value_le_iff hi
  have hday : i.day = j.day ↔ i.day.number = j.day.number := ⟨fun h => h ▸ rfl, Day.number_inj⟩
  rw [le_iff, hday, value_chars i hni, value_chars j hnj]
  simp only [width] at hni hnj ⊢
  omega

theorem encode_le_iff (hi : i.day.Common) (hj : j.day.Common) (hni : i.number < 10 ^ width)
    (hnj : j.number < 10 ^ width) : Utf8.encode i.text ≤ Utf8.encode j.text ↔ i.le j = true := by
  have hlen : j.chars.length = i.chars.length := by rw [length_chars hi hni, length_chars hj hnj]
  have hlt := Numeral.encodeChars_lt_iff hlen (isDigit_chars hj) (isDigit_chars hi)
  rw [le_iff_value hi hj hni hnj, Utf8.encode_eq, Utf8.encode_eq, text, text, String.toList_ofList,
    String.toList_ofList, ← List.not_lt, hlt, Nat.not_lt]

end Identifier

end Registrar
