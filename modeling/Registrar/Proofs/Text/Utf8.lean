import Registrar.Text.Utf8
set_option autoImplicit false

namespace Registrar.Utf8

def encodeChars (cs : List Char) : List UInt8 := cs.flatMap String.utf8EncodeChar

theorem encodeChars_cons (c : Char) (cs : List Char) :
    encodeChars (c :: cs) = String.utf8EncodeChar c ++ encodeChars cs :=
  List.flatMap_cons

theorem encodeChars_append (cs ds : List Char) :
    encodeChars (cs ++ ds) = encodeChars cs ++ encodeChars ds :=
  List.flatMap_append

def encode (s : String) : List UInt8 := s.toUTF8.data.toList

theorem encode_eq (s : String) : encode s = encodeChars s.toList := by
  have h : s.toByteArray = s.toList.utf8Encode := by
    rw [← String.toByteArray_ofList, String.ofList_toList]
  rw [encode, String.toUTF8, h]
  simp [List.utf8Encode, encodeChars]

def restOf (n : Nat) : UInt8 := .ofNat (n % 64 + 128)

theorem restOf_toNat (n : Nat) : (restOf n).toNat = n % 64 + 128 := by
  rw [restOf, UInt8.toNat_ofNat']
  omega

@[simp] theorem isRest_restOf (n : Nat) : isRest (restOf n) = true := by
  have h := restOf_toNat n
  simp [isRest, UInt8.le_iff_toNat_le, UInt8.lt_iff_toNat_lt, h]
  omega

@[simp] theorem bits_restOf (n : Nat) : bits (restOf n) 6 = n % 64 := by
  have hpow : Nat.pow 2 6 = 64 := rfl
  rw [bits, restOf_toNat, hpow]
  omega

theorem utf8EncodeChar_eq (c : Char) : String.utf8EncodeChar c =
    if c.toNat ≤ 0x7F then [.ofNat c.toNat]
    else if c.toNat ≤ 0x7FF then [.ofNat (c.toNat / 64 % 32 + 192), restOf c.toNat]
    else if c.toNat ≤ 0xFFFF then
      [.ofNat (c.toNat / 4096 % 16 + 224), restOf (c.toNat / 64), restOf c.toNat]
    else [.ofNat (c.toNat / 262144 % 8 + 240), restOf (c.toNat / 4096), restOf (c.toNat / 64),
      restOf c.toNat] := rfl

theorem lt_byte {a : UInt8} {m : Nat} (k : Nat) (ha : a.toNat = m) (hk : k < 256) :
    a < .ofNat k ↔ m < k := by
  rw [UInt8.lt_iff_toNat_lt, ha, UInt8.toNat_ofNat', Nat.mod_eq_of_lt hk]

theorem byte_lt {a : UInt8} {m : Nat} (k : Nat) (ha : a.toNat = m) (hk : k < 256) :
    .ofNat k < a ↔ k < m := by
  rw [UInt8.lt_iff_toNat_lt, ha, UInt8.toNat_ofNat', Nat.mod_eq_of_lt hk]

/-- A byte in this range begins a character of several bytes. -/
theorem leads_rest {a : UInt8} {m : Nat} (ha : a.toNat = m) (hm : 0xC2 ≤ m ∧ m ≤ 0xF4) :
    ¬ a < 0x80 ∧ ¬ (a < 0xC2 ∨ 0xF4 < a) := by
  refine ⟨fun h => absurd ((lt_byte 0x80 ha (by decide)).1 h) (by omega), ?_⟩
  rintro (h | h)
  · exact absurd ((lt_byte 0xC2 ha (by decide)).1 h) (by omega)
  · exact absurd ((byte_lt 0xF4 ha (by decide)).1 h) (by omega)

section

variable {n : Nat} (i : Nat) (bs : List UInt8)

theorem decodeFrom_one (hn : n ≤ 0x7F) :
    decodeFrom i (.ofNat n :: bs) = (decodeFrom (i + 1) bs).map (Char.ofNat n :: ·) := by
  have ha : (UInt8.ofNat n).toNat = n := by
    rw [UInt8.toNat_ofNat']
    omega
  generalize UInt8.ofNat n = a at ha
  have hone : a < 0x80 := (lt_byte 0x80 ha (by decide)).2 (by omega)
  rw [decodeFrom.eq_def]
  simp only [if_pos hone, ha]

theorem decodeFrom_two (hn : 0x7F < n ∧ n ≤ 0x7FF) :
    decodeFrom i (.ofNat (n / 64 % 32 + 192) :: restOf n :: bs) =
      (decodeFrom (i + 2) bs).map (Char.ofNat n :: ·) := by
  have ha : (UInt8.ofNat (n / 64 % 32 + 192)).toNat = n / 64 % 32 + 192 := by
    rw [UInt8.toNat_ofNat']
    omega
  generalize UInt8.ofNat (n / 64 % 32 + 192) = a at ha
  obtain ⟨hone, hbad⟩ := leads_rest ha (by omega)
  have htwo : a < 0xE0 := (lt_byte 0xE0 ha (by decide)).2 (by omega)
  have hbits : bits a 5 * 64 + bits (restOf n) 6 = n := by
    have hpow : Nat.pow 2 5 = 32 := rfl
    rw [bits_restOf, bits, ha, hpow]
    omega
  rw [decodeFrom.eq_def]
  simp only [if_neg hone, if_neg hbad, if_pos htwo, isRest_restOf, if_true, hbits]

theorem decodeFrom_three (hn : 0x7FF < n ∧ n ≤ 0xFFFF) (hvalid : n < 0xD800 ∨ 0xDFFF < n) :
    decodeFrom i (.ofNat (n / 4096 % 16 + 224) :: restOf (n / 64) :: restOf n :: bs) =
      (decodeFrom (i + 3) bs).map (Char.ofNat n :: ·) := by
  have ha : (UInt8.ofNat (n / 4096 % 16 + 224)).toNat = n / 4096 % 16 + 224 := by
    rw [UInt8.toNat_ofNat']
    omega
  generalize UInt8.ofNat (n / 4096 % 16 + 224) = a at ha
  obtain ⟨hone, hbad⟩ := leads_rest ha (by omega)
  have htwo : ¬ a < 0xE0 := fun h => absurd ((lt_byte 0xE0 ha (by decide)).1 h) (by omega)
  have hthree : a < 0xF0 := (lt_byte 0xF0 ha (by decide)).2 (by omega)
  have hfits : fitsThree a (restOf (n / 64)) = true := by
    simp [fitsThree, UInt8.lt_iff_toNat_lt, UInt8.le_iff_toNat_le, ← UInt8.toNat_inj, ha, restOf_toNat]
    omega
  have hbits : (bits a 4 * 64 + bits (restOf (n / 64)) 6) * 64 + bits (restOf n) 6 = n := by
    have hpow : Nat.pow 2 4 = 16 := rfl
    rw [bits_restOf, bits_restOf, bits, ha, hpow]
    omega
  rw [decodeFrom.eq_def]
  simp only [if_neg hone, if_neg hbad, if_neg htwo, if_pos hthree, hfits, not_true,
    isRest_restOf, if_false, hbits]

theorem decodeFrom_four (hn : 0xFFFF < n ∧ n < 0x110000) :
    decodeFrom i (.ofNat (n / 262144 % 8 + 240) :: restOf (n / 4096) :: restOf (n / 64) ::
      restOf n :: bs) = (decodeFrom (i + 4) bs).map (Char.ofNat n :: ·) := by
  have ha : (UInt8.ofNat (n / 262144 % 8 + 240)).toNat = n / 262144 % 8 + 240 := by
    rw [UInt8.toNat_ofNat']
    omega
  generalize UInt8.ofNat (n / 262144 % 8 + 240) = a at ha
  obtain ⟨hone, hbad⟩ := leads_rest ha (by omega)
  have htwo : ¬ a < 0xE0 := fun h => absurd ((lt_byte 0xE0 ha (by decide)).1 h) (by omega)
  have hthree : ¬ a < 0xF0 := fun h => absurd ((lt_byte 0xF0 ha (by decide)).1 h) (by omega)
  have hfits : fitsFour a (restOf (n / 4096)) = true := by
    simp [fitsFour, UInt8.lt_iff_toNat_lt, UInt8.le_iff_toNat_le, ← UInt8.toNat_inj, ha, restOf_toNat]
    omega
  have hbits : ((bits a 3 * 64 + bits (restOf (n / 4096)) 6) * 64 + bits (restOf (n / 64)) 6) * 64 +
      bits (restOf n) 6 = n := by
    have hpow : Nat.pow 2 3 = 8 := rfl
    rw [bits_restOf, bits_restOf, bits_restOf, bits, ha, hpow]
    omega
  rw [decodeFrom.eq_def]
  simp only [if_neg hone, if_neg hbad, if_neg htwo, if_neg hthree, hfits, not_true,
    isRest_restOf, if_false, if_true, hbits]

end

theorem decodeFrom_char (i : Nat) (c : Char) (bs : List UInt8) :
    decodeFrom i (String.utf8EncodeChar c ++ bs) =
      (decodeFrom (i + (String.utf8EncodeChar c).length) bs).map (c :: ·) := by
  have hc : Char.ofNat c.toNat = c := Char.ofNat_toNat c
  have hvalid : c.toNat < 0xD800 ∨ 0xDFFF < c.toNat ∧ c.toNat < 0x110000 := c.valid
  rw [utf8EncodeChar_eq]
  generalize c.toNat = n at hc hvalid
  subst hc
  split
  · rename_i h
    exact decodeFrom_one i bs h
  · split
    · exact decodeFrom_two i bs (by omega)
    · split
      · exact decodeFrom_three i bs (by omega) (by omega)
      · exact decodeFrom_four i bs (by omega)

theorem decodeFrom_encodeChars (i : Nat) (cs : List Char) :
    decodeFrom i (encodeChars cs) = .ok cs := by
  induction cs generalizing i with
  | nil => rfl
  | cons c cs ih =>
    rw [encodeChars_cons, decodeFrom_char, ih]
    rfl

theorem decode_encodeChars (cs : List Char) : decode (encodeChars cs) = .ok (String.ofList cs) := by
  rw [decode, decodeFrom_encodeChars]
  rfl

theorem break_not_mem {c : Char} (hc : c ≠ '\n') : 10 ∉ String.utf8EncodeChar c := by
  have hn : c.toNat ≠ 10 := fun h => hc (Char.toNat_inj.1 h)
  have far : ∀ {m : Nat}, m % 256 ≠ 10 → (10 : UInt8) ≠ .ofNat m := by
    intro m hm h
    have hnat := congrArg UInt8.toNat h
    rw [UInt8.toNat_ofNat'] at hnat
    exact hm hnat.symm
  rw [utf8EncodeChar_eq]
  unfold restOf
  split
  · simpa using far (by omega)
  · split
    · simp only [List.mem_cons, List.not_mem_nil, or_false, not_or]
      exact ⟨far (by omega), far (by omega)⟩
    · split
      · simp only [List.mem_cons, List.not_mem_nil, or_false, not_or]
        exact ⟨far (by omega), far (by omega), far (by omega)⟩
      · simp only [List.mem_cons, List.not_mem_nil, or_false, not_or]
        exact ⟨far (by omega), far (by omega), far (by omega), far (by omega)⟩

end Registrar.Utf8
