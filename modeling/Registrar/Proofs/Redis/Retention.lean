import Registrar.Proofs.Redis.Claiming
set_option autoImplicit false

namespace Registrar

theorem Span.wholeMillis_mono {a b : Span} (h : a ≤ b) : a.wholeMillis ≤ b.wholeMillis :=
  Nat.div_le_div_right h

theorem Span.wholeMillis_add (d : Span) (n : Nat) :
    (d + ofMillis n).wholeMillis = d.wholeMillis + n :=
  Nat.add_mul_div_right d n (by decide)

namespace Redis

variable {a b d : Span}

theorem one_le_millis (d : Span) : 1 ≤ millis d := Nat.le_max_left 1 _

theorem millis_le (d : Span) : millis d ≤ Numeral.maxNat64 := by
  have hlt : d.wholeMillis % Numeral.range64 < Numeral.range64 := Nat.mod_lt _ (by decide)
  exact Nat.max_le.2 ⟨by decide, Nat.le_of_lt_succ hlt⟩

theorem millis_eq (h : d.wholeMillis ≤ Numeral.maxNat64) : millis d = max 1 d.wholeMillis := by
  have hlt : d.wholeMillis < Numeral.range64 := Nat.lt_succ_of_le h
  rw [millis, Nat.mod_eq_of_lt hlt]

theorem millis_mono (hab : a ≤ b) (h : b.wholeMillis ≤ Numeral.maxNat64) : millis a ≤ millis b := by
  have hle := Span.wholeMillis_mono hab
  rw [millis_eq h, millis_eq (Nat.le_trans hle h)]
  exact Nat.max_le.2 ⟨Nat.le_max_left 1 _, Nat.le_trans hle (Nat.le_max_right 1 _)⟩

theorem wholeMillis_le_millis_iff : d.wholeMillis ≤ millis d ↔ d.wholeMillis ≤ Numeral.maxNat64 := by
  refine ⟨fun h => Nat.le_trans h (millis_le d), fun h => ?_⟩
  rw [millis_eq h]
  exact Nat.le_max_right 1 _

theorem millis_add_range (d : Span) : millis (d + .ofMillis Numeral.range64) = millis d := by
  rw [millis, Span.wholeMillis_add, Nat.add_mod_right, millis]

theorem signedMillis_eq_ite (d : Span) : signedMillis d =
    if (millis d : Int) ≤ Numeral.maxInt64 then (millis d : Int) else millis d - Numeral.range64 := by
  have hlt : (millis d : Int) < Numeral.range64 := Int.ofNat_lt.2 (Nat.lt_succ_of_le (millis_le d))
  have hhalf : ((Numeral.range64 : Int) + 1) / 2 = Numeral.maxInt64 + 1 := by decide
  rw [signedMillis, Int.bmod_def, Int.emod_eq_of_lt (Int.natCast_nonneg _) hlt, hhalf]
  simp only [Int.lt_add_one_iff]

theorem signedMillis_eq (h : (millis d : Int) ≤ Numeral.maxInt64) : signedMillis d = millis d := by
  rw [signedMillis_eq_ite, if_pos h]

theorem signedMillis_neg (h : Numeral.maxInt64 < millis d) : signedMillis d < 0 := by
  have hle : (millis d : Int) < Numeral.range64 := Int.ofNat_lt.2 (Nat.lt_succ_of_le (millis_le d))
  rw [signedMillis_eq_ite, if_neg (Int.not_le.2 h)]
  omega

theorem signedMillis_le (d : Span) : signedMillis d ≤ Numeral.maxInt64 := by
  by_cases h : (millis d : Int) ≤ Numeral.maxInt64
  · rwa [signedMillis_eq h]
  · exact Int.le_trans (Int.le_of_lt (signedMillis_neg (Int.not_le.1 h))) (by decide)

theorem one_le_signedMillis_iff : 1 ≤ signedMillis d ↔ (millis d : Int) ≤ Numeral.maxInt64 := by
  refine ⟨fun h => Int.not_lt.1 fun hlt => ?_, fun h => ?_⟩
  · have hneg := signedMillis_neg hlt
    omega
  · rw [signedMillis_eq h]
    exact Int.ofNat_le.2 (one_le_millis d)

theorem millis_le_of_wholeMillis (h : (d.wholeMillis : Int) ≤ Numeral.maxInt64) :
    (millis d : Int) ≤ Numeral.maxInt64 := by
  have hfits : d.wholeMillis ≤ Numeral.maxNat64 :=
    Int.ofNat_le.1 (Int.le_trans h (by decide))
  rw [millis_eq hfits]
  unfold Numeral.maxInt64 at h ⊢
  omega

theorem signedMillis_mono (hab : a ≤ b) (h : (b.wholeMillis : Int) ≤ Numeral.maxInt64) :
    signedMillis a ≤ signedMillis b := by
  have hle : (a.wholeMillis : Int) ≤ b.wholeMillis := Int.ofNat_le.2 (Span.wholeMillis_mono hab)
  rw [signedMillis_eq (millis_le_of_wholeMillis h),
    signedMillis_eq (millis_le_of_wholeMillis (Int.le_trans hle h))]
  exact Int.ofNat_le.2 (millis_mono hab (Int.ofNat_le.1 (Int.le_trans h (by decide))))

theorem wholeMillis_le_signedMillis_iff :
    (d.wholeMillis : Int) ≤ signedMillis d ↔ (d.wholeMillis : Int) ≤ Numeral.maxInt64 := by
  refine ⟨fun h => Int.le_trans h (signedMillis_le d), fun h => ?_⟩
  rw [signedMillis_eq (millis_le_of_wholeMillis h)]
  exact Int.ofNat_le.2 (wholeMillis_le_millis_iff.2 (Int.ofNat_le.1 (Int.le_trans h (by decide))))

namespace Link

variable {l : Link} {cutoff : Option Tick}

theorem sent_wait (l : Link) (cutoff : Option Tick) (length : Span) :
    (l.wait cutoff length).2.sent = l.sent := by
  cases cutoff with
  | none => rfl
  | some t => by_cases h : t ≤ l.elapsed.after length <;> simp only [wait, h] <;> rfl

theorem sent_exchange (l : Link) (cutoff : Option Tick) (r : Request) :
    (l.exchange cutoff r).2.sent = r :: l.sent := by
  unfold exchange
  split
  · exact sent_wait _ cutoff _
  · exact sent_wait _ cutoff _

theorem sent_inquire {α : Type} (l : Link) (cutoff : Option Tick) (r : Request)
    (convert : Reply → Option α) : (l.inquire cutoff r convert).2.sent = r :: l.sent := by
  rw [← sent_exchange l cutoff r, inquire]
  obtain ⟨reply, m⟩ := l.exchange cutoff r
  cases reply <;> rfl

theorem sent_consult {α β : Type} (l : Link) (cutoff : Option Tick) (r : Request)
    (convert : Reply → Option α) (f : α → β) :
    (l.consult cutoff r convert f).2.sent = r :: l.sent := by
  rw [← sent_inquire l cutoff r convert, consult]
  obtain ⟨⟨a | e⟩ | _ | _, m⟩ := l.inquire cutoff r convert <;> rfl

/-- A new entry comes with its retention in milliseconds; one that is there already is given one with
a sign. The former is at least one. It is negative with the sign when its highest bit is set, and at
least one when it is not. As long as the longer of two retentions fits in 64 bits, or in 63 with the
sign, it is told as no shorter one. Less is told than the retention has just when it does not fit; and
2 ^ 64 milliseconds more or less make no difference. -/
theorem retention_sent (l : Link) (cutoff : Option Tick) (key value : String) (hab : a ≤ b) :
    ((l.store cutoff (.set key value a)).2.sent = .set (l.key key) value (millis a) :: l.sent ∧
      (l.store cutoff (.expire key a)).2.sent = .expire (l.key key) (signedMillis a) :: l.sent) ∧
    (1 ≤ millis a ∧ (b.wholeMillis ≤ Numeral.maxNat64 → millis a ≤ millis b) ∧
      (a.wholeMillis ≤ millis a ↔ a.wholeMillis ≤ Numeral.maxNat64)) ∧
    ((1 ≤ signedMillis a ↔ (millis a : Int) ≤ Numeral.maxInt64) ∧
      (Numeral.maxInt64 < millis a → signedMillis a < 0) ∧
      ((b.wholeMillis : Int) ≤ Numeral.maxInt64 →
        1 ≤ signedMillis a ∧ signedMillis a ≤ signedMillis b) ∧
      ((a.wholeMillis : Int) ≤ signedMillis a ↔ (a.wholeMillis : Int) ≤ Numeral.maxInt64)) ∧
    millis (a + .ofMillis Numeral.range64) = millis a ∧
      signedMillis (a + .ofMillis Numeral.range64) = signedMillis a := by
  refine ⟨⟨sent_consult l cutoff _ _ _, sent_consult l cutoff _ _ _⟩,
    ⟨one_le_millis a, millis_mono hab, wholeMillis_le_millis_iff⟩,
    ⟨one_le_signedMillis_iff, signedMillis_neg, fun h => ⟨?_, signedMillis_mono hab h⟩,
      wholeMillis_le_signedMillis_iff⟩, millis_add_range a, ?_⟩
  · have hle : (a.wholeMillis : Int) ≤ b.wholeMillis := Int.ofNat_le.2 (Span.wholeMillis_mono hab)
    exact one_le_signedMillis_iff.2 (millis_le_of_wholeMillis (Int.le_trans hle h))
  · rw [signedMillis, millis_add_range, signedMillis]

theorem retention_sent_twoSeconds :
    (thirdTime.store none (.set "k" "v" (.ofSecs 2))).2.sent = [.set "k" "v" 2000] ∧
    (thirdTime.store none (.expire "k" (.ofSecs 2))).2.sent = [.expire "k" 2000] ∧
    1 ≤ signedMillis (.ofSecs 2) ∧
    signedMillis (.ofSecs 2) ≤ signedMillis (.ofMillis 9223372036854775807) := by
  obtain ⟨⟨hset, hexpire⟩, -, ⟨-, -, hsigned, -⟩, -⟩ := retention_sent thirdTime none "k" "v"
    (show Span.ofSecs 2 ≤ Span.ofMillis 9223372036854775807 by decide)
  obtain ⟨hone, hle⟩ := hsigned (by decide)
  exact ⟨hset, hexpire, hone, hle⟩

/-- One more millisecond than fits is told as one, or as a time that is past. -/
example : millis (.ofMillis Numeral.range64) = 1 ∧
    signedMillis (.ofMillis 9223372036854775808) = Numeral.minInt64 := by decide

end Link

end Redis

end Registrar
