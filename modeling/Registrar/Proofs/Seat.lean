import Registrar.Proofs.Attention
set_option autoImplicit false

namespace Registrar

namespace Call

def granted? : (c : Call) → c.Answer → Option LockToken
  | .lock _ _, .ok token => some token
  | _, _ => none

def freed? : Call → Option LockToken
  | .unlock token => some token
  | _ => none

end Call

namespace Locks

def Holds (ls : Locks) (token : LockToken) : Prop :=
  (ls.find token.name).seat = .held token.holder

instance (ls : Locks) (token : LockToken) : Decidable (ls.Holds token) :=
  inferInstanceAs (Decidable (_ = _))

variable {ls : Locks} {token other : LockToken} {name : String}

theorem Holds.unique (h : ls.Holds token) (k : ls.Holds other) (hn : token.name = other.name) :
    token = other := by
  obtain ⟨n, a⟩ := token
  obtain ⟨m, b⟩ := other
  simp only at hn
  subst hn
  have hab : Seat.held a = Seat.held b := h.symm.trans k
  cases hab
  rfl

theorem Stirred.holds_iff {ls' : Locks} {ticket : Nat} {before after : Bool}
    (h : ls.Stirred name ticket before after ls') : ls'.Holds token ↔ ls.Holds token :=
  h.held_iff token.name token.holder

theorem grant_name (ls : Locks) (name : String) : (ls.grant name).1.name = name := rfl

theorem grant_holder (ls : Locks) (name : String) :
    (ls.grant name).1.holder = .issued ls.issued := rfl

theorem grant_issued (ls : Locks) (name : String) :
    (ls.grant name).2.issued = ls.issued + 1 := rfl

theorem find_grant (ls : Locks) (name other : String) :
    (ls.grant name).2.find other =
      if other = name then { ls.find name with seat := .held (.issued ls.issued) }
      else ls.find other :=
  find_put ls name other _

theorem unlock_eq (ls : Locks) (token : LockToken) :
    ls.unlock token =
      if ls.Holds token then (true, ls.put token.name (.passOn (ls.find token.name).queue))
      else (false, ls) := rfl

theorem find_unlock (ls : Locks) (token : LockToken) (other : String) :
    (ls.unlock token).2.find other =
      if other = token.name ∧ ls.Holds token then .passOn (ls.find other).queue
      else ls.find other := by
  rw [unlock_eq]
  by_cases h : ls.Holds token
  · rw [if_pos h]
    by_cases ho : other = token.name
    · subst ho
      simp [h]
    · simp [find_put_of_ne ls _ ho, ho]
  · rw [if_neg h]
    simp [h]

theorem unlock_issued (ls : Locks) (token : LockToken) :
    (ls.unlock token).2.issued = ls.issued := by
  rw [unlock_eq]
  split <;> rfl

theorem unlock_found (ls : Locks) (token : LockToken) :
    (ls.unlock token).1 = true ↔ ls.Holds token := by
  rw [unlock_eq]
  split
  · rename_i h
    exact ⟨fun _ => h, fun _ => rfl⟩
  · rename_i h
    exact ⟨fun hf => absurd hf (by simp), fun hh => absurd hh h⟩

theorem unlock_holds_iff (ls : Locks) (token other : LockToken) :
    (ls.unlock token).2.Holds other ↔ ls.Holds other ∧ other ≠ token := by
  unfold Holds
  rw [find_unlock]
  by_cases hn : other.name = token.name
  · by_cases h : ls.Holds token
    · rw [if_pos ⟨hn, h⟩]
      constructor
      · intro hp
        exact absurd hp (Lock.passOn_seat_ne_held _ _)
      · rintro ⟨ho, hne⟩
        exact absurd (Holds.unique ho h hn) hne
    · rw [if_neg (fun hc => h hc.2)]
      constructor
      · intro ho
        refine ⟨ho, ?_⟩
        rintro rfl
        exact h ho
      · exact And.left
  · rw [if_neg (fun hc => hn hc.1)]
    constructor
    · intro ho
      refine ⟨ho, ?_⟩
      rintro rfl
      exact hn rfl
    · exact And.left

theorem line_unlock (ls : Locks) (token : LockToken) (name : String) :
    ((ls.unlock token).2.find name).line = (ls.find name).line := by
  rw [find_unlock]
  split
  · rename_i h
    obtain ⟨rfl, hh⟩ := h
    rw [Lock.line_passOn, Lock.line_of_held hh]
  · rfl

theorem grant_holds_iff (hfree : ∀ h, ¬ ls.Holds ⟨name, h⟩) :
    (ls.grant name).2.Holds other ↔ ls.Holds other ∨ other = (ls.grant name).1 := by
  unfold Holds
  rw [find_grant]
  obtain ⟨n, a⟩ := other
  by_cases hn : n = name
  · subst hn
    have hno : (ls.find n).seat ≠ .held a := hfree a
    simp [hno, grant, LockToken.mk.injEq, eq_comm]
  · have hne : (⟨n, a⟩ : LockToken) ≠ (ls.grant name).1 := by
      intro he
      exact hn (congrArg LockToken.name he)
    simp [hn, hne]

end Locks

namespace World

variable {w v : World} {ticket : Nat} {queued : Bool} {c : Call} {a : c.Answer}

theorem Served.holds_iff (h : w.Served ticket queued c a v) (token : LockToken) :
    v.locks.Holds token ↔
      w.locks.Holds token ∧ c.freed? ≠ some token ∨ c.granted? a = some token := by
  cases h with
  | store hs hv =>
    have hl : v.locks = w.locks := hv.locks
    simp [hl, Call.freed?, Call.granted?]
  | @granted name direct _ hs hv =>
    have hl : v.locks = (w.locks.grant name).2 := hv.locks
    have hfree : ∀ h, ¬ w.locks.Holds ⟨name, h⟩ := by
      intro h hh
      rcases hs with hs | hs
      · exact Seat.noConfusion (hs.1.symm.trans hh)
      · exact Seat.noConfusion (hs.symm.trans hh)
    rw [hl, Locks.grant_holds_iff hfree]
    simp [Call.freed?, Call.granted?, eq_comm]
  | late hs hv =>
    have hl := hv.locks
    simp only at hl
    rw [hl, hs.holds_iff]
    simp [Call.freed?, Call.granted?]
  | @unlocked t _ hv =>
    have hl : v.locks = (w.locks.unlock t).2 := hv.locks
    rw [hl, Locks.unlock_holds_iff]
    simp [Call.freed?, Call.granted?, eq_comm]
  | paused hv =>
    have hl : v.locks = w.locks := hv.locks
    simp [hl, Call.freed?, Call.granted?]

theorem Served.granted_new (h : w.Served ticket queued c a v) {token : LockToken}
    (hg : c.granted? a = some token) :
    token.holder = .issued w.locks.issued ∧ v.locks.issued = w.locks.issued + 1 ∧
      (∃ direct, c = .lock token.name direct) ∧ ∀ h, ¬ w.locks.Holds ⟨token.name, h⟩ := by
  cases h with
  | @granted name direct _ hs hv =>
    cases hg
    have hl : v.locks = (w.locks.grant name).2 := hv.locks
    refine ⟨rfl, by rw [hl, Locks.grant_issued], ⟨direct, rfl⟩, fun h hh => ?_⟩
    rcases hs with hs | hs
    · exact Seat.noConfusion (hs.1.symm.trans hh)
    · exact Seat.noConfusion (hs.symm.trans hh)
  | store => simp [Call.granted?] at hg
  | late => simp [Call.granted?] at hg
  | unlocked => simp [Call.granted?] at hg
  | paused => simp [Call.granted?] at hg

theorem Served.issued_le (h : w.Served ticket queued c a v) :
    w.locks.issued ≤ v.locks.issued := by
  cases h with
  | store hs hv => exact Nat.le_of_eq (congrArg Locks.issued hv.locks).symm
  | @granted name _ _ hs hv =>
    rw [hv.locks]
    exact Nat.le_succ _
  | late hs hv =>
    rw [hv.locks]
    exact Nat.le_of_eq hs.issued.symm
  | @unlocked t _ hv =>
    rw [hv.locks]
    exact Nat.le_of_eq (Locks.unlock_issued _ _).symm
  | paused hv => exact Nat.le_of_eq (congrArg Locks.issued hv.locks).symm

theorem Stirred.holds_iff {before after : Bool} (h : w.Stirred ticket c before after v)
    (token : LockToken) : v.locks.Holds token ↔ w.locks.Holds token := by
  cases c with
  | lock name direct =>
    obtain ⟨ls, hs, ha⟩ := h
    rw [ha.locks]
    exact hs.holds_iff
  | store c => rw [h.locks]
  | unlock t => rw [h.locks]
  | pause length => rw [h.locks]

theorem Stirred.issued {before after : Bool} (h : w.Stirred ticket c before after v) :
    v.locks.issued = w.locks.issued := by
  cases c with
  | lock name direct =>
    obtain ⟨ls, hs, ha⟩ := h
    rw [ha.locks]
    exact hs.issued
  | store c => rw [h.locks]
  | unlock t => rw [h.locks]
  | pause length => rw [h.locks]

theorem Served.line (h : w.Served ticket queued c a v) (other : String)
    (hnd : (w.locks.find other).line.Nodup)
    (ht : ticket ∈ (w.locks.find other).line → (∃ direct, c = .lock other direct) ∧ queued = true) :
    (v.locks.find other).line.Nodup ∧
      ∀ t ∈ (v.locks.find other).line, t ∈ (w.locks.find other).line ∧ t ≠ ticket := by
  have apart : (∀ direct, c ≠ .lock other direct) → ∀ t ∈ (w.locks.find other).line, t ≠ ticket := by
    rintro hc t hmem rfl
    obtain ⟨⟨direct, he⟩, -⟩ := ht hmem
    exact hc direct he
  cases h with
  | store hs hv =>
    have hl := hv.locks
    simp only at hl
    rw [hl]
    exact ⟨hnd, fun t hmem => ⟨hmem, apart (by simp) t hmem⟩⟩
  | unlocked hv =>
    have hl := hv.locks
    simp only at hl
    rw [hl, Locks.line_unlock]
    exact ⟨hnd, fun t hmem => ⟨hmem, apart (by simp) t hmem⟩⟩
  | paused hv =>
    rw [hv.locks]
    exact ⟨hnd, fun t hmem => ⟨hmem, apart (by simp) t hmem⟩⟩
  | @granted name direct _ hs hv =>
    have hl := hv.locks
    simp only at hl
    rw [hl, Locks.find_grant]
    by_cases ho : other = name
    · subst ho
      rw [if_pos rfl]
      rcases hs with ⟨hs, hq⟩ | hs
      · have hline : (w.locks.find other).line = (w.locks.find other).queue := by
          rw [Lock.line, hs]
        rw [hline] at hnd ht ⊢
        refine ⟨hnd, fun t hmem => ⟨hmem, ?_⟩⟩
        rintro rfl
        simpa [hq] using (ht hmem).2
      · have hline : (w.locks.find other).line = ticket :: (w.locks.find other).queue := by
          rw [Lock.line, hs]
        rw [hline] at hnd ⊢
        obtain ⟨hout, hnd⟩ := List.nodup_cons.1 hnd
        refine ⟨hnd, fun t hmem => ⟨List.mem_cons_of_mem _ hmem, ?_⟩⟩
        rintro rfl
        exact hout hmem
    · rw [if_neg ho]
      refine ⟨hnd, fun t hmem => ⟨hmem, apart (fun direct' he => ?_) t hmem⟩⟩
      cases he
      exact ho rfl
  | @late name direct ls _ hs hv =>
    have hl := hv.locks
    simp only at hl
    rw [hl]
    have hout : ticket ∈ (w.locks.find other).line → other = name ∧ queued = true := by
      intro hmem
      obtain ⟨⟨direct', he⟩, hq⟩ := ht hmem
      cases he
      exact ⟨rfl, hq⟩
    obtain ⟨hnd', hticket, hrest⟩ := hs.line_mem hnd hout
    refine ⟨hnd', fun t hmem => ?_⟩
    by_cases htt : t = ticket
    · subst htt
      simpa using (hticket hmem).2
    · exact ⟨hrest t htt hmem, htt⟩

/-- The lines after a look that brought no answer: the ticket is in that of its lock, if it still
waits there. -/
theorem Stirred.line {before after : Bool} (h : w.Stirred ticket c before after v) (other : String)
    (hnd : (w.locks.find other).line.Nodup)
    (ht : ticket ∈ (w.locks.find other).line → (∃ direct, c = .lock other direct) ∧ before = true) :
    (v.locks.find other).line.Nodup ∧
      ∀ t ∈ (v.locks.find other).line, t ∈ (w.locks.find other).line ∧ t ≠ ticket ∨
        t = ticket ∧ (∃ direct, c = .lock other direct) ∧ after = true := by
  have still : v.locks = w.locks → (∀ direct, c ≠ .lock other direct) →
      (v.locks.find other).line.Nodup ∧
      ∀ t ∈ (v.locks.find other).line, t ∈ (w.locks.find other).line ∧ t ≠ ticket ∨
        t = ticket ∧ (∃ direct, c = .lock other direct) ∧ after = true := by
    intro hl hc
    rw [hl]
    refine ⟨hnd, fun t hmem => .inl ⟨hmem, ?_⟩⟩
    rintro rfl
    obtain ⟨⟨direct, he⟩, -⟩ := ht hmem
    exact hc direct he
  cases c with
  | store c => exact still h.locks (by simp)
  | unlock token => exact still h.locks (by simp)
  | pause length => exact still h.locks (by simp)
  | lock name direct =>
    obtain ⟨ls, hs, ha⟩ := h
    have hl : v.locks = ls := ha.locks
    rw [hl]
    have hout : ticket ∈ (w.locks.find other).line → other = name ∧ before = true := by
      intro hmem
      obtain ⟨⟨direct', he⟩, hq⟩ := ht hmem
      cases he
      exact ⟨rfl, hq⟩
    obtain ⟨hnd', hticket, hrest⟩ := hs.line_mem hnd hout
    refine ⟨hnd', fun t hmem => ?_⟩
    by_cases htt : t = ticket
    · subst htt
      obtain ⟨rfl, hafter⟩ := hticket hmem
      exact .inr ⟨rfl, ⟨direct, rfl⟩, hafter⟩
    · exact .inl ⟨hrest t htt hmem, htt⟩

section Attended

variable {P : Answers} {lapse : Tick} {g : Guard} {p : Phase c} {turn : Turn g c}
  {served : Option c.Answer}

theorem Attended.line (h : Attended P w ticket lapse g c p v turn served) (other : String)
    (hnd : (w.locks.find other).line.Nodup)
    (ht : ticket ∈ (w.locks.find other).line →
      (∃ direct, c = .lock other direct) ∧ p.isQueued = true) :
    (v.locks.find other).line.Nodup ∧
      ∀ t ∈ (v.locks.find other).line, t ∈ (w.locks.find other).line ∧ t ≠ ticket ∨
        t = ticket ∧ (∃ direct, c = .lock other direct) ∧
          ∃ q, turn = .pending q ∧ q.isQueued = true := by
  have settled : w.Stirred ticket c p.isQueued false v →
      (v.locks.find other).line.Nodup ∧
      ∀ t ∈ (v.locks.find other).line, t ∈ (w.locks.find other).line ∧ t ≠ ticket ∨
        t = ticket ∧ (∃ direct, c = .lock other direct) ∧
          ∃ q, turn = .pending q ∧ q.isQueued = true := by
    intro hs
    obtain ⟨hnd', hmem⟩ := hs.line other hnd ht
    refine ⟨hnd', fun t h => .inl ?_⟩
    rcases hmem t h with hold | ⟨-, -, hfalse⟩
    · exact hold
    · cases hfalse
  cases h with
  | served h =>
    obtain ⟨hnd', hmem⟩ := h.line other hnd ht
    exact ⟨hnd', fun t h => .inl (hmem t h)⟩
  | madeUp ha hq hv =>
    apply settled
    rw [hq]
    exact Stirred.of_alike hv false
  | cutOff ho hv => exact settled hv
  | crashed hc hv =>
    obtain ⟨s, rfl⟩ := hc
    exact settled hv
  | @pending q _ hq hv =>
    obtain ⟨hnd', hmem⟩ := Stirred.line hv other hnd ht
    refine ⟨hnd', fun t h => ?_⟩
    rcases hmem t h with hold | ⟨htt, hc, hq⟩
    · exact .inl hold
    · exact .inr ⟨htt, hc, q, rfl, hq⟩

theorem Attended.holds_iff (h : Attended P w ticket lapse g c p v turn served)
    (token : LockToken) :
    v.locks.Holds token ↔
      w.locks.Holds token ∧ (served = none ∨ c.freed? ≠ some token) ∨
        ∃ a, served = some a ∧ c.granted? a = some token := by
  cases h with
  | served h => simp [h.holds_iff]
  | madeUp ha hq hv => simp [hv.locks]
  | cutOff ho hv => simp [hv.holds_iff]
  | pending hq hv => simp [Stirred.holds_iff hv]
  | crashed hc hv => simp [hv.locks]

theorem Attended.issued_le (h : Attended P w ticket lapse g c p v turn served) :
    w.locks.issued ≤ v.locks.issued := by
  cases h with
  | served h => exact h.issued_le
  | madeUp ha hq hv => exact Nat.le_of_eq (congrArg Locks.issued hv.locks).symm
  | cutOff ho hv => exact Nat.le_of_eq hv.issued.symm
  | pending hq hv => exact Nat.le_of_eq (Stirred.issued hv).symm
  | crashed hc hv => exact Nat.le_of_eq (congrArg Locks.issued hv.locks).symm

end Attended

end World

end Registrar
