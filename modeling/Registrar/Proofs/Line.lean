import Registrar.Lock
set_option autoImplicit false

namespace Registrar

/-- Those who wait, the one who has been offered the seat first. -/
def Lock.line (l : Lock) : List Nat :=
  match l.seat with
  | .offered ticket => ticket :: l.queue
  | .free | .held _ => l.queue

namespace Lock

theorem line_of_held {l : Lock} {h : Holder} (hl : l.seat = .held h) : l.line = l.queue := by
  rw [line, hl]

@[simp] theorem line_passOn (queue : List Nat) : (passOn queue).line = queue := by
  cases queue <;> rfl

theorem passOn_seat_ne_held (queue : List Nat) (h : Holder) : (passOn queue).seat ≠ .held h := by
  cases queue <;> simp [passOn, idle]

@[simp] theorem line_leave (l : Lock) (ticket : Nat) :
    (l.leave ticket).line = l.line.erase ticket := by
  obtain ⟨seat, queue⟩ := l
  cases seat with
  | free => simp [leave, line]
  | held h => simp [leave, line]
  | offered t =>
    by_cases ht : t = ticket
    · subst ht
      rw [leave, if_pos rfl, line_passOn]
      simp [line]
    · simp [leave, line, ht]

theorem leave_held_iff (l : Lock) (ticket : Nat) (h : Holder) :
    (l.leave ticket).seat = .held h ↔ l.seat = .held h := by
  unfold leave
  split
  · rename_i ho
    simp [ho, passOn_seat_ne_held]
  · rfl

theorem mem_line_of_offered {l : Lock} {ticket : Nat} (h : l.seat = .offered ticket) :
    ticket ∈ l.line := by
  simp [line, h]

end Lock

namespace Locks

@[simp] theorem find_put_self (ls : Locks) (name : String) (l : Lock) :
    (ls.put name l).find name = l := by
  simp [find_put]

theorem find_put_of_ne (ls : Locks) {name other : String} (l : Lock) (h : other ≠ name) :
    (ls.put name l).find other = ls.find other := by
  simp [find_put, h]

@[simp] theorem put_issued (ls : Locks) (name : String) (l : Lock) :
    (ls.put name l).issued = ls.issued := rfl

def join (ls : Locks) (name : String) (ticket : Nat) : Locks :=
  ls.put name { ls.find name with queue := (ls.find name).queue ++ [ticket] }

/-- How a ticket's coming and going can change the locks: `before` and `after` say whether it
stands in the line. One that comes and leaves again in a moment gives way to those before it. -/
inductive Stirred (ls : Locks) (name : String) (ticket : Nat) : Bool → Bool → Locks → Prop where
  | still (b : Bool) : Stirred ls name ticket b b ls
  | joined (h : (ls.find name).seat ≠ .free) :
      Stirred ls name ticket false true (ls.join name ticket)
  | left : Stirred ls name ticket true false (ls.leave name ticket)
  | brief (h : (ls.find name).seat ≠ .free) :
      Stirred ls name ticket false false ((ls.join name ticket).leave name ticket)

variable {ls ls' : Locks} {name : String} {ticket : Nat} {before after : Bool}

theorem find_join (ls : Locks) (name other : String) (ticket : Nat) :
    ((ls.join name ticket).find other).seat = (ls.find other).seat ∧
      ((ls.join name ticket).find other).line =
        (ls.find other).line ++ if other = name then [ticket] else [] := by
  by_cases h : other = name
  · subst h
    simp only [join, find_put_self, Lock.line, if_true]
    cases (ls.find other).seat <;> simp
  · simp [join, find_put_of_ne ls _ h, h]

theorem find_leave (ls : Locks) (name other : String) (ticket : Nat) :
    (ls.leave name ticket).find other =
      if other = name then (ls.find name).leave ticket else ls.find other := by
  rw [leave, find_put]

theorem Stirred.held_iff (hs : Stirred ls name ticket before after ls') (other : String)
    (h : Holder) : (ls'.find other).seat = .held h ↔ (ls.find other).seat = .held h := by
  have hjoin : ((ls.join name ticket).find other).seat = (ls.find other).seat :=
    (find_join ls name other ticket).1
  have hleave : ∀ ls₁ : Locks, ((ls₁.leave name ticket).find other).seat = .held h ↔
      (ls₁.find other).seat = .held h := by
    intro ls₁
    rw [find_leave]
    by_cases ho : other = name
    · subst ho
      rw [if_pos rfl, Lock.leave_held_iff]
    · rw [if_neg ho]
  cases hs with
  | still => exact Iff.rfl
  | joined => rw [hjoin]
  | left => exact hleave ls
  | brief => rw [hleave, hjoin]

theorem Stirred.issued (hs : Stirred ls name ticket before after ls') :
    ls'.issued = ls.issued := by
  cases hs <;> rfl

theorem Stirred.line (hs : Stirred ls name ticket before after ls') (other : String) :
    (ls'.find other).line = (ls.find other).line ∧ before = after ∨
      other ≠ name ∧ (ls'.find other).line = (ls.find other).line ∨
      other = name ∧ before = false ∧ after = true ∧
        (ls'.find other).line = (ls.find other).line ++ [ticket] ∨
      other = name ∧ before = true ∧ after = false ∧
        (ls'.find other).line = (ls.find other).line.erase ticket ∨
      other = name ∧ before = false ∧ after = false ∧
        (ls'.find other).line = ((ls.find other).line ++ [ticket]).erase ticket := by
  have hjoin := (find_join ls name other ticket).2
  by_cases ho : other = name
  · subst ho
    cases hs with
    | still => simp
    | joined => simp [hjoin]
    | left => simp [find_leave]
    | brief => simp [find_leave, hjoin]
  · cases hs <;> simp [find_leave, ho, hjoin]

/-- A line in which no ticket stands twice stays so, and when the ticket is gone it is gone from
every line. -/
theorem Stirred.line_mem (hs : Stirred ls name ticket before after ls') {other : String}
    (hnd : (ls.find other).line.Nodup)
    (ht : ticket ∈ (ls.find other).line → other = name ∧ before = true) :
    (ls'.find other).line.Nodup ∧
      (ticket ∈ (ls'.find other).line → other = name ∧ after = true) ∧
      ∀ t, t ≠ ticket → t ∈ (ls'.find other).line → t ∈ (ls.find other).line := by
  rcases hs.line other with ⟨hl, hb⟩ | ⟨hn, hl⟩ | ⟨rfl, hb, ha, hl⟩ | ⟨rfl, hb, ha, hl⟩ |
      ⟨rfl, hb, ha, hl⟩
  · rw [hl]
    exact ⟨hnd, fun h => hb ▸ ht h, fun t _ h => h⟩
  · rw [hl]
    exact ⟨hnd, fun h => absurd (ht h).1 hn, fun t _ h => h⟩
  · have hout : ticket ∉ (ls.find other).line := fun h => by simpa [hb] using (ht h).2
    rw [hl]
    refine ⟨?_, fun _ => ⟨rfl, ha⟩, fun t htt h => ?_⟩
    · refine List.nodup_append.2 ⟨hnd, by simp, fun a h b hb he => hout ?_⟩
      rw [← List.mem_singleton.1 hb, ← he]
      exact h
    · simpa [htt] using h
  · rw [hl]
    refine ⟨hnd.erase ticket, fun h => ?_, fun t _ h => List.mem_of_mem_erase h⟩
    exact absurd h (hnd.not_mem_erase)
  · have hout : ticket ∉ (ls.find other).line := fun h => by simpa [hb] using (ht h).2
    rw [hl, List.erase_append_right _ hout]
    simpa [hout] using hnd

end Locks

end Registrar
