import Registrar.Proofs.Crowd.Dealing
import Registrar.Proofs.Crowd.Realm
set_option autoImplicit false

namespace Registrar

/-- What is under a limit of its own ends while that has not passed. -/
def Guard.InTime : Guard → Tick → World → Prop
  | .within _, lapse, w => w.now ≤ lapse
  | .free, _, _ | .under _, _, _ => True

theorem World.not_lapsed {w : World} {ticket : Nat} {lapse : Tick} {limit : Span} {c : Call}
    {p q : Phase c} (h : (w.attend ticket lapse (.within limit) c p).2 = .pending q) :
    w.now < lapse := by
  have hclock := World.clock_attend w ticket lapse (.within limit) c p
  refine Nat.lt_of_not_le fun hlate => ?_
  simp only [attend, before] at h hclock
  generalize w.work ticket c p = r at h hclock
  obtain ⟨v, progress⟩ := r
  cases progress with
  | answered a => cases h
  | crashed => cases h
  | pending q' =>
    by_cases hv : lapse ≤ v.now
    · simp [after, hv] at h
    · simp only [after, if_neg hv] at hclock
      exact hv (Nat.le_trans hlate (Nat.le_of_eq (congrArg Clock.now hclock).symm))

namespace Activity

variable {α : Type}

def Still (w : World) : Activity α → Prop
  | .fresh _ => False
  | .waiting ticket lapse g c _ _ p => (w.attend ticket lapse g c p).2 = .pending p
  | .done _ | .crashed => True

theorem bound_congr {act : Activity α} {w v : World} (hnow : v.now = w.now)
    (h : act.Bound Guard.InTime w) : act.Bound Guard.InTime v := by
  cases act with
  | waiting ticket lapse g c held k p =>
    cases g with
    | within limit =>
      change v.now ≤ lapse
      rw [hnow]
      exact h
    | free | under => exact trivial
  | fresh | done | crashed => exact trivial

theorem bound_look {act : Activity α} {w : World} (h : act.Bound Guard.InTime w) :
    (act.look w).2.Bound Guard.InTime w := by
  cases act with
  | fresh f =>
    cases f with
    | call g c held k =>
      cases g with
      | within limit => exact w.now.le_after limit
      | free | under => exact trivial
    | request root timeout k =>
      simp only [look]
      split <;> exact trivial
    | done | crash | now | mint => exact trivial
  | waiting ticket lapse g c held k p =>
    simp only [look]
    split
    · exact trivial
    · exact h
    · exact trivial
  | done | crashed => exact trivial

theorem bound_pass {act : Activity α} {w : World} {length : Span} (hstill : act.Still w)
    (hdue : ∀ t, .due t ∈ act.causes → w.now < t → w.now + length ≤ t) :
    act.Bound Guard.InTime (w.setNow (w.now + length)) := by
  cases act with
  | waiting ticket lapse g c held k p =>
    cases g with
    | within limit =>
      refine hdue lapse ?_ (World.not_lapsed hstill)
      simp [causes, guardCauses]
    | free | under => exact trivial
  | fresh | done | crashed => exact trivial

end Activity

namespace Crowd

variable {T : Trade} {s : Crowd T} {i : Nat} {m : Move T} {moves : List (Move T)}

/-- Time passes only when a look at the party would find nothing to do, and not beyond a moment that
the party waits for. -/
def Heeds (i : Nat) (s : Crowd T) : Move T → Prop
  | .pass length => ∀ p, s.parties[i]? = some p → p.activity.Still s.world ∧
      ∀ t, .due t ∈ p.activity.causes → s.now < t → s.now + length ≤ t
  | _ => True

theorem bound_act (ho : s.Orderly anything) (hm : Heeds i s m)
    (hs : ∀ p, s.parties[i]? = some p → p.activity.Bound Guard.InTime s.world) {p : Party T}
    (hp : (s.act m).parties[i]? = some p) : p.activity.Bound Guard.InTime (s.act m).world := by
  cases hi : s.parties[i]? with
  | none =>
    rw [party_new hi hp]
    exact trivial
  | some q =>
    have hclock := act_clock ho (fun _ => trivial) m
    rcases party_act hi m with h | ⟨rfl, h⟩ | ⟨-, -, h⟩ <;>
      obtain rfl := Option.some.inj (h.symm.trans hp)
    · rcases hclock with hclock | ⟨length, rfl, -⟩
      · exact Activity.bound_congr (congrArg Clock.now hclock) (hs q hi)
      · obtain ⟨hstill, hdue⟩ := hm q hi
        exact Activity.bound_pass hstill hdue
    · rcases hclock with hclock | ⟨length, hlook, -⟩
      · exact Activity.bound_congr (congrArg Clock.now hclock) (Activity.bound_look (hs q hi))
      · cases hlook
    · exact trivial

theorem Lawful.keeps (ho : s.Orderly anything) (hi : s.parties[i]? = none)
    (h : s.Lawful (Heeds i) moves) : s.Keeps Guard.InTime i moves := by
  rintro before later rfl
  refine (h.of_append.preserves (I := fun s => s.Orderly anything ∧
    ∀ p, s.parties[i]? = some p → p.activity.Bound Guard.InTime s.world) ?_ ⟨ho, ?_⟩).2
  · exact fun s m hm ⟨ho, hs⟩ => ⟨ho.act_anything m, fun p hp => bound_act ho hm hs hp⟩
  · rintro p hp
    cases hi.symm.trans hp

end Crowd

end Registrar
