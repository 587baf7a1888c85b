import Registrar.Proofs.Crowd.Trace
set_option autoImplicit false

namespace Registrar

namespace Crowd

variable {T : Trade} {P : Answers} {s : Crowd T} {i : Nat} {began : Tick} {e : T.Role}
  {h : List Event}

/-- A party has come for a job and has not begun. -/
structure Poised (s : Crowd T) (i : Nat) (j : T.Job) : Prop where
  party : s.parties[i]? = some ⟨.job j, .fresh (T.flow j)⟩
  idle : s.servedCalls i = []

structure Tells (P : Answers) (began : Tick) (i : Nat) (e : T.Role) (s : Crowd T)
    (h : List Event) : Prop where
  came : ∃ act, s.parties[i]? = some ⟨e, act⟩ ∧ act.Came P s.world.ids e.flow h
  servedCalls : heard h = s.servedCalls i
  since : ∀ x ∈ h, ∀ t ∈ x.time?, began ≤ t ∧ t ≤ s.now
  clock : ∀ t, .read t ∈ h → t.origin = s.world.clock.origin

theorem Poised.tells {j : T.Job} (hp : s.Poised i j) : s.Tells P s.now i (.job j) [] where
  came := ⟨_, hp.party, _, .start, .inl rfl⟩
  servedCalls := hp.idle.symm
  since := by simp
  clock := by simp

theorem servedCalls_act {m : Move T} (hm : m ≠ .look i) :
    (s.act m).servedCalls i = s.servedCalls i := by
  have hnone : (s.did m).toList.filter (fun d => d.who = some i) = [] := by
    refine List.filter_eq_nil_iff.2 fun d hd => ?_
    rcases (did_eq_some (Option.mem_toList.1 hd)).2 with ⟨j, p, rfl, -, hserved⟩ | ⟨hwho, -⟩
    · have hji : j ≠ i := fun hji => hm (by rw [hji])
      simpa [(Activity.servedCall_eq_some hserved).1] using hji
    · simp [hwho]
  rw [Crowd.servedCalls, Crowd.servedCalls, act_log, List.filter_append, hnone, List.nil_append]

namespace Tells

theorem look (ht : s.Tells P began i e h) (ho : s.Orderly P) (hP : ∀ length, P (.pause length) ())
    (hbegan : began ≤ s.now) : ∃ h', (s.act (.look i)).Tells P began i e h' := by
  obtain ⟨act, hp, hcame⟩ := ht.came
  have hat := ho.attended hP hp
  obtain ⟨x, hm, hl⟩ := Activity.look_came (i := i) hat hcame
  have hclock : (act.look s.world).1.clock = s.world.clock := Activity.look_clock hat
  have hnow : (s.act (.look i)).now = s.now := by
    rw [act_look hp]
    exact congrArg Clock.now hclock
  have hlt := (List.getElem?_eq_some_iff.1 hp).1
  refine ⟨x.toList ++ h, ⟨(act.look s.world).2, ?_, ?_⟩, ?_, ?_, ?_⟩
  · rw [act_look hp]
    simp [note, become, hlt]
  · rw [act_look hp]
    change Activity.Came P (act.look s.world).1.ids _ _ _
    rw [hm.ids]
    exact hl
  · have hall : (act.servedCall i s.world).toList.filter (fun d => d.who = some i) =
        (act.servedCall i s.world).toList :=
      List.filter_eq_self.2 fun d hd => by
        simp [(Activity.servedCall_eq_some (Option.mem_toList.1 hd)).1]
    rw [heard_append, hm.servedCall, ht.servedCalls, Crowd.servedCalls, Crowd.servedCalls,
      act_log, did_look hp, List.filter_append, hall]
  · intro y hy t hy'
    rw [hnow]
    rcases List.mem_append.1 hy with hy | hy
    · have htime := hm.time y (Option.mem_toList.1 hy) t hy'
      exact ⟨htime ▸ hbegan, Nat.le_of_eq htime⟩
    · exact ht.since y hy t hy'
  · intro t hr
    have horigin : (s.act (.look i)).world.clock = s.world.clock := by
      rw [act_look hp]
      exact hclock
    rw [horigin]
    rcases List.mem_append.1 hr with hr | hr
    · rw [hm.clock t (Option.mem_toList.1 hr)]
    · exact ht.clock t hr

theorem act (ht : s.Tells P began i e h) (ho : s.Orderly P) (hP : ∀ length, P (.pause length) ())
    (hbegan : began ≤ s.now) (m : Move T) : ∃ h', (s.act m).Tells P began i e h' := by
  by_cases hm : m = .look i
  · subst hm
    exact ht.look ho hP hbegan
  · obtain ⟨act, hp, hcame⟩ := ht.came
    refine ⟨h, ?_, ht.servedCalls.trans (servedCalls_act hm).symm, ?_, ?_⟩
    · rw [act_ids ho hP m]
      rcases party_act hp m with hq | ⟨hlook, -⟩ | ⟨-, -, hq⟩
      · exact ⟨act, hq, hcame⟩
      · exact absurd hlook hm
      · exact ⟨.crashed, hq, hcame.lost rfl⟩
    · intro x hx t hx'
      obtain ⟨hle, hpast⟩ := ht.since x hx t hx'
      exact ⟨hle, Nat.le_trans hpast (act_now_le ho hP m)⟩
    · intro t hr
      rw [ht.clock t hr]
      rcases act_clock ho hP m with hc | ⟨length, -, hc⟩ <;> rw [hc]

end Tells

theorem Lawful.tells {C : Crowd T → Move T → Prop} (hP : ∀ length, P (.pause length) ())
    (hplans : ∀ s fs, C s (.plan fs) → fs.Within P) {j : T.Job} (ho : s.Orderly P)
    (hp : s.Poised i j) {moves : List (Move T)} (hlaw : s.Lawful C moves) :
    ∃ h, (s.play moves).Tells P s.now i (.job j) h := by
  have hrun := hlaw.preserves
    (I := fun t => t.Orderly P ∧ s.now ≤ t.now ∧ ∃ h, t.Tells P s.now i (.job j) h) ?_
    ⟨ho, Nat.le_refl _, _, hp.tells⟩
  · exact hrun.2.2
  · rintro t m hm ⟨ho, hle, h, ht⟩
    exact ⟨ho.act hP m fun fs he => hplans t fs (he ▸ hm), Nat.le_trans hle (act_now_le ho hP m),
      ht.act ho hP hle m⟩

end Crowd

end Registrar
