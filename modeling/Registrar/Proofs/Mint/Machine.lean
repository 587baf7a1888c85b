import Mathlib.Data.List.Basic
import Registrar.Backend
import Registrar.Proofs.Mint
/-!
Allocations that are started together run as a crowd. A turn of the machine is a number of looks,
after which the locks left behind are taken on; between turns time passes. Main statement: whatever
the machine makes of them is what some run of the crowd makes of them (`run_eq_play`).
-/
set_option autoImplicit false

namespace Registrar

namespace Machine

variable {σ α : Type} {m n : Machine σ α}

/-- Machines that differ at most in whom they rouse, and when. -/
structure Level (m n : Machine σ α) : Prop where
  world : n.world = m.world
  tasks : n.tasks = m.tasks
  releases : n.releases = m.releases

theorem Level.trans {k : Machine σ α} (h : m.Level n) (h' : n.Level k) : m.Level k :=
  ⟨h'.world.trans h.world, h'.tasks.trans h.tasks, h'.releases.trans h.releases⟩

theorem rouse_level (m : Machine σ α) (who : Who) : m.Level (m.rouse who) := by
  unfold rouse
  split <;> exact ⟨rfl, rfl, rfl⟩

theorem ring_level (m : Machine σ α) : m.Level m.ring := by
  have roused : ∀ (met : List Alarm) (n : Machine σ α),
      n.Level (met.foldl (fun m alarm => m.rouse alarm.who) n) := by
    intro met
    induction met with
    | nil => exact fun n => ⟨rfl, rfl, rfl⟩
    | cons alarm met ih => exact fun n => (n.rouse_level alarm.who).trans (ih _)
  have h := roused (arrange m.world (m.alarms.partition (·.cause.met m.world)).1)
    { m with alarms := (m.alarms.partition (·.cause.met m.world)).2 }
  exact ⟨h.world, h.tasks, h.releases⟩

theorem expect_level (m : Machine σ α) (who : Who) (wanted : List (Option Nat × Cause)) :
    m.Level (m.expect who wanted) :=
  ⟨rfl, rfl, rfl⟩

end Machine

/-- What a task that begins its flow at once is to be seen at, at each stage. -/
inductive Stage.Shows {α : Type} (f : Flow α) : Stage α → Activity α → Prop where
  | idle : Shows f .idle (.fresh f)
  | active {a : Activity α} (ha : a.inFlight = true) : Shows f (.active a none) a
  | finished (r : α) : Shows f (.ended (.finished r)) (.done r)
  | crashed : Shows f (.ended .crashed) .crashed

namespace Task

variable {α : Type} {f : Flow α}

theorem go_shows (t : Task Unit α) (a : Activity α) (w : World) (s : Unit) :
    (t.go a none w s).1.Shows f (a.poll w).2 ∧ (t.go a none w s).2.1 = (a.poll w).1 := by
  unfold go
  generalize a.poll w = r
  obtain ⟨v, b⟩ := r
  cases b with
  | done r => exact ⟨.finished r, rfl⟩
  | crashed => exact ⟨.crashed, rfl⟩
  | fresh f => exact ⟨.active rfl, rfl⟩
  | waiting => exact ⟨.active rfl, rfl⟩

theorem turn_shows {stage : Stage α} {a : Activity α} (h : stage.Shows f a) (w : World) (s : Unit) :
    ((Backend.taskOf f).turn w s stage).1.Shows f (a.poll w).2 ∧
      ((Backend.taskOf f).turn w s stage).2.1 = (a.poll w).1 := by
  cases h with
  | idle => exact go_shows (Backend.taskOf f) (.fresh f) w s
  | active ha => exact go_shows (Backend.taskOf f) a w s
  | finished r => exact ⟨.finished r, rfl⟩
  | crashed => exact ⟨.crashed, rfl⟩

end Task

namespace Crowd

abbrev Minting := Machine Unit (Except AllocError Identifier)

variable {orders : List (Allocator × Order)} {m n : Minting} {s : Crowd mint}

/-- The machine's tasks are the first parties of the crowd, its releases are the others. -/
structure Mirrors (orders : List (Allocator × Order)) (m : Minting) (s : Crowd mint) : Prop where
  world : s.world = m.world
  length : s.parties.length = orders.length + m.releases.length
  count : m.tasks.length = orders.length
  task : ∀ (k : Nat) (a : Allocator) (o : Order), orders[k]? = some (a, o) →
    ∃ (stage : Stage (Except AllocError Identifier)) (act : Activity (Except AllocError Identifier)),
      m.tasks[k]? = some (Backend.taskOf (o.flow a), stage) ∧
        s.parties[k]? = some ⟨.job (.allocate a o), act⟩ ∧ stage.Shows (o.flow a) act
  release : ∀ (k : Nat) (act : Activity Unit), m.releases[k]? = some act →
    ∃ h, s.parties[orders.length + k]? = some ⟨.release h, act⟩

def Made (orders : List (Allocator × Order)) : Move mint → Prop
  | .join (.allocate a o) => (a, o) ∈ orders
  | .look _ | .adopt | .pass _ => True
  | _ => False

def Reaches (orders : List (Allocator × Order)) (s : Crowd mint) (m : Minting) : Prop :=
  ∃ moves : List (Move mint), (∀ move ∈ moves, Made orders move) ∧ Mirrors orders m (s.play moves)

theorem Mirrors.reaches (h : Mirrors orders m s) : s.Reaches orders m := by
  refine ⟨[], ?_, h⟩
  intro move hm
  cases hm

theorem Reaches.trans (h : s.Reaches orders m)
    (k : ∀ t : Crowd mint, Mirrors orders m t → t.Reaches orders n) : s.Reaches orders n := by
  obtain ⟨moves, hmade, hm⟩ := h
  obtain ⟨more, hmore, hn⟩ := k _ hm
  refine ⟨moves ++ more, fun move hmem => ?_, by rwa [play_append]⟩
  rcases List.mem_append.1 hmem with hmem | hmem
  · exact hmade move hmem
  · exact hmore move hmem

theorem filterMap_range {α β : Type} (f : α → Option β) (l : List α) :
    (List.range l.length).filterMap (fun k => l[k]? >>= f) = l.filterMap f := by
  induction l with
  | nil => rfl
  | cons x l ih =>
    rw [List.length_cons, List.range_succ_eq_map, List.filterMap_cons, List.filterMap_map,
      List.filterMap_cons, ← ih]
    rfl

def ending? (s : Crowd mint) (i : Nat) : Option (Ending (Except AllocError Identifier)) :=
  match s.parties[i]? with
  | some ⟨.job (.allocate _ _), .done r⟩ => some (.finished r)
  | some ⟨.job (.allocate _ _), .crashed⟩ => some .crashed
  | _ => none

namespace Mirrors

theorem level (h : Mirrors orders m s) (hl : m.Level n) : Mirrors orders n s where
  world := h.world.trans hl.world.symm
  length := by rw [hl.releases, h.length]
  count := by rw [hl.tasks, h.count]
  task := by rw [hl.tasks]; exact h.task
  release := by rw [hl.releases]; exact h.release

theorem adopt (h : Mirrors orders m s) : s.Reaches orders m.adopt := by
  refine ⟨[.adopt], by simp [Made], ?_, ?_, h.count, fun k a o ho => ?_, fun k act hk => ?_⟩
  · simp only [play, act, Machine.adopt, h.world]
  · simp only [play, act, Machine.adopt, List.length_append, List.length_map, h.length, h.world,
      Nat.add_assoc]
  · obtain ⟨stage, act, ht, hp, hs⟩ := h.task k a o ho
    refine ⟨stage, act, ht, ?_, hs⟩
    simp only [play, Crowd.act]
    rw [List.getElem?_append_left (List.getElem?_eq_some_iff.1 hp).1, hp]
  -- The releases that are new stand behind the old ones, in the crowd as in the machine.
  · simp only [Machine.adopt] at hk
    simp only [play, Crowd.act]
    by_cases hlt : k < m.releases.length
    · rw [List.getElem?_append_left hlt] at hk
      obtain ⟨held, hp⟩ := h.release k act hk
      exact ⟨held, by rw [List.getElem?_append_left (List.getElem?_eq_some_iff.1 hp).1, hp]⟩
    · rw [List.getElem?_append_right (Nat.le_of_not_lt hlt), ← h.world, List.getElem?_map] at hk
      obtain ⟨held, hh, rfl⟩ := Option.map_eq_some_iff.1 hk
      have hle : s.parties.length ≤ orders.length + k := by
        rw [h.length]
        exact Nat.add_le_add_left (Nat.le_of_not_lt hlt) _
      have hsub : orders.length + k - s.parties.length = k - m.releases.length := by
        rw [h.length, Nat.add_sub_add_left]
      refine ⟨held, ?_⟩
      rw [List.getElem?_append_right hle, hsub, List.getElem?_map, hh]
      rfl

theorem settle (h : Mirrors orders m s) (who : Who) (wanted : List (Option Nat × Cause)) :
    s.Reaches orders (m.settle who wanted) :=
  (h.level ((m.expect_level who wanted).trans (Machine.ring_level _))).adopt

theorem task_turned (h : Mirrors orders m s) {k : Nat} {a : Allocator} {o : Order}
    (ho : orders[k]? = some (a, o)) {t : Crowd mint} {w : World}
    {act : Activity (Except AllocError Identifier)}
    (ht : s.Turned k ⟨.job (.allocate a o), act⟩ w t) {stage : Stage (Except AllocError Identifier)}
    (hs : stage.Shows (o.flow a) act) :
    Mirrors orders { m with
      world := w, tasks := m.tasks.set k (Backend.taskOf (o.flow a), stage) } t := by
  have hk := (List.getElem?_eq_some_iff.1 ho).1
  refine ⟨ht.1, by rw [ht.2, List.length_set, h.length], by rw [List.length_set, h.count], ?_, ?_⟩
  · intro k' a' o' ho'
    rw [ht.2]
    by_cases hkk : k' = k
    · subst hkk
      obtain ⟨rfl, rfl⟩ : a = a' ∧ o = o' := by simpa using ho.symm.trans ho'
      refine ⟨stage, act, List.getElem?_set_self (h.count ▸ hk), List.getElem?_set_self ?_, hs⟩
      rw [h.length]
      exact Nat.lt_of_lt_of_le hk (Nat.le_add_right _ _)
    · obtain ⟨stage', act', ht', hp', hs'⟩ := h.task k' a' o' ho'
      exact ⟨stage', act', by rwa [List.getElem?_set_ne (Ne.symm hkk)],
        by rwa [List.getElem?_set_ne (Ne.symm hkk)], hs'⟩
  · intro k' act' hk'
    obtain ⟨held, hp⟩ := h.release k' act' hk'
    have hne : k ≠ orders.length + k' := Nat.ne_of_lt (Nat.lt_of_lt_of_le hk (Nat.le_add_right _ _))
    exact ⟨held, by rwa [ht.2, List.getElem?_set_ne hne]⟩

theorem release_turned (h : Mirrors orders m s) {k : Nat} (hk : k < m.releases.length) {held : Held}
    {t : Crowd mint} {w : World} {act : Activity Unit}
    (ht : s.Turned (orders.length + k) ⟨.release held, act⟩ w t) :
    Mirrors orders { m with world := w, releases := m.releases.set k act } t := by
  refine ⟨ht.1, by rw [ht.2, List.length_set, List.length_set, h.length], h.count, ?_, ?_⟩
  · intro k' a o ho
    obtain ⟨stage, act', ht', hp, hs⟩ := h.task k' a o ho
    have hlt := (List.getElem?_eq_some_iff.1 ho).1
    have hne : orders.length + k ≠ k' :=
      Nat.ne_of_gt (Nat.lt_of_lt_of_le hlt (Nat.le_add_right _ _))
    exact ⟨stage, act', ht', by rwa [ht.2, List.getElem?_set_ne hne], hs⟩
  · intro k' act' hk'
    rw [ht.2]
    by_cases hkk : k' = k
    · subst hkk
      rw [List.getElem?_set_self hk] at hk'
      cases hk'
      refine ⟨held, List.getElem?_set_self ?_⟩
      rw [h.length]
      exact Nat.add_lt_add_left hk _
    · rw [List.getElem?_set_ne (Ne.symm hkk)] at hk'
      obtain ⟨held', hp⟩ := h.release k' act' hk'
      have hne : orders.length + k ≠ orders.length + k' := fun he => hkk (Nat.add_left_cancel he).symm
      exact ⟨held', by rwa [List.getElem?_set_ne hne]⟩

theorem turn (h : Mirrors orders m s) (who : Who) : s.Reaches orders (m.turn who) := by
  have looked : ∀ (i k : Nat) (n : Minting), Mirrors orders n (s.play (List.replicate k (.look i))) →
      s.Reaches orders n := by
    intro i k n hn
    refine ⟨_, fun move hmem => ?_, hn⟩
    rw [List.eq_of_mem_replicate hmem]
    trivial
  cases who with
  | task k =>
    cases ht : m.tasks[k]? with
    | none =>
      simp only [Machine.turn, ht]
      exact h.reaches
    | some r =>
      have hk := (List.getElem?_eq_some_iff.1 ht).1
      rw [h.count] at hk
      obtain ⟨⟨a, o⟩, ho⟩ : ∃ r, orders[k]? = some r := ⟨_, List.getElem?_eq_getElem hk⟩
      obtain ⟨stage, act, ht', hp, hs⟩ := h.task k a o ho
      rw [ht'] at ht
      cases ht
      obtain ⟨n, hturned⟩ := play_poll hp
      rw [h.world] at hturned
      obtain ⟨hshows, hworld⟩ := Task.turn_shows hs m.world m.desk
      simp only [Machine.turn, ht', hworld]
      exact (looked k n _ (h.task_turned ho hturned hshows)).trans fun t hm => hm.settle _ _
  | release k =>
    cases ha : m.releases[k]? with
    | none =>
      simp only [Machine.turn, ha]
      exact h.reaches
    | some act =>
      obtain ⟨held, hp⟩ := h.release k act ha
      obtain ⟨n, hturned⟩ := play_poll hp
      rw [h.world] at hturned
      simp only [Machine.turn, ha]
      have hk := (List.getElem?_eq_some_iff.1 ha).1
      exact (looked _ n _ (h.release_turned hk hturned)).trans fun t hm => hm.settle _ _

theorem moveTo (h : Mirrors orders m s) {t : Tick} (ht : m.world.now ≤ t) :
    s.Reaches orders (m.moveTo t) := by
  refine ⟨[.pass (t - s.now)], by simp [Made], ?_⟩
  have hnow : s.now + (t - s.now) = t := by
    rw [Crowd.now, h.world]
    exact Nat.add_sub_cancel' ht
  have hmoved : Mirrors orders { m with world := m.world.setNow t } (s.act (.pass (t - s.now))) :=
    ⟨by simp only [Crowd.act, hnow, h.world], h.length, h.count, h.task, h.release⟩
  exact hmoved.level (Machine.ring_level _)

theorem asleep (h : Mirrors orders m s) (awake : List Who) :
    Mirrors orders { m with awake := awake } s :=
  h.level ⟨rfl, rfl, rfl⟩

theorem finish (h : Mirrors orders m s) (fuel : Nat) : s.Reaches orders (m.finish fuel) := by
  induction fuel generalizing m s with
  | zero => exact h.reaches
  | succ fuel ih =>
    unfold Machine.finish
    split
    · exact h.reaches
    · split
      · rename_i who awake _
        exact ((h.asleep awake).turn who).trans fun t ht => ih ht
      · split
        · exact (h.moveTo (Nat.le_max_right _ _)).trans fun t ht => ih ht
        · exact h.reaches

theorem drain (h : Mirrors orders m s) (fuel : Nat) : s.Reaches orders (m.drain fuel) := by
  induction fuel generalizing m s with
  | zero => exact h.reaches
  | succ fuel ih =>
    unfold Machine.drain
    split
    · exact h.reaches
    · rename_i who awake _
      exact ((h.asleep awake).turn who).trans fun t ht => ih ht

theorem endings (h : Mirrors orders m s) :
    m.endings = (List.range orders.length).filterMap s.ending? := by
  have hend : ∀ k ∈ List.range orders.length,
      s.ending? k = m.tasks[k]? >>= fun r => r.2.ended? := by
    intro k hk
    obtain ⟨⟨a, o⟩, ho⟩ : ∃ r, orders[k]? = some r :=
      ⟨_, List.getElem?_eq_getElem (List.mem_range.1 hk)⟩
    obtain ⟨stage, act, ht, hp, hs⟩ := h.task k a o ho
    rw [ht]
    simp only [ending?, hp]
    cases hs with
    | idle => rfl
    | active hact =>
      cases act with
      | fresh f => rfl
      | waiting => rfl
      | done r => cases hact
      | crashed => cases hact
    | finished r => rfl
    | crashed => rfl
  have hall : (List.range orders.length).filterMap s.ending? =
      (List.range m.tasks.length).filterMap fun k => m.tasks[k]? >>= fun r => r.2.ended? := by
    rw [h.count]
    exact List.filterMap_congr hend
  rw [hall, filterMap_range, Machine.endings]

end Mirrors

theorem play_joins (s : Crowd mint) (orders : List (Allocator × Order)) :
    s.play (orders.map fun r => .join (.allocate r.1 r.2)) = { s with
      parties := s.parties ++
        orders.map fun r => ⟨.job (.allocate r.1 r.2), .fresh (r.2.flow r.1)⟩ } := by
  induction orders generalizing s with
  | nil => simp [play]
  | cons r orders ih =>
    rw [List.map_cons, play, ih]
    simp [act]
    rfl

theorem mirrors_start (w : World) (orders : List (Allocator × Order)) :
    Mirrors orders
      ((Machine.idle w ()).assign (orders.map fun r => Backend.taskOf (r.2.flow r.1)))
      ((around w).play (orders.map fun r => .join (.allocate r.1 r.2))) := by
  rw [play_joins]
  refine ⟨rfl, by simp [around, Machine.assign, Machine.idle], by simp [Machine.assign], ?_, ?_⟩
  · intro k a o ho
    refine ⟨.idle, .fresh (o.flow a), ?_, ?_, .idle⟩
    · simp [Machine.assign, ho]
    · simp only [around, List.nil_append, List.getElem?_map, ho]
      rfl
  · intro k act hk
    cases hk

/-- Whatever the machine makes of allocations that are started together, some run of the crowd
makes of them. -/
theorem run_eq_play (w : World) (orders : List (Allocator × Order)) :
    ∃ moves : List (Move mint), (∀ move ∈ moves, Made orders move) ∧
      ((around w).play moves).world = ((Machine.idle w ()).run
        (orders.map fun r => Backend.taskOf (r.2.flow r.1))).2.world ∧
      (List.range orders.length).filterMap ((around w).play moves).ending? =
        ((Machine.idle w ()).run (orders.map fun r => Backend.taskOf (r.2.flow r.1))).1 := by
  have hstart : (around w).Reaches orders
      ((Machine.idle w ()).assign (orders.map fun r => Backend.taskOf (r.2.flow r.1))) := by
    refine ⟨_, fun move hmem => ?_, mirrors_start w orders⟩
    obtain ⟨r, hr, rfl⟩ := List.mem_map.1 hmem
    exact hr
  obtain ⟨moves, hmade, hm⟩ :=
    (hstart.trans fun t ht => ht.finish _).trans fun t ht => ht.drain _
  exact ⟨moves, hmade, hm.world, hm.endings.symm⟩

end Crowd

end Registrar
