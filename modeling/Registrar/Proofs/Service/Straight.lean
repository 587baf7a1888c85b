import Registrar.Proofs.Service.Prompt
set_option autoImplicit false

namespace Registrar

namespace Flow

variable {α : Type}

/-- What flows come to, each in one go and without a lock left behind, one after another. -/
inductive Straight : List (Flow α) → World → List (Option α) → World → Prop where
  | nil (w : World) : Straight [] w [] w
  | cons {f : Flow α} {fs : List (Flow α)} {w v u : World} {o : Option α} {os : List (Option α)}
      (h : f.advance w = (v, .over o)) (ho : v.orphans = []) (hs : Straight fs v os u) :
      Straight (f :: fs) w (o :: os) u

theorem Straight.length {fs : List (Flow α)} {w u : World} {os : List (Option α)}
    (h : Straight fs w os u) : os.length = fs.length := by
  induction h with
  | nil => rfl
  | cons _ _ _ ih => simp [ih]

theorem straight_of_over {c : Clock} {x : Prop} {fs : List (Flow α)} {w : World}
    (hw : w.Still c none) (hf : ∀ f ∈ fs, ∀ v, v.Still c none → f.Over v c x) :
    ∃ os v, Straight fs w os v ∧ v.Still c none ∧ (none ∈ os → x) := by
  induction fs generalizing w with
  | nil => exact ⟨[], w, .nil w, hw, fun h => by cases h⟩
  | cons f fs ih =>
    obtain ⟨v, o, h, hv, hx⟩ := hf f List.mem_cons_self w hw
    obtain ⟨os, u, hs, hu, hxs⟩ := ih hv fun g hg => hf g (List.mem_cons_of_mem f hg)
    refine ⟨o :: os, u, .cons h hv.orphans hs, hu, fun hnone => ?_⟩
    rcases List.mem_cons.1 hnone with ho | hos
    · exact hx ho.symm
    · exact hxs hos

end Flow

namespace Machine

variable {α : Type}

/-- So many flows have come to their ends, and the others have not begun. -/
def midway (w : World) (past : List (Flow α × Option α)) (fs : List (Flow α)) : Machine Unit α where
  world := w
  desk := ()
  tasks := past.map (fun p => (Backend.taskOf p.1, .ended (.over p.2))) ++
    fs.map (Backend.taskOf ·, .idle)
  releases := []
  awake := (List.range' past.length fs.length).map .task
  alarms := []

variable {w v u : World} {past : List (Flow α × Option α)} {f : Flow α} {fs : List (Flow α)}
  {o : Option α} {os : List (Option α)}

theorem midway_finished (w : World) (past : List (Flow α × Option α)) :
    (midway w past []).finished = true := by
  simp [midway, finished, Stage.ended?]

theorem midway_not_finished (w : World) (past : List (Flow α × Option α)) (f : Flow α)
    (fs : List (Flow α)) : (midway w past (f :: fs)).finished = false := by
  simp [midway, finished, Stage.ended?]

theorem endings_midway (w : World) (past : List (Flow α × Option α)) :
    (midway w past []).endings = past.map fun p => .over p.2 := by
  simp only [midway, endings, List.map_nil, List.append_nil, List.filterMap_map]
  exact congrFun List.filterMap_eq_map past

theorem settle_still {m : Machine Unit α} (ha : m.alarms = []) (ho : m.world.orphans = [])
    (who : Who) : m.settle who [] = m := by
  obtain ⟨world, desk, tasks, releases, awake, alarms⟩ := m
  obtain ⟨clock, store, locks, signals, faults, ids, minted, tickets, journal, holders, orphans⟩ := world
  simp only at ha ho
  subst ha ho
  simp [settle, expect, ring, adopt, arrange]

theorem turn_taskOf (h : f.advance w = (v, .over o)) :
    (Backend.taskOf f).turn w () .idle = (.ended (.over o), v, ()) := by
  have hgo : (Backend.taskOf f).turn w () .idle = (Backend.taskOf f).go (.fresh f) none w () := rfl
  rw [hgo, Task.go, Activity.poll, h]
  cases o <;> rfl

theorem turn_midway (h : f.advance w = (v, .over o)) (ho : v.orphans = []) :
    ({ midway w past (f :: fs) with
      awake := (List.range' (past.length + 1) fs.length).map .task } : Machine Unit α).turn
        (.task past.length) = midway v (past ++ [(f, o)]) fs := by
  have hat : (midway w past (f :: fs)).tasks[past.length]? = some (Backend.taskOf f, .idle) := by
    simp [midway]
  have hset : (midway w past (f :: fs)).tasks.set past.length (Backend.taskOf f, .ended (.over o)) =
      (midway v (past ++ [(f, o)]) fs).tasks := by
    simp [midway]
  have hturn : (Backend.taskOf f).turn (midway w past (f :: fs)).world (midway w past (f :: fs)).desk
      .idle = (.ended (.over o), v, ()) := turn_taskOf h
  simp only [turn, hat, hturn, hset, Stage.wanted]
  rw [settle_still rfl ho]
  simp [midway]

theorem finish_of_straight (h : Flow.Straight fs w os u) {past : List (Flow α × Option α)} {n : Nat}
    (hn : fs.length < n) : (midway w past fs).finish n = midway u (past ++ fs.zip os) [] := by
  -- One round for each flow that is left, and one to see that all have ended.
  induction h generalizing past n with
  | nil w =>
    cases n with
    | zero => cases hn
    | succ n => simp [finish, midway_finished]
  | @cons f fs w v u o os h ho hs ih =>
    cases n with
    | zero => cases hn
    | succ n =>
      have hawake : (midway w past (f :: fs)).awake =
          .task past.length :: (List.range' (past.length + 1) fs.length).map .task := by
        simp [midway, List.range'_succ]
      rw [finish, midway_not_finished]
      simp only [Bool.false_eq_true, if_false, hawake]
      rw [turn_midway h ho, ih (Nat.lt_of_succ_lt_succ hn)]
      simp

theorem run_eq_of_straight (h : Flow.Straight fs w os u) :
    (Machine.idle w ()).run (fs.map Backend.taskOf) = (os.map .over, .idle u ()) := by
  have hassign : (Machine.idle w ()).assign (fs.map Backend.taskOf) = midway w [] fs := by
    simp [assign, Machine.idle, midway, List.range_eq_range', Function.comp_def]
  have hfuel : fs.length < (midway w [] fs).fuel := by
    simp [fuel, midway]
    omega
  have hdrain : ∀ n, (midway u (fs.zip os) []).drain n = midway u (fs.zip os) [] := by
    intro n
    cases n <;> rfl
  have hover : (fs.zip os).map (fun p => Ending.over p.2) = os.map .over := by
    have hzip := List.map_snd_zip (Nat.le_of_eq h.length)
    rw [← congrArg (List.map Ending.over) hzip, List.map_map]
    rfl
  unfold run
  simp only [hassign]
  rw [finish_of_straight h hfuel, List.nil_append, hdrain, endings_midway, hover]
  rfl

theorem advance_idle (w : World) (d : Span) :
    (idle w () : Machine Unit α).advance d = idle (w.setNow (w.now.after d)) () := by
  have hring : ∀ v : World, (idle v () : Machine Unit α).ring = idle v () := by
    intro v
    simp [ring, idle, arrange]
  have hpass : ∀ n t, (idle w () : Machine Unit α).pass t (n + 1) = idle (w.setNow t) () :=
    fun _ t => hring (w.setNow t)
  have hfuel : (idle w () : Machine Unit α).fuel = 999 + 1 := rfl
  unfold advance
  simp only [hfuel]
  rw [hpass]
  rfl

end Machine

namespace Backend

theorem run_memory {α : Type} {fs : List (Flow α)} {w u : World} {os : List (Option α)}
    (h : Flow.Straight fs w os u) : (memory w).run fs = (os.map .over, .memory u) := by
  simp only [run, Machine.run_eq_of_straight h]
  rfl

theorem advance_memory (w : World) (d : Span) :
    (memory w).advance d = .memory (w.setNow (w.now.after d)) := by
  simp only [advance, Machine.advance_idle]
  rfl

end Backend

end Registrar
