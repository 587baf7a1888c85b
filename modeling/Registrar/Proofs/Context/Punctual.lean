import Registrar.Backend
import Registrar.Proofs.Context.Polled
import Registrar.Proofs.Crowd.Realm
import Registrar.Proofs.Mint.Machine
import Registrar.Scenario.Bench
/-!
Deadlines in the machine. Whoever waits under a context and is not about to have its turn has alarms
set for the cancellation and the deadline, and neither has come; so time does not pass either while
someone waits for it. Main statements: every machine that arises is watchful
(`Machine.Arises.watchful`), and whoever waits under a context is interrupted in time
(`Machine.Watchful.punctual`).
-/
set_option autoImplicit false

namespace Registrar

namespace Activity

variable {α : Type}

def context? : Activity α → Option Context
  | .waiting _ _ (.under ctx) _ _ _ _ => some ctx
  | _ => none

theorem poll_waiting_timely {ticket : Nat} {lapse : Tick} {g : Guard} {c : Call} {held : Option Held}
    {k : g.Outcome c.Answer → Flow α} {p : Phase c} (w : World)
    (hk : ∀ o (v : World), ((k o).advance v).1.clock = v.clock ∧
      ∀ ctx, ((k o).advance v).2.context? = some ctx → ctx.isDue v.now = false) :
    ((Activity.waiting ticket lapse g c held k p).poll w).1.clock = w.clock ∧
      ∀ ctx, ((Activity.waiting ticket lapse g c held k p).poll w).2.context? = some ctx →
        ctx.isDue w.now = false := by
  have hclock := World.clock_attend w ticket lapse g c p
  simp only [poll]
  split
  · rename_i v o hturn
    rw [hturn] at hclock
    obtain ⟨hrest, hdue⟩ := hk o v
    have hnow : v.now = w.now := congrArg Clock.now hclock
    exact ⟨hrest.trans hclock, fun ctx h => hnow ▸ hdue ctx h⟩
  · rename_i v q hturn
    rw [hturn] at hclock
    refine ⟨hclock, fun ctx h => ?_⟩
    cases g with
    | free => cases h
    | within limit => cases h
    | under ctx' =>
      cases h
      exact (Context.attend_eq_pending.1 (congrArg Prod.snd hturn)).1.2
  · rename_i v hturn
    rw [hturn] at hclock
    exact ⟨hclock, fun ctx h => by cases h⟩

end Activity

theorem Flow.advance_timely {α : Type} (f : Flow α) (w : World) :
    (f.advance w).1.clock = w.clock ∧
      ∀ ctx, (f.advance w).2.context? = some ctx → ctx.isDue w.now = false := by
  induction f generalizing w with
  | done a => exact ⟨rfl, fun ctx h => by cases h⟩
  | crash => exact ⟨rfl, fun ctx h => by cases h⟩
  | now k ih => exact ih w.clock w
  | mint k ih => exact ih w.mint.1 w.mint.2
  | request root timeout k ih =>
    simp only [Flow.advance]
    split
    · exact ⟨rfl, fun ctx h => by cases h⟩
    · rename_i ctx signals hchild
      exact ih ctx { w with signals := signals }
  | call g c held k ih =>
    have hpoll : (Flow.call g c held k).advance w =
        (Activity.waiting w.tickets (w.lapse g) g c held k .fresh).poll
          { w with tickets := w.tickets + 1 } := by
      simp only [Flow.advance, Activity.poll]
    rw [hpoll]
    exact Activity.poll_waiting_timely { w with tickets := w.tickets + 1 } ih

namespace Activity

variable {α : Type}

theorem poll_timely (act : Activity α) (w : World) :
    (act.poll w).1.clock = w.clock ∧
      ∀ ctx, (act.poll w).2.context? = some ctx → ctx.isDue w.now = false := by
  cases act with
  | fresh f => exact f.advance_timely w
  | done a => exact ⟨rfl, fun ctx h => by cases h⟩
  | crashed => exact ⟨rfl, fun ctx h => by cases h⟩
  | waiting ticket lapse g c held k p =>
    exact poll_waiting_timely w fun o v => (k o).advance_timely v

theorem clock_drop (act : Activity α) (w : World) : (act.drop w).clock = w.clock := by
  cases act with
  | waiting ticket lapse g c held k p => exact World.clock_abandon w ticket c p
  | fresh | done | crashed => rfl

end Activity

def Stage.context? {α : Type} : Stage α → Option Context
  | .active a _ => a.context?
  | .idle | .asleep _ | .ended _ => none

namespace Task

variable {σ α : Type}

def KeepsTime (t : Task σ α) : Prop := ∀ w s, (t.begin w s).2.1.clock = w.clock

variable {t : Task σ α}

theorem go_timely (t : Task σ α) (a : Activity α) (cutoff : Option Tick) (w : World) (s : σ) :
    (t.go a cutoff w s).2.1.clock = w.clock ∧
      ∀ ctx, (t.go a cutoff w s).1.context? = some ctx → ctx.isDue w.now = false := by
  have hpoll := a.poll_timely w
  unfold Task.go
  split
  · rename_i h
    rw [h] at hpoll
    exact ⟨hpoll.1, fun ctx hctx => by cases hctx⟩
  · rename_i h
    rw [h] at hpoll
    exact ⟨hpoll.1, fun ctx hctx => by cases hctx⟩
  · rename_i v a' _ _ h
    rw [h] at hpoll
    split
    · exact ⟨(a'.clock_drop v).trans hpoll.1, fun ctx hctx => by cases hctx⟩
    · exact hpoll

theorem start_timely (ht : t.KeepsTime) (w : World) (s : σ) :
    (t.start w s).2.1.clock = w.clock ∧
      ∀ ctx, (t.start w s).1.context? = some ctx → ctx.isDue w.now = false := by
  have hbegin := ht w s
  unfold Task.start
  generalize t.begin w s = x at hbegin
  obtain ⟨f, v, s'⟩ := x
  obtain ⟨hgo, hdue⟩ := t.go_timely (.fresh f) (t.window.map v.now.after) v s'
  have hnow : v.now = w.now := congrArg Clock.now hbegin
  exact ⟨hgo.trans hbegin, fun ctx hctx => hnow ▸ hdue ctx hctx⟩

theorem turn_timely (ht : t.KeepsTime) (w : World) (s : σ) (stage : Stage α) :
    (t.turn w s stage).2.1.clock = w.clock ∧
      ∀ ctx, (t.turn w s stage).1.context? = some ctx → ctx.isDue w.now = false := by
  cases stage with
  | idle =>
    simp only [Task.turn]
    split
    · exact start_timely ht w s
    · exact ⟨rfl, fun ctx hctx => by cases hctx⟩
  | asleep due =>
    simp only [Task.turn]
    split
    · exact start_timely ht w s
    · exact ⟨rfl, fun ctx hctx => by cases hctx⟩
  | active a cutoff => exact t.go_timely a cutoff w s
  | ended e => exact ⟨rfl, fun ctx hctx => by cases hctx⟩

end Task

namespace Machine

variable {σ α : Type} {m n : Machine σ α}

/-- One step of the machine: someone has its turn; or nobody can run, and time moves on to the next
moment that something waits for, or to one before it. -/
inductive Moves : Machine σ α → Machine σ α → Prop where
  | turn {m : Machine σ α} {who : Who} {awake : List Who} (h : m.awake = who :: awake) :
      Moves m ({ m with awake := awake }.turn who)
  | ring {m : Machine σ α} {t : Tick} (h : m.awake = []) (hnext : m.next? = some t) :
      Moves m (m.moveTo (max t m.world.now))
  | pass {m : Machine σ α} {t : Tick} (h : m.awake = []) (hnext : ∀ u, m.next? = some u → t < u) :
      Moves m (m.moveTo t)

/-- The machines that can come about: from one with nothing to do, step by step, by giving it
tasks that do not move the clock, and by forgetting what is over. -/
inductive Arises : Machine σ α → Prop where
  | idle (w : World) (s : σ) : Arises (idle w s)
  | moves {m n : Machine σ α} (h : Arises m) (hn : m.Moves n) : Arises n
  | assign {m : Machine σ α} (h : Arises m) {tasks : List (Task σ α)}
      (ht : ∀ t ∈ tasks, t.KeepsTime) : Arises (m.assign tasks)
  | clear {m : Machine σ α} (h : Arises m) : Arises m.clear
  | unrecorded {m : Machine σ α} (h : Arises m) :
      Arises { m with world := { m.world with journal := [] } }

theorem Arises.finish (h : m.Arises) (fuel : Nat) : (m.finish fuel).Arises := by
  induction fuel generalizing m with
  | zero => exact h
  | succ fuel ih =>
    unfold Machine.finish
    split
    · exact h
    · split
      · rename_i who awake hawake
        exact ih (h.moves (.turn hawake))
      · rename_i hawake
        split
        · rename_i t hnext
          exact ih (h.moves (.ring hawake hnext))
        · exact h

theorem Arises.drain (h : m.Arises) (fuel : Nat) : (m.drain fuel).Arises := by
  induction fuel generalizing m with
  | zero => exact h
  | succ fuel ih =>
    unfold Machine.drain
    split
    · exact h
    · rename_i who awake hawake
      exact ih (h.moves (.turn hawake))

theorem Arises.pass (h : m.Arises) (target : Tick) (fuel : Nat) :
    (m.pass target fuel).Arises := by
  induction fuel generalizing m with
  | zero => exact h
  | succ fuel ih =>
    unfold Machine.pass
    split
    · rename_i who awake hawake
      exact ih (h.moves (.turn hawake))
    · rename_i hawake
      split
      · rename_i t hnext
        split
        · exact ih (h.moves (.ring hawake hnext))
        · rename_i hlt
          refine h.moves (.pass hawake fun u hu => ?_)
          cases hnext.symm.trans hu
          exact Nat.lt_of_not_le hlt
      · rename_i hnext
        exact h.moves (.pass hawake fun u hu => by rw [hnext] at hu; cases hu)

theorem Arises.run (h : m.Arises) {tasks : List (Task σ α)} (ht : ∀ t ∈ tasks, t.KeepsTime) :
    (m.run tasks).2.Arises :=
  (((h.assign ht).finish _).drain _).clear

theorem Arises.advance (h : m.Arises) (d : Span) : (m.advance d).Arises :=
  ((h.pass _ _).drain _).clear

/-- Whoever is not about to have its turn has an alarm set for all that it waits for. -/
def Armed (m : Machine σ α) : Prop :=
  ∀ (i : Nat) (t : Task σ α) (stage : Stage α), m.tasks[i]? = some (t, stage) →
    .task i ∈ m.awake ∨ ∀ x ∈ stage.wanted, (⟨.task i, x.1, x.2⟩ : Alarm) ∈ m.alarms

def Settled (m : Machine σ α) : Prop := ∀ a ∈ m.alarms, a.cause.met m.world = false

def Timely (m : Machine σ α) : Prop :=
  ∀ (i : Nat) (t : Task σ α) (stage : Stage α) (ctx : Context), m.tasks[i]? = some (t, stage) →
    stage.context? = some ctx → ∀ d, ctx.deadline = some d → m.world.now ≤ d

/-- What holds of a machine whatever its tasks have come to. -/
structure Watchful (m : Machine σ α) : Prop where
  keeps : ∀ p ∈ m.tasks, p.1.KeepsTime
  armed : m.Armed
  settled : m.Settled
  timely : m.Timely

theorem rouse_eq (m : Machine σ α) (who : Who) :
    (m.rouse who).alarms = m.alarms ∧ who ∈ (m.rouse who).awake ∧
      ∀ x ∈ m.awake, x ∈ (m.rouse who).awake := by
  unfold Machine.rouse
  split
  · exact ⟨rfl, ‹_›, fun x hx => hx⟩
  · exact ⟨rfl, by simp, fun x hx => List.mem_append_left _ hx⟩

theorem foldl_rouse (alarms : List Alarm) (m : Machine σ α) :
    (alarms.foldl (fun m alarm => m.rouse alarm.who) m).alarms = m.alarms ∧
      (∀ a ∈ alarms, a.who ∈ (alarms.foldl (fun m alarm => m.rouse alarm.who) m).awake) ∧
      ∀ x ∈ m.awake, x ∈ (alarms.foldl (fun m alarm => m.rouse alarm.who) m).awake := by
  induction alarms generalizing m with
  | nil => exact ⟨rfl, by simp, fun x hx => hx⟩
  | cons a alarms ih =>
    obtain ⟨halarms, hroused, hkept⟩ := ih (m.rouse a.who)
    obtain ⟨hsame, hown, hold⟩ := rouse_eq m a.who
    exact ⟨halarms.trans hsame, List.forall_mem_cons.2 ⟨hkept _ hown, hroused⟩,
      fun x hx => hkept x (hold x hx)⟩

theorem ring_alarms (m : Machine σ α) :
    m.ring.Settled ∧ (∀ x ∈ m.awake, x ∈ m.ring.awake) ∧
      ∀ a ∈ m.alarms, a ∈ m.ring.alarms ∨ a.who ∈ m.ring.awake := by
  have hworld := (ring_level m).world
  have hfold := foldl_rouse (arrange m.world (m.alarms.filter (·.cause.met m.world)))
    { m with alarms := m.alarms.filter fun a => !a.cause.met m.world }
  have hring : m.ring = (arrange m.world (m.alarms.filter (·.cause.met m.world))).foldl
      (fun m alarm => m.rouse alarm.who)
      { m with alarms := m.alarms.filter fun a => !a.cause.met m.world } := by
    simp only [Machine.ring, List.partition_eq_filter_filter]
    rfl
  rw [← hring] at hfold
  obtain ⟨halarms, hroused, hkept⟩ := hfold
  refine ⟨fun a ha => ?_, hkept, fun a ha => ?_⟩
  · rw [halarms, List.mem_filter] at ha
    rw [hworld]
    simpa using ha.2
  · cases hmet : a.cause.met m.world with
    | true =>
      refine .inr (hroused a ?_)
      simp [arrange, List.mem_mergeSort, ha, hmet]
    | false =>
      refine .inl ?_
      rw [halarms, List.mem_filter]
      exact ⟨ha, by simp [hmet]⟩

theorem ring_of_unmet (h : ∀ a ∈ m.alarms, a.cause.met m.world = false) : m.ring = m := by
  have hmet : m.alarms.filter (·.cause.met m.world) = [] :=
    List.filter_eq_nil_iff.2 fun a ha => by simp [h a ha]
  have hrest : m.alarms.filter (fun a => !a.cause.met m.world) = m.alarms :=
    List.filter_eq_self.2 fun a ha => by simp [h a ha]
  have hring : m.ring = (arrange m.world []).foldl (fun m alarm => m.rouse alarm.who) m := by
    simp only [Machine.ring, List.partition_eq_filter_filter]
    rw [hmet]
    change List.foldl _ { m with alarms := m.alarms.filter fun a => !a.cause.met m.world } _ = _
    rw [hrest]
  rw [hring, arrange, List.mergeSort_nil]
  rfl

theorem mem_expect {who : Who} {wanted : List (Option Nat × Cause)} {a : Alarm}
    (h : a ∈ m.alarms ∧ a.who ≠ who ∨ a.who = who ∧ (a.ticket, a.cause) ∈ wanted) :
    a ∈ (m.expect who wanted).alarms := by
  have hmem : ∀ {kept : List Alarm} {fresh : List Alarm}, (a ∈ kept ∨ a ∈ fresh) →
      a ∈ kept ++ fresh.filter (!kept.contains ·) := by
    intro kept fresh hor
    by_cases hk : a ∈ kept
    · exact List.mem_append_left _ hk
    · refine List.mem_append_right _ (List.mem_filter.2 ⟨hor.resolve_left hk, ?_⟩)
      simp [hk]
  refine hmem ?_
  rcases h with ⟨ha, hne⟩ | ⟨rfl, hw⟩
  · exact .inl (List.mem_filter.2 ⟨ha, by simp [hne]⟩)
  · exact .inr (List.mem_map.2 ⟨_, hw, rfl⟩)

theorem Armed.settle {who : Who} {wanted : List (Option Nat × Cause)}
    (h : ∀ (i : Nat) (t : Task σ α) (stage : Stage α), m.tasks[i]? = some (t, stage) →
      .task i ∈ m.awake ∨ (who = .task i ∧ wanted = stage.wanted) ∨
        who ≠ .task i ∧ ∀ x ∈ stage.wanted, (⟨.task i, x.1, x.2⟩ : Alarm) ∈ m.alarms) :
    (m.settle who wanted).Armed ∧ (m.settle who wanted).Settled := by
  obtain ⟨hsettled, hkept, halarm⟩ := ring_alarms (m.expect who wanted)
  refine ⟨fun i t stage hi => ?_, fun a ha => ?_⟩
  · have hi' : m.tasks[i]? = some (t, stage) := by
      have htasks : (m.settle who wanted).tasks = m.tasks :=
        (ring_level (m.expect who wanted)).tasks
      exact htasks ▸ hi
    have hadopt : ∀ x ∈ (m.expect who wanted).ring.awake, x ∈ (m.settle who wanted).awake :=
      fun x hx => List.mem_append_left _ hx
    -- An alarm that is expected is still there, or has roused the task.
    have hexpected : (∀ x ∈ stage.wanted,
        (⟨.task i, x.1, x.2⟩ : Alarm) ∈ (m.expect who wanted).alarms) →
        .task i ∈ (m.settle who wanted).awake ∨
          ∀ x ∈ stage.wanted, (⟨.task i, x.1, x.2⟩ : Alarm) ∈ (m.settle who wanted).alarms := by
      intro hall
      by_cases hawake : Who.task i ∈ (m.expect who wanted).ring.awake
      · exact .inl (hadopt _ hawake)
      · exact .inr fun x hx => (halarm _ (hall x hx)).resolve_right hawake
    rcases h i t stage hi' with hawake | ⟨rfl, rfl⟩ | ⟨hne, hall⟩
    · exact .inl (hadopt _ (hkept _ hawake))
    · exact hexpected fun x hx => mem_expect (.inr ⟨rfl, hx⟩)
    · exact hexpected fun x hx => mem_expect (.inl ⟨hall x hx, Ne.symm hne⟩)
  · have hmet := hsettled a ha
    cases hc : a.cause <;> rw [hc] at hmet <;> exact hmet

theorem now_settle (m : Machine σ α) (who : Who) (wanted : List (Option Nat × Cause)) :
    (m.settle who wanted).world.now = m.world.now := by
  have hlevel := (expect_level m who wanted).trans (ring_level (m.expect who wanted))
  have hnow : (m.expect who wanted).ring.world.now = m.world.now := congrArg World.now hlevel.world
  exact hnow

theorem watchful_settle {who : Who} {wanted : List (Option Nat × Cause)}
    (hkeeps : ∀ p ∈ m.tasks, p.1.KeepsTime)
    (harmed : ∀ (i : Nat) (t : Task σ α) (stage : Stage α), m.tasks[i]? = some (t, stage) →
      .task i ∈ m.awake ∨ (who = .task i ∧ wanted = stage.wanted) ∨
        who ≠ .task i ∧ ∀ x ∈ stage.wanted, (⟨.task i, x.1, x.2⟩ : Alarm) ∈ m.alarms)
    (htimely : m.Timely) : (m.settle who wanted).Watchful := by
  have hlevel := (expect_level m who wanted).trans (ring_level (m.expect who wanted))
  have htasks : (m.settle who wanted).tasks = m.tasks := hlevel.tasks
  refine ⟨htasks ▸ hkeeps, (Armed.settle harmed).1, (Armed.settle harmed).2, ?_⟩
  intro i t stage ctx hi hctx d hd
  rw [now_settle]
  exact htimely i t stage ctx (htasks ▸ hi) hctx d hd

namespace Watchful

theorem others (h : m.Watchful) {who : Who} {awake : List Who} (hawake : m.awake = who :: awake)
    {i : Nat} {t : Task σ α} {stage : Stage α} (hi : m.tasks[i]? = some (t, stage))
    (hne : who ≠ .task i) :
    .task i ∈ awake ∨ ∀ x ∈ stage.wanted, (⟨.task i, x.1, x.2⟩ : Alarm) ∈ m.alarms := by
  rcases h.armed i t stage hi with hw | hall
  · rw [hawake] at hw
    exact .inl ((List.mem_cons.1 hw).resolve_left (Ne.symm hne))
  · exact .inr hall

theorem turn_task (h : m.Watchful) {i : Nat} {awake : List Who}
    (hawake : m.awake = .task i :: awake) :
    ({ m with awake := awake }.turn (.task i)).Watchful := by
  have hne : ∀ {j : Nat}, j ≠ i → Who.task i ≠ .task j := fun hji he => hji (Who.task.inj he).symm
  simp only [Machine.turn]
  split
  · rename_i hi
    refine ⟨h.keeps, fun j t stage hj => ?_, h.settled, h.timely⟩
    exact h.others hawake hj (hne fun he => by rw [he, hi] at hj; cases hj)
  · rename_i t stage hi
    have hkeeps : t.KeepsTime := h.keeps (t, stage) (List.mem_of_getElem? hi)
    have hturn := t.turn_timely hkeeps m.world m.desk stage
    generalize t.turn m.world m.desk stage = x at hturn
    obtain ⟨stage', w, s⟩ := x
    obtain ⟨hclock, hdue⟩ := hturn
    have hnow : w.now = m.world.now := congrArg Clock.now hclock
    have hlt : i < m.tasks.length := (List.getElem?_eq_some_iff.1 hi).1
    have htasks : ∀ {j : Nat} {p : Task σ α × Stage α},
        (m.tasks.set i (t, stage'))[j]? = some p →
          j = i ∧ p = (t, stage') ∨ j ≠ i ∧ m.tasks[j]? = some p := by
      intro j p hj
      by_cases hji : j = i
      · subst hji
        rw [List.getElem?_set_self hlt] at hj
        exact .inl ⟨rfl, (Option.some.inj hj).symm⟩
      · rw [List.getElem?_set_ne (Ne.symm hji)] at hj
        exact .inr ⟨hji, hj⟩
    refine watchful_settle (fun p hp => ?_) (fun j u st hj => ?_) fun j u st ctx hj hctx d hd => ?_
    · rcases List.mem_or_eq_of_mem_set hp with hp | rfl
      · exact h.keeps p hp
      · exact hkeeps
    · rcases htasks hj with ⟨rfl, hp⟩ | ⟨hji, hj⟩
      · cases hp
        exact .inr (.inl ⟨rfl, rfl⟩)
      · exact (h.others hawake hj (hne hji)).imp id fun hall => .inr ⟨hne hji, hall⟩
    · change w.now ≤ d
      rw [hnow]
      rcases htasks hj with ⟨-, hp⟩ | ⟨-, hj⟩
      · cases hp
        have hnot := hdue ctx hctx
        simp only [Context.isDue, hd, Option.any_some, decide_eq_false_iff_not] at hnot
        exact Nat.le_of_not_le hnot
      · exact h.timely j u st ctx hj hctx d hd

theorem turn_release (h : m.Watchful) {i : Nat} {awake : List Who}
    (hawake : m.awake = .release i :: awake) :
    ({ m with awake := awake }.turn (.release i)).Watchful := by
  simp only [Machine.turn]
  split
  · exact ⟨h.keeps, fun j t stage hj => h.others hawake hj (by simp), h.settled, h.timely⟩
  · rename_i a hi
    have hclock := (a.poll_timely m.world).1
    generalize a.poll m.world = x at hclock
    obtain ⟨w, a'⟩ := x
    have hnow : w.now = m.world.now := congrArg Clock.now hclock
    refine watchful_settle h.keeps (fun j t stage hj => ?_) fun j u st ctx hj hctx d hd => ?_
    · exact (h.others hawake hj (by simp)).imp id fun hall => .inr ⟨by simp, hall⟩
    · change w.now ≤ d
      exact hnow ▸ h.timely j u st ctx hj hctx d hd

theorem moveTo (h : m.Watchful) (hawake : m.awake = []) {t : Tick}
    (ht : ∀ (i : Nat) (u : Task σ α) (stage : Stage α) (ctx : Context),
      m.tasks[i]? = some (u, stage) → stage.context? = some ctx →
        ∀ d, ctx.deadline = some d → t ≤ d) : (m.moveTo t).Watchful := by
  have hlevel := ring_level { m with world := m.world.setNow t }
  have htasks : (m.moveTo t).tasks = m.tasks := hlevel.tasks
  obtain ⟨hsettled, -, halarm⟩ := ring_alarms { m with world := m.world.setNow t }
  have hworld : (m.moveTo t).world = m.world.setNow t := hlevel.world
  have hnow : (m.moveTo t).world.now = t := congrArg World.now hworld
  refine ⟨htasks ▸ h.keeps, fun i u stage hi => ?_, hsettled, fun i u stage ctx hi hctx d hd => ?_⟩
  · rcases h.armed i u stage (htasks ▸ hi) with hw | hall
    · rw [hawake] at hw
      cases hw
    · by_cases hw : Who.task i ∈ (m.moveTo t).awake
      · exact .inl hw
      · exact .inr fun x hx => (halarm _ (hall x hx)).resolve_right hw
  · rw [hnow]
    exact ht i u stage ctx (htasks ▸ hi) hctx d hd

theorem mem_wanted {stage : Stage α} {ctx : Context} (h : stage.context? = some ctx) :
    ∃ ticket, (ticket, Cause.cancelled ctx) ∈ stage.wanted ∧
      ∀ d, ctx.deadline = some d → (ticket, Cause.due d) ∈ stage.wanted := by
  cases stage with
  | idle | asleep | ended => cases h
  | active a cutoff =>
    cases a with
    | fresh | done | crashed => cases h
    | waiting ticket lapse g c held k p =>
      cases g with
      | free | within => cases h
      | under ctx' =>
        cases h
        refine ⟨some ticket, ?_, fun d hd => ?_⟩
        · simp [Stage.wanted, Activity.causes, Activity.guardCauses, Activity.ticket?]
        · simp [Stage.wanted, Activity.causes, Activity.guardCauses, Activity.ticket?, hd]

theorem mem_dues {alarms : List Alarm} {who : Who} {ticket : Option Nat} {d : Tick}
    (h : (⟨who, ticket, .due d⟩ : Alarm) ∈ alarms) : d ∈ dues alarms := by
  fun_induction dues alarms with
  | case1 => cases h
  | case2 _ _ t rest ih =>
    rcases List.mem_cons.1 h with he | h
    · cases he
      exact List.mem_cons_self
    · exact List.mem_cons_of_mem _ (ih h)
  | case3 a rest hne ih =>
    rcases List.mem_cons.1 h with rfl | h
    · exact absurd rfl (hne _ _ _)
    · exact ih h

theorem next_le (h : m.Watchful) (hawake : m.awake = []) {i : Nat} {t : Task σ α} {stage : Stage α}
    {ctx : Context} (hi : m.tasks[i]? = some (t, stage)) (hctx : stage.context? = some ctx)
    {d : Tick} (hd : ctx.deadline = some d) : ∃ u, m.next? = some u ∧ u ≤ d := by
  obtain ⟨ticket, -, hwanted⟩ := mem_wanted hctx
  have hmem : d ∈ dues m.alarms := by
    rcases h.armed i t stage hi with hw | hall
    · rw [hawake] at hw
      cases hw
    · exact mem_dues (hall _ (hwanted d hd))
  cases hmin : (dues m.alarms).min? with
  | none => simp [List.min?_eq_none_iff.1 hmin] at hmem
  | some u => exact ⟨u, hmin, (List.min?_eq_some_iff.1 hmin).2 d hmem⟩

theorem move (h : m.Watchful) (hm : m.Moves n) : n.Watchful := by
  cases hm with
  | @turn who awake hawake =>
    cases who with
    | task i => exact h.turn_task hawake
    | release i => exact h.turn_release hawake
  | ring hawake hnext =>
    refine h.moveTo hawake fun i t stage ctx hi hctx d hd => ?_
    obtain ⟨u, hu, hle⟩ := h.next_le hawake hi hctx hd
    cases hnext.symm.trans hu
    exact Nat.max_le.2 ⟨hle, h.timely i t stage ctx hi hctx d hd⟩
  | pass hawake hnext =>
    refine h.moveTo hawake fun i t stage ctx hi hctx d hd => ?_
    obtain ⟨u, hu, hle⟩ := h.next_le hawake hi hctx hd
    exact Nat.le_trans (Nat.le_of_lt (hnext u hu)) hle

/-- A task that waits under a context has its turn before it can miss a cancellation or the
deadline. -/
theorem alert (h : m.Watchful) {i : Nat} {t : Task σ α} {stage : Stage α} {ctx : Context}
    (hi : m.tasks[i]? = some (t, stage)) (hctx : stage.context? = some ctx) :
    ctx.Clear m.world ∨ .task i ∈ m.awake := by
  refine (h.armed i t stage hi).symm.imp (fun hall => ?_) id
  obtain ⟨ticket, hcancelled, hdue⟩ := mem_wanted hctx
  refine ⟨h.settled _ (hall _ hcancelled), ?_⟩
  cases hd : ctx.deadline with
  | none => simp [Context.isDue, hd]
  | some d =>
    have hunmet := h.settled _ (hall _ (hdue d hd))
    simpa [Context.isDue, hd, Cause.met] using hunmet

end Watchful

/-- A task waits under a context, for the work on a call that has come so far. -/
def Awaits (m : Machine σ α) (i : Nat) (ticket : Nat) (ctx : Context) (c : Call) (p : Phase c) :
    Prop :=
  ∃ (t : Task σ α) (cutoff : Option Tick) (lapse : Tick) (held : Option Held)
    (k : (Guard.under ctx).Outcome c.Answer → Flow α),
    m.tasks[i]? = some (t, .active (.waiting ticket lapse (.under ctx) c held k p) cutoff)

/-- How a task stands that waits under a context. -/
structure Punctual (m : Machine σ α) (i : Nat) (ticket : Nat) (ctx : Context) (c : Call)
    (p : Phase c) : Prop where
  /-- The deadline has not passed. -/
  in_time : ∀ d, ctx.deadline = some d → m.world.now ≤ d
  /-- It has its turn at once when there is something to be seen. -/
  alert : ctx.Clear m.world ∨ .task i ∈ m.awake
  /-- Time stands still until then. -/
  still : ∀ n, m.Moves n → n.world.now ≠ m.world.now → m.awake = []
  /-- The deadline is exceeded at the very moment. -/
  prompt : ((ctx.run (c.toWork ticket)).poll m.world p).2 = .ready (.error .deadlineExceeded) →
    ctx.deadline = some m.world.now

theorem Watchful.still (h : m.Watchful) (hm : m.Moves n) (hne : n.world.now ≠ m.world.now) :
    m.awake = [] := by
  cases hm with
  | ring hawake | pass hawake => exact hawake
  | @turn who awake hawake =>
    refine absurd ?_ hne
    cases who with
    | task i =>
      simp only [Machine.turn]
      split
      · rfl
      · rename_i t stage hi
        have hkeeps : t.KeepsTime := h.keeps (t, stage) (List.mem_of_getElem? hi)
        exact (now_settle _ _ _).trans
          (congrArg Clock.now (t.turn_timely hkeeps m.world m.desk stage).1)
    | release i =>
      simp only [Machine.turn]
      split
      · rfl
      · rename_i a hi
        exact (now_settle _ _ _).trans (congrArg Clock.now (a.poll_timely m.world).1)

theorem Watchful.punctual (h : m.Watchful) {i ticket : Nat} {ctx : Context} {c : Call} {p : Phase c}
    (hi : m.Awaits i ticket ctx c p) : m.Punctual i ticket ctx c p := by
  obtain ⟨t, cutoff, lapse, held, k, hi⟩ := hi
  refine ⟨h.timely i t _ ctx hi rfl, h.alert hi rfl, fun n hn hne => h.still hn hne, fun hpoll => ?_⟩
  obtain ⟨-, -, hinterrupted⟩ :=
    Context.concludes_error.1 ⟨p, .nil p, hpoll⟩
  obtain ⟨-, hdue⟩ := Context.interruption?_eq_deadlineExceeded.1 hinterrupted
  cases hd : ctx.deadline with
  | none => simp [Context.isDue, hd] at hdue
  | some d =>
    have hle : d ≤ m.world.now := by simpa [Context.isDue, hd] using hdue
    exact congrArg some (Nat.le_antisymm hle (h.timely i t _ ctx hi rfl d hd))

theorem Arises.watchful (h : m.Arises) : m.Watchful := by
  induction h with
  | idle w s => exact ⟨fun p hp => (by cases hp), fun i t stage hi => (by cases hi),
      fun a ha => (by cases ha), fun i t stage ctx hi => by cases hi⟩
  | moves _ hn ih => exact ih.move hn
  | @assign m _ tasks ht ih =>
    have hidle : ∀ {i : Nat} {t : Task σ α} {stage : Stage α},
        (m.assign tasks).tasks[i]? = some (t, stage) → stage = .idle := by
      intro i t stage hi
      simp only [Machine.assign, List.getElem?_map, Option.map_eq_some_iff] at hi
      obtain ⟨_, -, hi⟩ := hi
      cases hi
      rfl
    refine ⟨fun p hp => ?_, fun i t stage hi => ?_, ih.settled, fun i t stage ctx hi hctx => ?_⟩
    · obtain ⟨t, hmem, rfl⟩ := List.mem_map.1 hp
      exact ht t hmem
    · rw [hidle hi]
      exact .inr fun x hx => by cases hx
    · rw [hidle hi] at hctx
      cases hctx
  | clear _ ih => exact ⟨fun p hp => (by cases hp), fun i t stage hi => (by cases hi), ih.settled,
      fun i t stage ctx hi => by cases hi⟩
  | unrecorded _ ih =>
    refine ⟨ih.keeps, ih.armed, fun a ha => ?_, ih.timely⟩
    have hmet := ih.settled a ha
    cases hc : a.cause <;> rw [hc] at hmet <;> exact hmet

end Machine

theorem Backend.keepsTime_taskOf {α : Type} (f : Flow α) : (Backend.taskOf f).KeepsTime :=
  fun _ _ => rfl

namespace Scenario

theorem clock_forsake (w : World) (f : Flow (Except AllocError Identifier)) :
    (forsake w f).2.clock = w.clock := by
  have hadvance := (f.advance_timely w).1
  unfold forsake
  split
  · rename_i h
    rw [h] at hadvance
    exact hadvance
  · rename_i h
    rw [h] at hadvance
    exact hadvance
  · rename_i h
    rw [h] at hadvance
    exact hadvance
  · rename_i v a _ _ _ h
    rw [h] at hadvance
    refine Eq.trans ?_ hadvance
    cases a with
    | waiting ticket lapse g c held k p => exact World.clock_abandon v ticket c p
    | fresh | done | crashed => rfl

theorem clock_begin (i : Instruction) (w : World) (d : Desk) :
    (i.begin w d).2.1.clock = w.clock := by
  unfold Instruction.begin
  cases i.action with
  | store c =>
    simp only
    split <;> rfl
  | context id opening =>
    simp only
    split <;> rfl
  | allocateForsaken day => exact clock_forsake w _
  | _ => rfl

theorem Step.keepsTime_task (s : Step) : s.task.KeepsTime := fun w d =>
  clock_begin (s.deed (Saved.fill d.saved)) w d

namespace Bench

/-- The bench once these items have been played. -/
def after (m : Bench) : List Item → Bench
  | [] => m
  | item :: rest => after ((m.play item).2.report (m.play item).1).2 rest

theorem arises_play {m : Bench} (h : Machine.Arises m) (item : Item) :
    Machine.Arises (m.play item).2 := by
  have hwait : ∀ wait : Span, Machine.Arises (if wait = 0 then m else m.advance wait) := by
    intro wait
    split
    · exact h
    · exact h.advance wait
  cases item with
  | alone s =>
    have hrun := h.run (List.forall_mem_singleton.2 s.keepsTime_task)
    simp only [play]
    split
    all_goals
      rename_i hm
      rw [hm] at hrun
      exact hrun
  | together wait steps =>
    exact (hwait wait).run (List.forall_mem_map.2 fun s _ => s.keepsTime_task)
  | advance wait length => exact (hwait wait).advance length

theorem arises_after {m : Bench} (h : Machine.Arises m) (items : List Item) :
    Machine.Arises (m.after items) := by
  induction items generalizing m with
  | nil => exact h
  | cons item rest ih => exact ih (.unrecorded (arises_play h item))

end Bench

end Scenario

end Registrar
