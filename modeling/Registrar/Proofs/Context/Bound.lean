import Registrar.Proofs.Context.Family
import Registrar.Proofs.Context.Punctual
/-!
What a context means for the work that runs under it, and where it has its bound from. Main
statement: `Context.bounds_work`.
-/
set_option autoImplicit false

namespace Registrar

namespace Context

variable {σ α : Type}

/-- What work comes to under a context, polled in any worlds one after another; its answer, a
cancellation and the deadline may all be there at one poll. -/
structure Bounds (ctx : Context) (f : Work σ α) (s : σ) : Prop where
  /-- The work is not polled. -/
  cancelled_first : ∀ w, ctx.isCancelled w.signals = true →
    (ctx.run f).poll w s = (f.drop w s, .ready (.error .cancelled))
  /-- The work is not polled. -/
  due_first : ∀ w, ctx.isCancelled w.signals = false → ctx.isDue w.now = true →
    (ctx.run f).poll w s = (f.drop w s, .ready (.error .deadlineExceeded))
  answered : ∀ ws w a, (ctx.run f).Completes s ws w (.ok a) ↔
    f.Completes s ws w a ∧
      ∀ u ∈ ws ++ [w], ctx.isCancelled u.signals = false ∧ ∀ d, ctx.deadline = some d → u.now < d
  cancelled : ∀ ws w, (ctx.run f).Completes s ws w (.error .cancelled) ↔
    (∃ t, f.Waits s ws t) ∧
      (∀ u ∈ ws, ctx.isCancelled u.signals = false ∧ ∀ d, ctx.deadline = some d → u.now < d) ∧
      ctx.isCancelled w.signals = true
  deadlineExceeded : ∀ ws w, (ctx.run f).Completes s ws w (.error .deadlineExceeded) ↔
    (∃ t, f.Waits s ws t) ∧
      (∀ u ∈ ws ++ [w], ctx.isCancelled u.signals = false) ∧
      (∀ u ∈ ws, ∀ d, ctx.deadline = some d → u.now < d) ∧
      ∃ d, ctx.deadline = some d ∧ d ≤ w.now

theorem isDue_eq_false {ctx : Context} {t : Tick} :
    ctx.isDue t = false ↔ ∀ d, ctx.deadline = some d → t < d := by
  cases hd : ctx.deadline <;> simp [isDue, hd]

theorem isDue_eq_true {ctx : Context} {t : Tick} :
    ctx.isDue t = true ↔ ∃ d, ctx.deadline = some d ∧ d ≤ t := by
  cases hd : ctx.deadline <;> simp [isDue, hd]

theorem clear_iff {ctx : Context} {w : World} :
    ctx.Clear w ↔
      ctx.isCancelled w.signals = false ∧ ∀ d, ctx.deadline = some d → w.now < d := by
  rw [Clear, isDue_eq_false]

theorem bounds (ctx : Context) (f : Work σ α) (s : σ) : ctx.Bounds f s where
  cancelled_first w h := poll_interrupted (interruption?_eq_cancelled.2 h)
  due_first w h hdue := poll_interrupted (interruption?_eq_deadlineExceeded.2 ⟨h, hdue⟩)
  answered ws w a := by simp only [concludes_ok, clear_iff]
  cancelled ws w := by simp only [concludes_error, clear_iff, interruption?_eq_cancelled]
  deadlineExceeded ws w := by
    simp only [concludes_error, clear_iff, interruption?_eq_deadlineExceeded, isDue_eq_true,
      List.forall_mem_append, List.forall_mem_singleton, forall_and]
    constructor
    · rintro ⟨hwaits, ⟨hsilent, hearly⟩, hlast, hdue⟩
      exact ⟨hwaits, ⟨hsilent, hlast⟩, hearly, hdue⟩
    · rintro ⟨hwaits, ⟨hsilent, hlast⟩, hearly, hdue⟩
      exact ⟨hwaits, ⟨hsilent, hearly⟩, hlast, hdue⟩

/-- A context is bound by its line of descent, and binds whatever runs under it: any work, in any
worlds; a call, which has left no trace if it was never begun; and a task of a machine, which sees
a cancellation or the deadline at the moment when it is there. -/
theorem bounds_work :
    (∀ history : List (Tick × Family.Step),
      (Family.after history).contexts.length = (Family.births history).length ∧
        ∀ i c, (Family.after history).contexts[i]? = some c → Family.Lineal history i c) ∧
    (∀ (σ α : Type) (ctx : Context) (f : Work σ α) (s : σ), ctx.Bounds f s) ∧
    (∀ (ctx : Context) (c : Call) (ticket : Nat) (w : World),
      (c.toWork ticket).drop w .fresh = w ∧ ∀ (lapse : Tick) (p : Phase c),
        w.attend ticket lapse (.under ctx) c p =
          (((ctx.run (c.toWork ticket)).poll w p).1,
            .ofPoll ((ctx.run (c.toWork ticket)).poll w p).2)) ∧
    (∀ (σ α : Type) (m : Machine σ α), m.Arises → ∀ (i ticket : Nat) (ctx : Context) (c : Call)
      (p : Phase c), m.Awaits i ticket ctx c p → m.Punctual i ticket ctx c p) ∧
    ∀ (clock : Clock) (patience : Option Span) (ids : Nat → String)
      (allocators : Table String Allocator) (terms : Terms) (items : List Scenario.Item),
      Machine.Arises ((Scenario.Bench.start clock patience ids allocators terms).after items) := by
  refine ⟨fun history => ⟨(Family.recorded_after history).length,
    fun i c hc => Family.lineal history hc⟩,
    fun σ α ctx f s => ctx.bounds f s, fun ctx c ticket w => ⟨?_, fun lapse p => attend_under⟩,
    fun σ α m hm i ticket ctx c p hawaits => hm.watchful.punctual hawaits,
    fun clock patience ids allocators terms items => Scenario.Bench.arises_after (.idle _ _) items⟩
  cases c <;> rfl

/-- A root, its child, a child of that one and a sibling; then the child is cancelled. -/
def kindred : List (Tick × Family.Step) :=
  [(7, .cancel 1), (6, .child 0 50), (6, .child 1 100), (5, .child 0 10), (0, .background)]

/-- One task that is to wait for ever, but for its context, which is due at 5. -/
def vigil : Machine Unit (Except Interrupted Unit) :=
  (Machine.idle (World.start ⟨0, .utc, 0⟩ none fun _ => "") ()).assign
    [Backend.taskOf (.call (.under ⟨[0], some 5⟩) (.pause none) none .done)]

def vigilBegun : Machine Unit (Except Interrupted Unit) :=
  { vigil with awake := [] }.turn (.task 0)

def vigilOver : Machine Unit (Except Interrupted Unit) := vigilBegun.moveTo 5

theorem vigilBegun_eq : vigilBegun =
    { vigil with
      world := { vigil.world with tickets := 1 }
      tasks := [(Backend.taskOf (.call (.under ⟨[0], some 5⟩) (.pause none) none .done),
        .active (.waiting 0 0 (.under ⟨[0], some 5⟩) (.pause none) none .done .stalled) none)]
      awake := []
      alarms := [⟨.task 0, some 0, .cancelled ⟨[0], some 5⟩⟩, ⟨.task 0, some 0, .due 5⟩] } :=
  congrArg Machine.adopt (Machine.ring_of_unmet (by decide))

theorem arises_vigilOver : vigilOver.Arises := by
  have hvigil : vigil.Arises :=
    .assign (.idle _ _) (List.forall_mem_singleton.2 (Backend.keepsTime_taskOf _))
  have hbegun : vigilBegun.Arises := hvigil.moves (@Machine.Moves.turn _ _ vigil (.task 0) [] rfl)
  have hover : vigilOver = vigilBegun.moveTo (max 5 vigilBegun.world.now) := by
    rw [vigilBegun_eq]
    exact congrArg (·.moveTo 5) vigilBegun_eq
  rw [hover]
  exact hbegun.moves (.ring (by rw [vigilBegun_eq]) (by rw [vigilBegun_eq]; rfl))

theorem awaits_vigilOver : vigilOver.Awaits 0 0 ⟨[0], some 5⟩ (.pause none) .stalled := by
  have htasks : vigilOver.tasks = vigilBegun.tasks :=
    (Machine.ring_level { vigilBegun with world := vigilBegun.world.setNow 5 }).tasks
  rw [vigilBegun_eq] at htasks
  exact ⟨_, _, _, _, _, congrArg (·[0]?) htasks⟩

/-- At its deadline the task is interrupted; the grandchild in `kindred` is due when its parent is,
and cancelled with it. -/
theorem bounds_work_kindred :
    (Family.after kindred).contexts[2]? = some ⟨[2, 1, 0], some 15⟩ ∧
      Family.Lineal kindred 2 ⟨[2, 1, 0], some 15⟩ ∧ vigilOver.Arises ∧
      vigilOver.Awaits 0 0 ⟨[0], some 5⟩ (.pause none) .stalled ∧
      vigilOver.Punctual 0 0 ⟨[0], some 5⟩ (.pause none) .stalled := by
  have hkindred : (Family.after kindred).contexts[2]? = some ⟨[2, 1, 0], some 15⟩ := by decide
  exact ⟨hkindred, (bounds_work.1 kindred).2 2 _ hkindred, arises_vigilOver, awaits_vigilOver,
    bounds_work.2.2.2.1 _ _ _ arises_vigilOver 0 0 _ _ _ awaits_vigilOver⟩

end Context

end Registrar
