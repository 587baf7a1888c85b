import Registrar.World
set_option autoImplicit false

namespace Registrar

/-- What a poll finds; what is left of the work is to be polled again. -/
inductive Poll (σ α : Type) where
  | ready (a : α)
  | pending (s : σ)
  | crashed

/-- Work of any kind: what a poll does to the world and finds, and what it does to give the work
up. -/
structure Work (σ α : Type) where
  poll : World → σ → World × Poll σ α
  drop : World → σ → World

namespace Work

variable {σ α : Type}

/-- Polled in these worlds, the work is not done: what is left of it. -/
inductive Waits (f : Work σ α) : σ → List World → σ → Prop where
  | nil (s : σ) : Waits f s [] s
  | cons {s t u : σ} {w : World} {ws : List World} (h : (f.poll w s).2 = .pending t)
      (hs : Waits f t ws u) : Waits f s (w :: ws) u

/-- Polled in these worlds, the work is not done in the first ones and done in the last, with this
answer. -/
def Completes (f : Work σ α) (s : σ) (ws : List World) (w : World) (a : α) : Prop :=
  ∃ t, f.Waits s ws t ∧ (f.poll w t).2 = .ready a

end Work

namespace Context

variable {σ α : Type}

/-- The work under a context. Where it is interrupted, it is not polled, but given up. -/
def run (ctx : Context) (f : Work σ α) : Work σ (Except Interrupted α) where
  poll w s :=
    match ctx.interruption? w.signals w.now with
    | some i => (f.drop w s, .ready (.error i))
    | none =>
      match f.poll w s with
      | (v, .ready a) => (v, .ready (.ok a))
      | (v, .pending t) => (v, .pending t)
      | (v, .crashed) => (v, .crashed)
  drop := f.drop

def Clear (ctx : Context) (w : World) : Prop :=
  ctx.isCancelled w.signals = false ∧ ctx.isDue w.now = false

variable {ctx : Context} {f : Work σ α} {w : World} {ws : List World} {s t : σ}

theorem interruption?_eq_none_iff_clear :
    ctx.interruption? w.signals w.now = none ↔ ctx.Clear w := by
  unfold interruption? Clear
  cases ctx.isCancelled w.signals <;> cases ctx.isDue w.now <;> simp

theorem interruption?_eq_cancelled :
    ctx.interruption? w.signals w.now = some .cancelled ↔ ctx.isCancelled w.signals = true := by
  unfold interruption?
  cases ctx.isCancelled w.signals <;> cases ctx.isDue w.now <;> simp

theorem interruption?_eq_deadlineExceeded :
    ctx.interruption? w.signals w.now = some .deadlineExceeded ↔
      ctx.isCancelled w.signals = false ∧ ctx.isDue w.now = true := by
  unfold interruption?
  cases ctx.isCancelled w.signals <;> cases ctx.isDue w.now <;> simp

theorem poll_interrupted {i : Interrupted} (h : ctx.interruption? w.signals w.now = some i) :
    (ctx.run f).poll w s = (f.drop w s, .ready (.error i)) := by simp [run, h]

theorem poll_clear (h : ctx.Clear w) :
    (ctx.run f).poll w s =
      ((f.poll w s).1,
        match (f.poll w s).2 with
        | .ready a => .ready (.ok a)
        | .pending t => .pending t
        | .crashed => .crashed) := by
  simp only [run, interruption?_eq_none_iff_clear.2 h]
  generalize f.poll w s = x
  obtain ⟨v, found⟩ := x
  cases found <;> rfl

theorem not_clear {i : Interrupted} (h : ctx.interruption? w.signals w.now = some i) :
    ¬ ctx.Clear w := fun hclear => by
  rw [interruption?_eq_none_iff_clear.2 hclear] at h
  cases h

theorem poll_eq_pending :
    ((ctx.run f).poll w s).2 = .pending t ↔ ctx.Clear w ∧ (f.poll w s).2 = .pending t := by
  cases hi : ctx.interruption? w.signals w.now with
  | some i => simp [poll_interrupted hi, not_clear hi]
  | none =>
    have hclear := interruption?_eq_none_iff_clear.1 hi
    rw [poll_clear hclear]
    cases (f.poll w s).2 <;> simp [hclear]

theorem poll_eq_ready {o : Except Interrupted α} :
    ((ctx.run f).poll w s).2 = .ready o ↔
      (∃ i, ctx.interruption? w.signals w.now = some i ∧ o = .error i) ∨
        ctx.Clear w ∧ ∃ a, (f.poll w s).2 = .ready a ∧ o = .ok a := by
  cases hi : ctx.interruption? w.signals w.now with
  | some i =>
    rw [poll_interrupted hi]
    simp [not_clear hi, eq_comm]
  | none =>
    have hclear := interruption?_eq_none_iff_clear.1 hi
    rw [poll_clear hclear]
    cases (f.poll w s).2 <;> simp [hclear, eq_comm]

theorem waits_run : (ctx.run f).Waits s ws t ↔ f.Waits s ws t ∧ ∀ w ∈ ws, ctx.Clear w := by
  induction ws generalizing s with
  | nil =>
    constructor
    · rintro ⟨⟩
      exact ⟨.nil t, by simp⟩
    · rintro ⟨⟨⟩, -⟩
      exact .nil t
  | cons w ws ih =>
    constructor
    · rintro ⟨⟩
      rename_i u h hs
      obtain ⟨hclear, hpoll⟩ := poll_eq_pending.1 h
      obtain ⟨hwaits, hall⟩ := ih.1 hs
      exact ⟨.cons hpoll hwaits, List.forall_mem_cons.2 ⟨hclear, hall⟩⟩
    · rintro ⟨⟨⟩, hall⟩
      rename_i u h hs
      obtain ⟨hclear, hall⟩ := List.forall_mem_cons.1 hall
      exact .cons (poll_eq_pending.2 ⟨hclear, h⟩) (ih.2 ⟨hs, hall⟩)

theorem completes_run {o : Except Interrupted α} :
    (ctx.run f).Completes s ws w o ↔ (∀ u ∈ ws, ctx.Clear u) ∧
      ((∃ i, ctx.interruption? w.signals w.now = some i ∧ o = .error i ∧ ∃ t, f.Waits s ws t) ∨
        ctx.Clear w ∧ ∃ a, f.Completes s ws w a ∧ o = .ok a) := by
  simp only [Work.Completes, waits_run, poll_eq_ready]
  constructor
  · rintro ⟨t, ⟨hwaits, hall⟩, ⟨i, hi, ho⟩ | ⟨hclear, a, ha, ho⟩⟩
    · exact ⟨hall, .inl ⟨i, hi, ho, t, hwaits⟩⟩
    · exact ⟨hall, .inr ⟨hclear, a, ⟨t, hwaits, ha⟩, ho⟩⟩
  · rintro ⟨hall, ⟨i, hi, ho, t, hwaits⟩ | ⟨hclear, a, ⟨t, hwaits, ha⟩, ho⟩⟩
    · exact ⟨t, ⟨hwaits, hall⟩, .inl ⟨i, hi, ho⟩⟩
    · exact ⟨t, ⟨hwaits, hall⟩, .inr ⟨hclear, a, ha, ho⟩⟩

/-- An answer comes through if the work completes before the deadline and before a cancellation is
seen. -/
theorem concludes_ok {a : α} :
    (ctx.run f).Completes s ws w (.ok a) ↔
      f.Completes s ws w a ∧ ∀ u ∈ ws ++ [w], ctx.Clear u := by
  simp only [completes_run, List.forall_mem_append, List.forall_mem_singleton]
  constructor
  · rintro ⟨hall, ⟨i, -, ho, -⟩ | ⟨hclear, b, hb, ho⟩⟩
    · cases ho
    · cases ho
      exact ⟨hb, hall, hclear⟩
  · rintro ⟨ha, hall, hclear⟩
    exact ⟨hall, .inr ⟨hclear, a, ha, rfl⟩⟩

theorem concludes_error {i : Interrupted} :
    (ctx.run f).Completes s ws w (.error i) ↔
      (∃ t, f.Waits s ws t) ∧ (∀ u ∈ ws, ctx.Clear u) ∧
        ctx.interruption? w.signals w.now = some i := by
  rw [completes_run]
  constructor
  · rintro ⟨hall, ⟨j, hj, ho, hwaits⟩ | ⟨-, b, -, ho⟩⟩
    · cases ho
      exact ⟨hwaits, hall, hj⟩
    · cases ho
  · rintro ⟨hwaits, hall, hi⟩
    exact ⟨hall, .inl ⟨i, hi, rfl, hwaits⟩⟩

end Context

def Call.toWork (c : Call) (ticket : Nat) : Work (Phase c) c.Answer where
  poll w p :=
    match w.work ticket c p with
    | (v, .answered a) => (v, .ready a)
    | (v, .pending q) => (v, .pending q)
    | (v, .crashed) => (v, .crashed)
  drop w p := w.abandon ticket c p

/-- A run of the work on a call, as the one who made the call sees it. -/
def Turn.ofPoll {ctx : Context} {c : Call} :
    Poll (Phase c) (Except Interrupted c.Answer) → Turn (.under ctx) c
  | .ready o => .concluded o
  | .pending p => .pending p
  | .crashed => .crashed

namespace Context

variable {ctx : Context} {ticket : Nat} {lapse : Tick} {c : Call} {w : World} {p q : Phase c}

theorem attend_under :
    w.attend ticket lapse (.under ctx) c p =
      (((ctx.run (c.toWork ticket)).poll w p).1,
        .ofPoll ((ctx.run (c.toWork ticket)).poll w p).2) := by
  cases hi : ctx.interruption? w.signals w.now with
  | some i =>
    have hbefore : (w.before (.under ctx) : Option ((Guard.under ctx).Outcome c.Answer)) =
        some (.error i) := congrArg (Option.map Except.error) hi
    rw [poll_interrupted hi, World.attend, hbefore]
    rfl
  | none =>
    have hbefore : (w.before (.under ctx) : Option ((Guard.under ctx).Outcome c.Answer)) = none :=
      congrArg (Option.map Except.error) hi
    rw [poll_clear (interruption?_eq_none_iff_clear.1 hi), World.attend, hbefore]
    simp only [Call.toWork]
    generalize w.work ticket c p = x
    obtain ⟨v, progress⟩ := x
    cases progress <;> rfl

theorem ofPoll_eq_pending {x : Poll (Phase c) (Except Interrupted c.Answer)} :
    (Turn.ofPoll x : Turn (.under ctx) c) = .pending q ↔ x = .pending q := by
  cases x <;> simp [Turn.ofPoll]

theorem attend_eq_pending :
    (w.attend ticket lapse (.under ctx) c p).2 = .pending q ↔
      ctx.Clear w ∧ ((c.toWork ticket).poll w p).2 = .pending q := by
  rw [attend_under, ofPoll_eq_pending, poll_eq_pending]

end Context

end Registrar
