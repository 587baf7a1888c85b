import Registrar.Proofs.Server
import Registrar.Proofs.Service.Barred
/-!
Servers after their shutdown: each context that the server has ever given out is cancelled, and
nothing that is asked of the server reaches its backend. Main statement: dead contexts freeze the
system (`dead_context_freezes`).
-/
set_option autoImplicit false

namespace Registrar

namespace Context

variable {ctx parent : Context} {s signals : Signals} {now : Tick} {timeout : Span}

theorem isCancelled_congr (ctx : Context) (h : signals.fired = s.fired) :
    ctx.isCancelled signals = ctx.isCancelled s := by
  unfold isCancelled
  rw [h]

theorem lineage_child (h : parent.child s now timeout = some (ctx, signals)) :
    ctx.lineage = s.made :: parent.lineage ∧ signals.fired = s.fired := by
  obtain ⟨due, -, hctx⟩ := Option.map_eq_some_iff.1 h
  cases hctx
  exact ⟨rfl, rfl⟩

theorem isCancelled_of_child (h : parent.child s now timeout = some (ctx, signals)) {t : Signals}
    (hp : parent.isCancelled t = true) : ctx.isCancelled t = true := by
  unfold isCancelled at *
  rw [(lineage_child h).1, List.any_cons, hp, Bool.or_true]

theorem interruption?_of_isCancelled (h : ctx.isCancelled s = true) (now : Tick) :
    ctx.interruption? s now = some .cancelled := by
  rw [interruption?, if_pos h]

theorem isCancelled_cancel_self (s : Signals) (h : ctx.lineage ≠ []) :
    ctx.isCancelled (ctx.cancel s) = true := by
  obtain ⟨n, rest, hl⟩ := List.exists_cons_of_ne_nil h
  simp [isCancelled, cancel, hl]

theorem isCancelled_cancel (h : ctx.isCancelled s = true) :
    ctx.isCancelled (parent.cancel s) = true := by
  simp only [isCancelled, cancel, List.any_eq_true, List.contains_eq_mem, decide_eq_true_eq] at *
  obtain ⟨n, hn, hfired⟩ := h
  exact ⟨n, hn, List.mem_append_right _ hfired⟩

end Context

namespace Backend

def AtRest : Backend → Prop
  | .memory w => w.orphans = []
  | .redis _ => True

namespace Untouched

variable {b c d : Backend}

theorem refl (b : Backend) : b.Untouched b := by
  cases b with
  | memory w => exact World.Untouched.refl w
  | redis l => exact Redis.Link.Untouched.refl l

theorem memory {w v : World} (h : w.Untouched v) : (Backend.memory w).Untouched (.memory v) := h

theorem redis {l m : Redis.Link} (h : l.Untouched m) : (Backend.redis l).Untouched (.redis m) := h

theorem kinds (h : b.Untouched c) :
    (∃ w v : World, b = .memory w ∧ c = .memory v ∧ w.Untouched v) ∨
    ∃ l m : Redis.Link, b = .redis l ∧ c = .redis m ∧ l.Untouched m := by
  cases b with
  | memory w =>
    cases c with
    | memory v => exact .inl ⟨w, v, rfl, rfl, h⟩
    | redis m => exact h.elim
  | redis l =>
    cases c with
    | memory v => exact h.elim
    | redis m => exact .inr ⟨l, m, rfl, rfl, h⟩

theorem fired (h : b.Untouched c) : c.signals.fired = b.signals.fired := by
  obtain ⟨w, v, rfl, rfl, h⟩ | ⟨l, m, rfl, rfl, h⟩ := h.kinds
  · exact h.fired
  · exact h.fired

theorem clock (h : b.Untouched c) : c.clock = b.clock := by
  obtain ⟨w, v, rfl, rfl, h⟩ | ⟨l, m, rfl, rfl, h⟩ := h.kinds
  · exact h.clock
  · exact h.clock

theorem trans (h : b.Untouched c) (h' : c.Untouched d) : b.Untouched d := by
  obtain ⟨w, v, rfl, rfl, h⟩ | ⟨l, m, rfl, rfl, h⟩ := h.kinds
  · cases d with
    | memory u => exact World.Untouched.trans h h'
    | redis n => exact h'.elim
  · cases d with
    | memory u => exact h'.elim
    | redis n => exact Redis.Link.Untouched.trans h h'

end Untouched

variable {α : Type} {b c : Backend}

section

variable {root ctx : Context} {timeout : Span} {signals : Signals} {k : Context → Flow α}
  {o : Option α}

theorem declines_request_none (hc : root.child b.signals b.now timeout = none) :
    b.Declines (.request root timeout k) none := by
  cases b with
  | memory w =>
    have hc : root.child w.signals w.now timeout = none := hc
    refine ⟨w, ?_, .refl w⟩
    rw [Flow.advance, hc]
    rfl
  | redis l =>
    have hc : root.child l.signals l.elapsed timeout = none := hc
    refine ⟨l, ?_, .refl l⟩
    rw [Flow.follow, hc]
    rfl

theorem declines_request_some (hc : root.child b.signals b.now timeout = some (ctx, signals))
    (h : (b.withSignals signals).Declines (k ctx) o) : b.Declines (.request root timeout k) o := by
  have hfired := (Context.lineage_child hc).2
  cases b with
  | memory w =>
    have hc : root.child w.signals w.now timeout = some (ctx, signals) := hc
    obtain ⟨v, hv, hw⟩ := h
    refine ⟨v, ?_, World.Untouched.trans ⟨hfired, rfl⟩ hw⟩
    rw [Flow.advance, hc]
    exact hv
  | redis l =>
    have hc : root.child l.signals l.elapsed timeout = some (ctx, signals) := hc
    obtain ⟨m, hm, hl⟩ := h
    refine ⟨m, ?_, Redis.Link.Untouched.trans ⟨hfired, rfl⟩ hl⟩
    rw [Flow.follow, hc]
    exact hm

theorem signals_withSignals (b : Backend) (s : Signals) : (b.withSignals s).signals = s := by
  cases b <;> rfl

theorem clock_withSignals (b : Backend) (s : Signals) : (b.withSignals s).clock = b.clock := by
  cases b <;> rfl

theorem declines_request (hroot : root.isCancelled b.signals = true) (timeout : Span)
    (hk : ∀ ctx, (k ctx).Barred ctx .cancelled b.clock o) :
    ∃ p, b.Declines (.request root timeout k) p ∧ (p = none ∨ p = o) := by
  cases hc : root.child b.signals b.now timeout with
  | none => exact ⟨none, declines_request_none hc, .inl rfl⟩
  | some r =>
    obtain ⟨ctx, signals⟩ := r
    have hctx : ctx.isCancelled (b.withSignals signals).signals = true := by
      rw [signals_withSignals, ctx.isCancelled_congr (Context.lineage_child hc).2]
      exact Context.isCancelled_of_child hc hroot
    have hbarred := hk ctx
    rw [← clock_withSignals b signals] at hbarred
    exact ⟨o, declines_request_some hc
      (declines_of_barred (Context.interruption?_of_isCancelled hctx _) hbarred), .inr rfl⟩

end

theorem run_redis_cons (f : Flow α) (fs : List (Flow α)) {l m n : Redis.Link} {e : Ending α}
    {es : List (Ending α)} (h : f.follow l = (e, m)) (hs : (redis m).run fs = (es, .redis n)) :
    (redis l).run (f :: fs) = (e :: es, .redis n) := by
  simp only [run, Prod.mk.injEq, redis.injEq] at hs
  simp only [run, inTurn, h, hs]

theorem run_declined {fs : List (Flow α)} {P : Option α → Prop} (hb : b.AtRest)
    (hf : ∀ f ∈ fs, ∀ c, b.Untouched c → ∃ o, c.Declines f o ∧ P o) :
    ∃ (os : List (Option α)) (c : Backend), b.run fs = (os.map .over, c) ∧ b.Untouched c ∧
      os.length = fs.length ∧ ∀ o ∈ os, P o := by
  cases b with
  | memory w =>
    have hstraight : ∃ os v, Flow.Straight fs w os v ∧ w.Untouched v ∧ ∀ o ∈ os, P o := by
      induction fs generalizing w with
      | nil => exact ⟨[], w, .nil w, .refl w, fun o ho => by cases ho⟩
      | cons f fs ih =>
        obtain ⟨o, ⟨v, hv, hw⟩, ho⟩ := hf f List.mem_cons_self (.memory w) (.refl _)
        obtain ⟨os, u, hs, hu, hos⟩ := ih v (hw.orphans.trans hb)
          fun g hg c hc => hf g (List.mem_cons_of_mem f hg) c ((Untouched.memory hw).trans hc)
        exact ⟨o :: os, u, .cons hv (hw.orphans.trans hb) hs, hw.trans hu,
          List.forall_mem_cons.2 ⟨ho, hos⟩⟩
    obtain ⟨os, v, hs, hv, hos⟩ := hstraight
    exact ⟨os, .memory v, run_memory hs, hv, hs.length, hos⟩
  | redis l =>
    induction fs generalizing l with
    | nil => exact ⟨[], .redis l, rfl, .refl _, rfl, fun o ho => by cases ho⟩
    | cons f fs ih =>
      obtain ⟨o, ⟨m, hm, hl⟩, ho⟩ := hf f List.mem_cons_self (.redis l) (.refl _)
      obtain ⟨os, c, hs, hc, hlen, hos⟩ := ih m trivial
        fun g hg c hc => hf g (List.mem_cons_of_mem f hg) c ((Untouched.redis hl).trans hc)
      cases c with
      | memory w => exact hc.elim
      | redis n =>
        exact ⟨o :: os, .redis n, run_redis_cons f fs hm hs, (Untouched.redis hl).trans hc,
          congrArg Nat.succ hlen, List.forall_mem_cons.2 ⟨ho, hos⟩⟩

theorem isLocal_run (fs : List (Flow α)) (b : Backend) : (b.run fs).2.isLocal = b.isLocal := by
  cases b <;> rfl

theorem isLocal_withSignals (b : Backend) (s : Signals) :
    (b.withSignals s).isLocal = b.isLocal := by
  cases b <;> rfl

theorem isLocal_advance (b : Backend) (d : Span) : (b.advance d).isLocal = b.isLocal := by
  cases b <;> rfl

theorem signals_advance (b : Backend) (d : Span) : (b.advance d).signals = b.signals := by
  cases b with
  | memory w =>
    rw [advance_memory]
    rfl
  | redis l => rfl

end Backend

namespace Server

variable {set : Settings} {site : Site} {sent : List Redis.Request} {s₀ s t : Server}

theorem request_snd {α : Type} (s : Server) (give : α → Output) (f : Context → AccountFlow α) :
    (s.request give f).2 =
      { s with backend := (s.backend.run [s.underRequest fun ctx => (f ctx).run]).2 } := by
  unfold request
  generalize s.backend.run [s.underRequest fun ctx => (f ctx).run] = r
  obtain ⟨es, b⟩ := r
  rcases es with - | ⟨e, es⟩
  · rfl
  · rcases e with (e | a) | - | -
    · rfl
    · rfl
    · rfl
    · rfl

theorem request_crashed {α : Type} (give : α → Output) {f : Context → AccountFlow α}
    {es : List (Ending (Except AccountError α))} {b : Backend}
    (h : s.backend.run [s.underRequest fun ctx => (f ctx).run] = (.crashed :: es, b)) :
    (s.request give f).1 = .crashed := by
  unfold request
  rw [h]

theorem allocateMany_eq (s : Server) (day : Day) {count : Nat} (h : count < batchLimit) :
    s.allocateMany day count =
      (.finished (match gather (s.backend.run (List.replicate count (s.allocation day))).1 with
        | some ids => .ok (Identifier.sort ids)
        | none => .error .internal),
      { s with backend := (s.backend.run (List.replicate count (s.allocation day))).2 }) := by
  rw [allocateMany, if_pos h]
  rfl

theorem allocateMany_crashed (s : Server) (day : Day) {count : Nat} (h : ¬ count < batchLimit) :
    s.allocateMany day count = (.crashed, s) := by
  rw [allocateMany, if_neg h]

theorem batch_snd (s : Server) (day : Day) (count : Nat) :
    (s.batch day count).2 = (s.allocateMany day count).2 := by
  unfold batch
  generalize s.allocateMany day count = r
  obtain ⟨e, t⟩ := r
  rcases e with (e | a) | - | - <;> rfl

/-- A command changes no more than its requests change on the backend. Each of them comes to the same
end under any cancelled context. -/
theorem execute_snd {P : Backend → Prop} (hs : P s.backend)
    (hrun : ∀ {α : Type} (n : Nat) (k : Context → Flow α) (o : Option α),
      (∀ ctx, (k ctx).Barred ctx .cancelled s.backend.clock o) →
      P (s.backend.run (List.replicate n (s.underRequest k))).2) (c : Command) :
    ∃ b, (s.execute c).2 = { s with backend := b } ∧ P b := by
  have hbatch : ∀ day count, ∃ b, (s.batch day count).2 = { s with backend := b } ∧ P b := by
    intro day count
    rw [batch_snd]
    by_cases hcount : count < batchLimit
    · rw [allocateMany_eq s day hcount]
      exact ⟨_, rfl, hrun count _ _ fun ctx => Allocator.barred_allocate _ day⟩
    · rw [allocateMany_crashed s day hcount]
      exact ⟨_, rfl, hs⟩
  cases c with
  | register => exact ⟨_, request_snd .., hrun 1 _ _ fun ctx => Accounts.barred_register _⟩
  | login subject => exact ⟨_, request_snd .., hrun 1 _ _ fun ctx => Accounts.barred_login _ _⟩
  | verify token => exact ⟨_, request_snd .., hrun 1 _ _ fun ctx => Accounts.barred_authenticate _⟩
  | logout token => exact ⟨_, request_snd .., hrun 1 _ _ fun ctx => Accounts.barred_logout _⟩
  | refresh token => exact ⟨_, request_snd .., hrun 1 _ _ fun ctx => Accounts.barred_refresh _ _⟩
  | allocate count day =>
    unfold execute
    cases day with
    | none =>
      cases s.backend.clock.today? with
      | some d => exact hbatch d count
      | none => exact ⟨_, rfl, hs⟩
    | some text =>
      simp only
      cases Day.ofStamp text with
      | ok d => exact hbatch d count
      | error fault => exact ⟨_, rfl, hs⟩
  | shell => exact ⟨_, rfl, hs⟩

theorem execute_local (s : Server) (c : Command) :
    (s.execute c).2.root = s.root ∧ (s.execute c).2.isLocal = s.isLocal := by
  obtain ⟨b, hb, hlocal⟩ := s.execute_snd (P := fun b => b.isLocal = s.backend.isLocal) rfl
    (fun _ _ _ _ => Backend.isLocal_run _ _) c
  rw [hb]
  exact ⟨rfl, hlocal⟩

theorem Reached.same (h : s₀.Reached s) : s.root = s₀.root ∧ s.isLocal = s₀.isLocal := by
  induction h with
  | start => exact ⟨rfl, rfl⟩
  | @execute s _ c ih =>
    have hsame := s.execute_local c
    exact ⟨hsame.1.trans ih.1, hsame.2.trans ih.2⟩
  | advance _ _ ih => exact ⟨ih.1, (Backend.isLocal_advance _ _).trans ih.2⟩
  | shutdown _ ih => exact ⟨ih.1, (Backend.isLocal_withSignals _ _).trans ih.2⟩
  | context _ ht ih =>
    unfold requestContext? at ht
    obtain ⟨r, -, hu⟩ := Option.map_eq_some_iff.1 ht
    cases hu
    exact ⟨ih.1, (Backend.isLocal_withSignals _ _).trans ih.2⟩

theorem Reached.trans (h : s₀.Reached s) (h' : s.Reached t) : s₀.Reached t := by
  induction h' with
  | start => exact h
  | execute _ c ih => exact .execute ih c
  | advance _ hd ih => exact .advance ih hd
  | shutdown _ ih => exact .shutdown ih
  | context _ ht ih => exact .context ih ht

theorem memory_of_isLocal {b : Backend} (h : Backend.start set site = (.ok b, sent))
    (hb : b.isLocal = true) : set.store.backend = "memory" := by
  unfold Backend.start at h
  split at h
  · assumption
  · split at h
    · cases h
    · cases h
    · unfold Backend.greet at h
      split at h
      · cases h
        cases hb
      · cases h
      · cases h
  · cases h

/-- A server that starts has a root that can be cancelled, and one that runs on a world of its own
has been told to. -/
theorem root_of_start (h : start set site = (.ok s₀, sent)) :
    s₀.root.lineage ≠ [] ∧ (s₀.isLocal = true → set.store.backend = "memory") := by
  obtain ⟨b, hbackend, hserver⟩ := start_ok h
  obtain ⟨terms, -, rfl⟩ := ofBackend_ok hserver
  refine ⟨List.cons_ne_nil _ _, fun hlocal => memory_of_isLocal hbackend ?_⟩
  exact (Backend.isLocal_withSignals _ _).symm.trans hlocal

theorem Reached.atRest (hs : s₀.Reached s) (hstart : Server.start set site = (.ok s₀, sent))
    (hc : site.clock.Sane) : s.backend.AtRest := by
  cases hb : s.backend with
  | redis l => exact trivial
  | memory w =>
    have hlocal : s.isLocal = true := congrArg Backend.isLocal hb
    rw [hs.same.2] at hlocal
    obtain ⟨u, hu⟩ := ready_start ((root_of_start hstart).2 hlocal) hstart hc
    obtain ⟨v, hv⟩ := hu.reached hs
    obtain rfl : w = v := Backend.memory.inj (hb.symm.trans hv.backend)
    exact hv.still.orphans

theorem isShutdown_shutdown (h : s.root.lineage ≠ []) : s.shutdown.isShutdown = true := by
  unfold isShutdown shutdown
  rw [Backend.signals_withSignals]
  exact Context.isCancelled_cancel_self _ h

theorem run_shutdown (hdown : s.isShutdown = true) (hb : s.backend.AtRest) {α : Type} (n : Nat)
    {k : Context → Flow α} {o : Option α}
    (hk : ∀ ctx, (k ctx).Barred ctx .cancelled s.backend.clock o) :
    ∃ (os : List (Option α)) (b : Backend),
      s.backend.run (List.replicate n (s.underRequest k)) = (os.map .over, b) ∧
      s.backend.Untouched b ∧ os.length = n ∧ ∀ p ∈ os, p = none ∨ p = o := by
  have hone : ∀ f ∈ List.replicate n (s.underRequest k), ∀ c, s.backend.Untouched c →
      ∃ p, c.Declines f p ∧ (p = none ∨ p = o) := by
    intro f hf c hc
    rw [List.eq_of_mem_replicate hf]
    rw [← hc.clock] at hk
    exact Backend.declines_request ((s.root.isCancelled_congr hc.fired).trans hdown) s.timeout hk
  obtain ⟨os, b, hrun, hsame, hlength, hos⟩ := Backend.run_declined hb hone
  exact ⟨os, b, hrun, hsame, by rw [hlength, List.length_replicate], hos⟩

theorem execute_shutdown (hdown : s.isShutdown = true) (hb : s.backend.AtRest) (c : Command) :
    ∃ b, (s.execute c).2 = { s with backend := b } ∧ s.backend.Untouched b := by
  refine s.execute_snd (.refl _) (fun n k o hk => ?_) c
  obtain ⟨os, b, hrun, hsame, -⟩ := run_shutdown hdown hb n hk
  rw [hrun]
  exact hsame

theorem Reached.isShutdown (hs : s₀.Reached s) (hstart : Server.start set site = (.ok s₀, sent))
    (hc : site.clock.Sane) (ht : s.shutdown.Reached t) : t.isShutdown = true := by
  induction ht with
  | start =>
    refine isShutdown_shutdown ?_
    rw [hs.same.1]
    exact (root_of_start hstart).1
  | @execute t ht c ih =>
    have hrest := (hs.shutdown.trans ht).atRest hstart hc
    obtain ⟨b, hb, hsame⟩ := execute_shutdown ih hrest c
    rw [hb]
    exact (t.root.isCancelled_congr hsame.fired).trans ih
  | @advance t _ d _ ih =>
    unfold Server.isShutdown Server.advance
    rw [Backend.signals_advance]
    exact ih
  | @shutdown t _ ih =>
    unfold Server.isShutdown Server.shutdown
    rw [Backend.signals_withSignals]
    exact Context.isCancelled_cancel ih
  | @context t u ctx _ hu ih =>
    unfold requestContext? at hu
    obtain ⟨r, hr, hu⟩ := Option.map_eq_some_iff.1 hu
    cases hu
    unfold Server.isShutdown
    rw [Backend.signals_withSignals]
    exact (t.root.isCancelled_congr (Context.lineage_child hr).2).trans ih

theorem gather_over_eq_none {os : List (Option (Except AllocError Identifier))} {e : AllocError}
    (hne : os ≠ []) (hos : ∀ o ∈ os, o = none ∨ o = some (.error e)) :
    gather (os.map .over) = none := by
  obtain ⟨o, rest, rfl⟩ := List.exists_cons_of_ne_nil hne
  rcases hos o List.mem_cons_self with rfl | rfl <;> rfl

theorem allocateMany_shutdown (hdown : s.isShutdown = true) (hb : s.backend.AtRest) (day : Day)
    {count : Nat} (hpos : 0 < count) (hcount : count < batchLimit) :
    ∃ b, s.allocateMany day count = (.finished (.error .internal), { s with backend := b }) ∧
      s.backend.Untouched b := by
  obtain ⟨os, b, hrun, hsame, hlength, hos⟩ := run_shutdown hdown hb count
    fun ctx => s.accounts.allocator.barred_allocate day
  have hne : os ≠ [] := List.ne_nil_of_length_pos (by rw [hlength]; exact hpos)
  refine ⟨b, ?_, hsame⟩
  rw [allocateMany_eq s day hcount, allocation, hrun]
  simp only [gather_over_eq_none hne hos]

/-- A context that is cancelled or due, or the child of a cancelled one, freezes whatever its flows
run on. After its shutdown a server knows no other contexts, those of earlier requests included: no
command reaches the backend, and a batch that fits into memory is refused. -/
theorem dead_context_freezes (hstart : start set site = (.ok s₀, sent)) (hc : site.clock.Sane)
    (hs : s₀.Reached s) (ht : s.shutdown.Reached t) :
    (∀ (b : Backend) (ctx : Context), ctx.isCancelled b.signals = true ∨ ctx.isDue b.now = true →
      b.Frozen ctx (if ctx.isCancelled b.signals then .cancelled else .deadlineExceeded)) ∧
    (∀ (b : Backend) (parent ctx : Context) (timeout : Span) (signals : Signals),
      parent.isCancelled b.signals = true →
      parent.child b.signals b.now timeout = some (ctx, signals) →
      (b.withSignals signals).Frozen ctx .cancelled) ∧
    (∀ (r u : Server) (ctx : Context), s₀.Reached r → r.requestContext? = some (ctx, u) →
      t.backend.Frozen ctx .cancelled) ∧
    (∀ (day : Day) (count : Nat), 0 < count → count < batchLimit →
      ∃ b, t.allocateMany day count = (.finished (.error .internal), { t with backend := b }) ∧
        t.backend.Untouched b) ∧
    ∀ c : Command, ∃ b, (t.execute c).2 = { t with backend := b } ∧ t.backend.Untouched b := by
  have hdown := hs.isShutdown hstart hc ht
  have hrest := (hs.shutdown.trans ht).atRest hstart hc
  refine ⟨fun b ctx hdead => Backend.frozen ?_, fun b parent ctx timeout signals hparent hchild => ?_,
    fun r u ctx hr hctx => ?_, fun day count hpos hcount => ?_, fun c => ?_⟩
  · unfold Context.interruption?
    rcases hdead with hcancelled | hdue
    · simp only [hcancelled, if_true]
    · simp only [hdue, if_true]
      split <;> rfl
  · refine Backend.frozen (Context.interruption?_of_isCancelled ?_ _)
    rw [Backend.signals_withSignals, ctx.isCancelled_congr (Context.lineage_child hchild).2]
    exact Context.isCancelled_of_child hchild hparent
  · refine Backend.frozen (Context.interruption?_of_isCancelled ?_ _)
    unfold requestContext? at hctx
    obtain ⟨⟨ctx, signals⟩, hchild, hu⟩ := Option.map_eq_some_iff.1 hctx
    cases hu
    refine Context.isCancelled_of_child hchild ?_
    rw [hr.same.1, ← (hs.shutdown.trans ht).same.1]
    exact hdown
  · exact allocateMany_shutdown hdown hrest day hpos hcount
  · exact execute_shutdown hdown hrest c

theorem dead_context_freezes_midway : ∃ s₀ s t : Server, ∃ ctx u,
    start unbounded newYearSite = (.ok s₀, []) ∧ s₀.requestContext? = some (ctx, u) ∧
    s = (u.execute (.allocate 3 none)).2 ∧ t = s.shutdown ∧ t.backend.Frozen ctx .cancelled ∧
    ∀ day, ∃ b,
      t.allocateMany day 2 = (.finished (.error .internal), { t with backend := b }) ∧
      t.backend.Untouched b := by
  have hstart : ∃ s₀, start unbounded newYearSite = (.ok s₀, []) ∧ s₀.requestContext?.isSome = true :=
    ⟨_, rfl, by decide +kernel⟩
  obtain ⟨s₀, hstart, hcontext⟩ := hstart
  obtain ⟨⟨ctx, u⟩, hcontext⟩ := Option.isSome_iff_exists.1 hcontext
  have hfreezes := dead_context_freezes hstart newYearSite_sane
    (.execute (.context .start hcontext) (.allocate 3 none)) .start
  exact ⟨s₀, _, _, ctx, u, hstart, hcontext, rfl, rfl, hfreezes.2.2.1 _ _ _ .start hcontext,
    fun day => hfreezes.2.2.2.1 day 2 (by decide) (by decide)⟩

theorem register_shutdown (hdown : s.isShutdown = true) (hb : s.backend.AtRest)
    (h : s.backend.clock.today? = none) : (s.execute .register).1 = .crashed := by
  have hbarred : ∀ ctx, (s.accounts.register ctx).run.Barred ctx .cancelled s.backend.clock none := by
    intro ctx
    have hregister : (s.accounts.register ctx).run.Barred ctx .cancelled s.backend.clock _ :=
      s.accounts.barred_register
    rwa [h] at hregister
  obtain ⟨os, b, hrun, -, hlength, hos⟩ := run_shutdown hdown hb 1 hbarred
  obtain rfl : os = [none] := List.eq_replicate_iff.2 ⟨hlength, fun p hp => (hos p hp).elim id id⟩
  exact request_crashed _ hrun

/-- The last moment of the calendar, where the local clock is an hour ahead. -/
def lastMomentSite : Site where
  clock := ⟨Instant.max, ⟨3600, none⟩, 0⟩
  ids n := toString n
  peer := none
  jitter _ := 0

/-- Not every request of a server that is shut down has an answer: the room for a batch is taken
before any context is looked at, and so is the calendar for a new subject. -/
theorem shutdown_unanswered :
    (∃ s₀, start unbounded newYearSite = (.ok s₀, []) ∧
      ∀ day, (s₀.shutdown.allocateMany day batchLimit).1 = .crashed) ∧
    ∃ s₀, start unbounded lastMomentSite = (.ok s₀, []) ∧
      (s₀.shutdown.execute .register).1 = .crashed := by
  refine ⟨⟨_, rfl, fun day => ?_⟩, ⟨_, rfl, ?_⟩⟩
  · exact congrArg Prod.fst (allocateMany_crashed _ day (Nat.lt_irrefl batchLimit))
  · exact register_shutdown (isShutdown_shutdown (List.cons_ne_nil _ _)) rfl (by decide +kernel)

end Server

end Registrar
