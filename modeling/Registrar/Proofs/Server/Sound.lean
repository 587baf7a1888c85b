import Registrar.Proofs.Server.Batch
set_option autoImplicit false

namespace Registrar

def Command.counts : Command → Bool
  | .register | .allocate _ _ => true
  | .login _ | .verify _ | .logout _ | .refresh _ | .shell => false

namespace World

variable {w v : World} {root : Context}

theorem Rooted.keeps {keys : String → Prop} (h : w.Rooted root) (hk : w.Keeps keys v) :
    v.Rooted root := h.next (hk.healthy h.healthy) hk.fired hk.made

theorem Keeps.of_straight {α : Type} {keys : String → Prop} {fs : List (Flow α)}
    {os : List (Option α)} (h : Flow.Straight fs w os v) (hf : w.faults = .none)
    (hfs : ∀ f ∈ fs, f.Asks w.ids (Call.Spares keys)) : w.Keeps keys v := by
  induction h with
  | nil w => exact .refl w
  | @cons f fs w x v o os hx _ _ ih =>
    have hkeeps := (hfs f List.mem_cons_self).keeps hf
    rw [hx] at hkeeps
    refine hkeeps.trans (ih (hkeeps.faults.trans hf) fun g hg => ?_)
    rw [hkeeps.ids]
    exact hfs g (List.mem_cons_of_mem f hg)

end World

namespace Server

variable {set : Settings} {site : Site} {s t s₀ : Server} {w v : World} {sent : List Redis.Request}
  {keys : String → Prop}

theorem backend_inj (h : ({ s with backend := .memory w } : Server) = { s with backend := .memory v }) :
    w = v := Backend.memory.inj (congrArg Server.backend h)

theorem Ready.request_keeps {α : Type} {x : Prop} (h : s.Ready set w) (give : α → Output)
    {f : Context → AccountFlow α} (hf : ∀ ctx v, v.Still w.clock none → (f ctx).run.Over v w.clock x)
    (hasks : ∀ ctx, (f ctx).run.Asks w.ids (Call.Spares keys)) :
    ∃ v, (s.request give f).2 = { s with backend := .memory v } ∧ w.Keeps keys v := by
  obtain ⟨v, o, hadvance, hv, -⟩ := h.over_underRequest hf h.still
  have hkeeps : w.Keeps keys ((s.underRequest fun ctx => (f ctx).run).advance w).1 :=
    (Flow.Asks.request hasks).keeps h.still.faults
  rw [hadvance] at hkeeps
  exact ⟨v, congrArg Prod.snd (request_eq h.backend give hadvance hv.orphans), hkeeps⟩

theorem Ready.batch_keeps (h : s.Ready set w)
    (hspared : ∀ day, ¬ keys (s.accounts.allocator.counterKey day)) (day : Day) (count : Nat) :
    ∃ v, (s.batch day count).2 = { s with backend := .memory v } ∧ w.Keeps keys v := by
  rw [batch_snd]
  by_cases hcount : count < batchLimit
  · have hone : ∀ f ∈ List.replicate count (s.allocation day),
        ∀ v, v.Still w.clock none → f.Over v w.clock False := by
      intro f hf v hv
      rw [List.eq_of_mem_replicate hf]
      exact h.over_underRequest
        (fun ctx u hu => Allocator.over_allocate hu h.sane h.grace_le ctx day) hv
    obtain ⟨os, v, hs, hv, -⟩ := Flow.straight_of_over h.still hone
    refine ⟨v, ?_, .of_straight hs h.still.faults fun f hf => ?_⟩
    · rw [allocateMany_eq s day hcount, h.backend, Backend.run_memory hs]
    · rw [List.eq_of_mem_replicate hf]
      exact .request fun ctx => s.accounts.allocator.asks_allocate (hspared day)
  · refine ⟨w, ?_, .refl w⟩
    rw [allocateMany_crashed s day hcount, ← h.backend]

theorem Ready.execute_keeps (h : s.Ready set w) (c : Command) (hids : ∀ n, ¬ keys (w.ids n))
    (hspared : c.counts = true → ∀ day, ¬ keys (s.accounts.allocator.counterKey day)) :
    ∃ v, (s.execute c).2 = { s with backend := .memory v } ∧ w.Keeps keys v := by
  have hsame : s = { s with backend := .memory w } := by rw [← h.backend]
  cases c with
  | register =>
    exact h.request_keeps _ (fun ctx v hv => Accounts.over_register (x := True) hv h.sane h.grace_le
      fun _ => trivial) fun ctx => Accounts.asks_register (hspared rfl)
  | login subject =>
    exact h.request_keeps _ (fun ctx v hv => Accounts.over_login (x := True) hv h.sane s.accounts
      ⟨subject⟩ fun _ => trivial) fun ctx => Accounts.asks_login hids _ _
  | verify token =>
    exact h.request_keeps _ (fun ctx v hv => Accounts.over_authenticate (x := True) hv token)
      fun ctx => Accounts.asks_authenticate token
  | logout token =>
    exact h.request_keeps _ (fun ctx v hv => Accounts.over_logout (x := True) hv token)
      fun ctx => Accounts.asks_logout token
  | refresh token =>
    exact h.request_keeps _ (fun ctx v hv => Accounts.over_refresh (x := True) hv h.sane s.accounts
      token fun _ => trivial) fun ctx => Accounts.asks_refresh hids _ _
  | allocate count day =>
    unfold Server.execute
    cases day with
    | none =>
      cases s.backend.clock.today? with
      | some d => exact h.batch_keeps (hspared rfl) d count
      | none => exact ⟨w, hsame, .refl w⟩
    | some text =>
      cases hd : Day.ofStamp text with
      | ok d =>
        simp only [hd]
        exact h.batch_keeps (hspared rfl) d count
      | error fault =>
        simp only [hd]
        exact ⟨w, hsame, .refl w⟩
  | shell => exact ⟨w, hsame, .refl w⟩

/-- A server between two commands whose requests find fresh contexts. -/
structure Sound (set : Settings) (site : Site) (s : Server) (w : World) : Prop where
  ready : s.Ready set w
  rooted : w.Rooted s.root
  ids : w.ids = site.ids
  patience : w.locks.patience = some (.ofMillis set.lock.patience.toNat)

namespace Sound

theorem keeps (h : s.Sound set site w) (hr : ({ s with backend := .memory v } : Server).Ready set v)
    (hk : w.Keeps keys v) : ({ s with backend := .memory v } : Server).Sound set site v :=
  ⟨hr, h.rooted.keeps hk, hk.ids.trans h.ids, hk.terms.2.trans h.patience⟩

theorem execute (h : s.Sound set site w) (c : Command) :
    ∃ v, (s.execute c).2 = { s with backend := .memory v } ∧
      ({ s with backend := .memory v } : Server).Sound set site v ∧
      (∀ keys : String → Prop, (∀ n, ¬ keys (site.ids n)) →
        (c.counts = true → ∀ day, ¬ keys (s.accounts.allocator.counterKey day)) →
          w.Keeps keys v) := by
  obtain ⟨o, v, ho, hv, -⟩ := h.ready.execute c
  have hsnd : (s.execute c).2 = { s with backend := .memory v } := by rw [ho]
  have hkeeps : ∀ keys : String → Prop, (∀ n, ¬ keys (site.ids n)) →
      (c.counts = true → ∀ day, ¬ keys (s.accounts.allocator.counterKey day)) → w.Keeps keys v := by
    intro keys hids hspared
    obtain ⟨u, hu, hk⟩ := h.ready.execute_keeps c (by rwa [h.ids]) hspared
    rwa [backend_inj (hsnd.symm.trans hu)]
  have hany := hkeeps (fun _ => False) (fun _ hf => hf) fun _ _ hf => hf
  exact ⟨v, hsnd, h.keeps (h.ready.next hv) hany, hkeeps⟩

theorem setNow (h : s.Sound set site w) {d : Span} (hd : s.backend.clock.wall + d ≤ Instant.max) :
    (s.advance d).Sound set site (w.setNow (w.now + d)) where
  ready := h.ready.advance hd
  rooted := h.rooted.next ⟨h.rooted.healthy.faults, h.rooted.healthy.available,
    h.rooted.healthy.accepting⟩ rfl (Nat.le_refl _)
  ids := h.ids
  patience := h.patience

theorem shutdown (h : s.Sound set site w) :
    s.shutdown.Sound set site { w with signals := s.root.cancel w.signals } where
  ready := by
    have hready := h.ready.withSignals (s.root.cancel s.backend.signals)
    have hsignals : s.backend.signals = w.signals := by
      rw [h.ready.backend]
      rfl
    rw [hsignals] at hready
    rw [Server.shutdown, hsignals]
    exact hready
  rooted := by
    obtain ⟨k, hk, hlt⟩ := h.rooted.root
    refine ⟨⟨h.rooted.healthy.faults, h.rooted.healthy.available, h.rooted.healthy.accepting⟩,
      ⟨k, hk, hlt⟩, fun n hn => ?_⟩
    have hfired : (s.root.cancel w.signals).fired = k :: w.signals.fired := by
      rw [hk]
      rfl
    have hmem : n = k ∨ n ∈ w.signals.fired := List.mem_cons.1 (hfired ▸ hn)
    rcases hmem with rfl | hn
    · exact hlt
    · exact h.rooted.heard n hn
  ids := h.ids
  patience := h.patience

theorem context (h : s.Sound set site w) {ctx : Context} (ht : s.requestContext? = some (ctx, t)) :
    ∃ v, t.Sound set site v ∧ v.store = w.store ∧ v.clock = w.clock := by
  unfold requestContext? at ht
  obtain ⟨⟨ctx, signals⟩, hchild, ht⟩ := Option.map_eq_some_iff.1 ht
  cases ht
  rw [h.ready.backend] at hchild
  have hkeeps : w.Keeps (fun _ => False) { w with signals := signals } := .child hchild
  exact ⟨_, ⟨h.ready.withSignals signals, h.rooted.keeps hkeeps, h.ids, h.patience⟩, rfl, rfl⟩

end Sound

theorem sound_start (hm : set.store.backend = "memory") (hstart : start set site = (.ok s, sent))
    (hc : site.clock.Sane) : ∃ w, s.Sound set site w ∧ w.store = .empty := by
  obtain ⟨w, hready⟩ := ready_start hm hstart hc
  obtain ⟨terms, -, rfl⟩ := ofBackend_ok (start_memory hm hstart)
  obtain rfl : _ = w := Backend.memory.inj hready.backend
  exact ⟨_, ⟨hready, ⟨⟨rfl, rfl, rfl⟩, ⟨0, rfl, Nat.zero_lt_one⟩, fun k hk => by cases hk⟩, rfl,
    rfl⟩, rfl⟩

theorem Reached.sound (hs : s₀.Reached s) (h : s₀.Sound set site w) : ∃ v, s.Sound set site v := by
  induction hs with
  | start => exact ⟨w, h⟩
  | @execute s _ c ih =>
    obtain ⟨v, hv⟩ := ih
    obtain ⟨u, hu, hsound, -⟩ := hv.execute c
    exact ⟨u, hu ▸ hsound⟩
  | advance _ hd ih =>
    obtain ⟨v, hv⟩ := ih
    exact ⟨_, hv.setNow hd⟩
  | shutdown _ ih =>
    obtain ⟨v, hv⟩ := ih
    exact ⟨_, hv.shutdown⟩
  | context _ ht ih =>
    obtain ⟨v, hv⟩ := ih
    obtain ⟨u, hu, -⟩ := hv.context ht
    exact ⟨u, hu⟩

end Server

end Registrar
