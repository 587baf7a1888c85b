import Registrar.Proofs.Server.Contention
import Registrar.Proofs.Server.Printed
/-!
Runs of a server, with the numbers that are printed for a day. Main statement: a batch is a block of
consecutive identifiers, and as long as the counter of a day lives, the numbers that are printed for
it follow one another (`Server.batches_consecutive`).
-/
set_option autoImplicit false

namespace Registrar

namespace Server

variable {set : Settings} {site : Site} {s t s₀ : Server} {w : World} {day : Day} {c : Nat}

/-- What the counter of a day reads, on a world of the server's own. -/
def count? (s : Server) (day : Day) : Option Int :=
  match s.backend with
  | .memory w => w.store.count? w.now (s.accounts.allocator.counterKey day)
  | .redis _ => none

def Lives (s : Server) (day : Day) : Prop :=
  match s.backend with
  | .memory w => (w.store.find? w.now (s.accounts.allocator.counterKey day)).isSome
  | .redis _ => False

/-- A run, and the numbers that are printed for a day. The counter of the day lives on from when it
has come to life. -/
inductive Runs (day : Day) : Server → List Nat → Server → Prop where
  | stop (s : Server) : Runs day s [] s
  | execute {s t : Server} {ns : List Nat} (c : Command)
      (hlives : s.Lives day → (s.execute c).2.Lives day) (h : Runs day (s.execute c).2 ns t) :
      Runs day s (Identifier.numbers day (s.printed c) ++ ns) t
  | advance {s t : Server} {ns : List Nat} {d : Span}
      (hd : s.backend.clock.wall + d ≤ Instant.max)
      (hlives : s.Lives day → (s.advance d).Lives day) (h : Runs day (s.advance d) ns t) :
      Runs day s ns t
  | shutdown {s t : Server} {ns : List Nat} (h : Runs day s.shutdown ns t) : Runs day s ns t
  | context {s t u : Server} {ns : List Nat} {ctx : Context} (hu : s.requestContext? = some (ctx, u))
      (h : Runs day u ns t) : Runs day s ns t

section

variable {v : World} {ids : List Identifier} {ns : List Nat}

theorem count?_memory (h : s.backend = .memory w) (day : Day) :
    s.count? day = w.store.count? w.now (s.accounts.allocator.counterKey day) := by
  rw [count?, h]

theorem lives_memory (h : s.backend = .memory w) (day : Day) :
    s.Lives day ↔ (w.store.find? w.now (s.accounts.allocator.counterKey day)).isSome := by
  rw [Lives, h]

theorem goes_of_step (hs : s.backend = .memory w) (ht : t.backend = .memory v)
    (haccounts : t.accounts = s.accounts) (h : w.Continues s.accounts.allocator ids v)
    (hlives : s.Lives day → t.Lives day) (hc : s.count? day = some (c : Int)) : ∃ c' : Nat,
      t.count? day = some (c' : Int) ∧ Numeral.Goes c (Identifier.numbers day ids) c' := by
  rw [count?_memory hs] at hc
  rw [lives_memory hs, lives_memory ht, haccounts] at hlives
  rw [count?_memory ht, haccounts]
  exact h.goes hlives hc

theorem Runs.goes (hr : Runs day s ns t) (h : s.Sound set site w) (ht : 0 < set.timeout.toNat)
    (hids : ∀ n day, site.ids n ≠ s.accounts.allocator.counterKey day)
    (hcounts : ∀ day, ∃ c : Nat,
      w.store.count? w.now (s.accounts.allocator.counterKey day) = some (c : Int))
    (hc : s.count? day = some (c : Int)) : ∃ c' : Nat,
      t.count? day = some (c' : Int) ∧ Numeral.Goes c ns c' := by
  induction hr generalizing w c with
  | stop s =>
    rw [count?_memory h.ready.backend] at hc
    exact ⟨c, by rw [count?_memory h.ready.backend, hc], .refl (Store.count?_bounds hc).2⟩
  | @execute s t ns cmd hlives _ ih =>
    obtain ⟨v, hv, hsound, hcontinues⟩ := h.execute_continues ht hids hcounts cmd
    rw [hv] at hlives ih
    obtain ⟨k, hk, hgoes⟩ := goes_of_step (t := { s with backend := .memory v }) h.ready.backend rfl
      rfl hcontinues hlives hc
    obtain ⟨c', hc', hrest⟩ := ih hsound hids (hcontinues.counts hcounts) hk
    exact ⟨c', hc', hgoes.trans hrest⟩
  | @advance s t ns d hd hlives _ ih =>
    have hsound := h.setNow hd
    have hcontinues := World.Continues.setNow (a := s.accounts.allocator) (Nat.le_add_right w.now d)
    obtain ⟨k, hk, hgoes⟩ :=
      goes_of_step h.ready.backend hsound.ready.backend rfl hcontinues hlives hc
    obtain ⟨c', hc', hrest⟩ := ih hsound hids (hcontinues.counts hcounts) hk
    exact ⟨c', hc', hgoes.trans hrest⟩
  | @shutdown s t ns _ ih =>
    have hsound := h.shutdown
    rw [count?_memory h.ready.backend] at hc
    exact ih hsound hids hcounts (by rwa [count?_memory hsound.ready.backend])
  | @context s t u ns ctx hu _ ih =>
    obtain ⟨v, hsound, hstore, hclock⟩ := h.context hu
    have hnow : v.now = w.now := congrArg Clock.now hclock
    have haccounts : u.accounts = s.accounts := by
      obtain ⟨r, -, hr⟩ := Option.map_eq_some_iff.1 hu
      cases hr
      rfl
    rw [count?_memory h.ready.backend] at hc
    refine ih hsound (haccounts ▸ hids) ?_ ?_
    · rwa [haccounts, hstore, hnow]
    · rwa [count?_memory hsound.ready.backend, haccounts, hstore, hnow]

end

theorem Reached.counts (hs : s₀.Reached s) (h : s₀.Sound set site w) (hw : w.store = .empty)
    (ht : 0 < set.timeout.toNat)
    (hids : ∀ n day, site.ids n ≠ s₀.accounts.allocator.counterKey day) :
    ∃ v, s.Sound set site v ∧ s.accounts = s₀.accounts ∧ ∀ day, ∃ c : Nat,
      v.store.count? v.now (s₀.accounts.allocator.counterKey day) = some (c : Int) := by
  induction hs with
  | start =>
    refine ⟨w, h, rfl, fun day => ⟨0, Store.count?_of_find?_none ?_⟩⟩
    rw [hw]
    rfl
  | @execute s _ cmd ih =>
    obtain ⟨v, hv, haccounts, hcounts⟩ := ih
    rw [← haccounts] at hids hcounts ⊢
    obtain ⟨u, hu, hsound, hcontinues⟩ := hv.execute_continues ht hids hcounts cmd
    rw [hu]
    exact ⟨u, hsound, rfl, hcontinues.counts hcounts⟩
  | @advance s _ d hd ih =>
    obtain ⟨v, hv, haccounts, hcounts⟩ := ih
    exact ⟨_, hv.setNow hd, haccounts,
      (World.Continues.setNow (Nat.le_add_right v.now d)).counts hcounts⟩
  | shutdown _ ih =>
    obtain ⟨v, hv, haccounts, hcounts⟩ := ih
    exact ⟨_, hv.shutdown, haccounts, hcounts⟩
  | @context s t ctx _ hu ih =>
    obtain ⟨v, hv, haccounts, hcounts⟩ := ih
    obtain ⟨u, hsound, hstore, hclock⟩ := hv.context hu
    obtain ⟨r, -, hr⟩ := Option.map_eq_some_iff.1 hu
    cases hr
    refine ⟨u, hsound, haccounts, (World.Continues.of_store ?_ hstore).counts hcounts⟩
    exact congrArg Clock.now hclock

theorem Sound.unhindered (h : s.Sound set site w) (hlive : s.isShutdown = false)
    (ht : 0 < set.timeout.toNat) (hpatient : 0 < set.lock.patience.toNat) :
    w.Unhindered s.accounts.allocator s.root s.timeout where
  rooted := h.rooted
  isCancelled := h.ready.isCancelled_root hlive
  timeout_pos := h.ready.timeout_pos ht
  deadline := h.ready.isSome_after?_timeout
  sane := h.ready.sane
  grace_pos := h.ready.grace_pos
  grace_le := h.ready.grace_le
  available := h.ready.still.available
  patience length hlength := by
    rw [h.patience] at hlength
    obtain rfl := Option.some.inj hlength
    unfold Span.ofMillis
    lia

theorem newYearSite_ne_counterKey (n : Nat) (day : Day) :
    newYearSite.ids n ≠ Allocator.standard.counterKey day := by
  intro h
  have hkey : (Allocator.standard.counterKey day).toList = "user".toList ++ day.stamp.toList :=
    String.toList_append
  have hids : (newYearSite.ids n).toList = Numeral.decimal n := String.toList_ofList
  rw [h, hkey] at hids
  have hu : 'u' ∈ Numeral.decimal n := hids ▸ List.mem_cons_self
  exact absurd (Numeral.isDigit_of_mem_decimal hu) (by decide)

end Server

end Registrar
