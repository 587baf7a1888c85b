import Registrar.Proofs.Service.Straight
import Registrar.Server
/-!
A server with a world of its own. Between two commands nothing is under way in it, whatever has been
done before (`Ready`), so each command comes to its end at once. Main statement: as long as the
calendar reaches the expiries that a command has to date, the command has an answer
(`execute_answers`).
-/
set_option autoImplicit false

namespace Registrar

/-- The calendar reaches the expiry or the day that a command has to tell, and a batch is not too
large. -/
def Command.Fits (set : Settings) (wall : Instant) : Command → Prop
  | .login _ | .refresh _ => wall + Span.ofSecs set.auth.refreshSecs.toNat ≤ Instant.max
  | .register => wall + Instant.nanosPerDay ≤ Instant.max
  | .allocate count none => count < Server.batchLimit ∧ wall + Instant.nanosPerDay ≤ Instant.max
  | .allocate count (some _) => count < Server.batchLimit
  | .verify _ | .logout _ | .shell => True

instance (set : Settings) (wall : Instant) : (c : Command) → Decidable (c.Fits set wall)
  | .login _ | .refresh _ => inferInstanceAs (Decidable (_ ≤ Instant.max))
  | .register => inferInstanceAs (Decidable (_ ≤ Instant.max))
  | .allocate _ none => inferInstanceAs (Decidable (_ ∧ _))
  | .allocate _ (some _) => inferInstanceAs (Decidable (_ < _))
  | .verify _ | .logout _ | .shell => inferInstanceAs (Decidable True)

theorem Command.fits_today {set : Settings} {wall : Instant} {count : Nat} :
    (Command.allocate count none).Fits set wall ↔
      count < Server.batchLimit ∧ wall + Instant.nanosPerDay ≤ Instant.max := Iff.rfl

theorem Terms.refresh_of {access refresh : Span} {t : Terms} (h : Terms.of access refresh = .ok t) :
    t.refresh = refresh := by
  unfold Terms.of at h
  split at h
  · split at h
    · cases h
      rfl
    · cases h
  · cases h

namespace Server

/-- What can become of a server. Its clock does not go beyond the calendar. -/
inductive Reached (s₀ : Server) : Server → Prop where
  | start : Reached s₀ s₀
  | execute {s : Server} (h : Reached s₀ s) (c : Command) : Reached s₀ (s.execute c).2
  | advance {s : Server} (h : Reached s₀ s) {d : Span} (hd : s.backend.clock.wall + d ≤ Instant.max) :
      Reached s₀ (s.advance d)
  | shutdown {s : Server} (h : Reached s₀ s) : Reached s₀ s.shutdown
  | context {s t : Server} {ctx : Context} (h : Reached s₀ s)
      (ht : s.requestContext? = some (ctx, t)) : Reached s₀ t

structure Ready (set : Settings) (s : Server) (w : World) : Prop where
  backend : s.backend = .memory w
  still : w.Still w.clock none
  sane : w.clock.Sane
  refresh : s.accounts.terms.refresh = .ofSecs set.auth.refreshSecs.toNat
  grace : s.accounts.allocator.grace = Allocator.standard.grace
  timeout : s.timeout = .ofMillis set.timeout.toNat

theorem ofBackend_ok {set : Settings} {b : Backend} {s : Server} (h : ofBackend set b = .ok s) :
    ∃ terms, Terms.of (.ofSecs set.auth.accessSecs.toNat) (.ofSecs set.auth.refreshSecs.toNat) =
        .ok terms ∧
      s = ⟨b.withSignals (Context.background b.signals).2, ⟨allocatorFor set, terms⟩,
        (Context.background b.signals).1, .ofMillis set.timeout.toNat⟩ := by
  unfold ofBackend at h
  split at h
  · split at h
    · cases h
    · rename_i terms hterms
      cases h
      exact ⟨terms, hterms, rfl⟩
  · cases h

theorem start_ok {set : Settings} {site : Site} {s : Server} {sent : List Redis.Request}
    (h : start set site = (.ok s, sent)) :
    ∃ b, Backend.start set site = (.ok b, sent) ∧ ofBackend set b = .ok s := by
  unfold start at h
  split at h
  · rename_i b sent' hb
    obtain ⟨hs, rfl⟩ := Prod.mk.inj h
    exact ⟨b, hb, hs⟩
  · cases h

theorem start_memory {set : Settings} {site : Site} {s : Server} {sent : List Redis.Request}
    (hm : set.store.backend = "memory") (h : start set site = (.ok s, sent)) :
    ofBackend set (.memory (Backend.worldFor set site)) = .ok s := by
  obtain ⟨b, hb, hs⟩ := start_ok h
  simp only [Backend.start, hm] at hb
  cases hb
  exact hs

theorem ready_start {set : Settings} {site : Site} {s : Server} {sent : List Redis.Request}
    (hm : set.store.backend = "memory") (hstart : start set site = (.ok s, sent))
    (hc : site.clock.Sane) : ∃ w, s.Ready set w := by
  obtain ⟨terms, hterms, rfl⟩ := ofBackend_ok (start_memory hm hstart)
  have hstill : (Backend.worldFor set site).Still site.clock none :=
    ⟨rfl, rfl, rfl, rfl, fun _ => rfl⟩
  exact ⟨_, rfl, hstill.counted _ _ _, hc, Terms.refresh_of hterms, rfl, rfl⟩

def allocation (s : Server) (day : Day) : Flow (Except AllocError Identifier) :=
  s.underRequest fun ctx => s.accounts.allocator.allocate ctx day

theorem request_eq {α : Type} {s : Server} {w v : World} (hb : s.backend = .memory w)
    (give : α → Output) {f : Context → AccountFlow α} {o : Option (Except AccountError α)}
    (h : (s.underRequest fun ctx => (f ctx).run).advance w = (v, .over o)) (ho : v.orphans = []) :
    s.request give f = (.over (o.map fun r => (r.map give).mapError .account),
      { s with backend := .memory v }) := by
  have hrun : s.backend.run [s.underRequest fun ctx => (f ctx).run] = ([.over o], .memory v) := by
    rw [hb]
    exact Backend.run_memory (.cons h ho (.nil v))
  unfold request
  rw [hrun]
  rcases o with - | - | a
  · rfl
  · rfl
  · rfl

namespace Ready

variable {set : Settings} {s : Server} {w v : World} {x : Prop}

theorem next (h : s.Ready set w) (hv : v.Still w.clock none) :
    ({ s with backend := .memory v } : Server).Ready set v where
  backend := rfl
  still := by rwa [hv.clock]
  sane := by rw [hv.clock]; exact h.sane
  refresh := h.refresh
  grace := h.grace
  timeout := h.timeout

theorem grace_le (h : s.Ready set w) : s.accounts.allocator.grace ≤ Instant.max := by
  rw [h.grace]
  decide

theorem isSome_after?_timeout (h : s.Ready set w) : (w.now.after? s.timeout).isSome = true := by
  have hlimit : Instant.max + (18446744073709551616 * 1000000 : Nat) < Tick.limit := by decide
  have hsmall := set.timeout.toNat_lt
  rw [h.timeout]
  refine h.sane.isSome_after? ?_
  unfold Span.ofMillis
  lia

theorem over_underRequest {α : Type} (h : s.Ready set w) {f : Context → Flow α}
    (hf : ∀ ctx v, v.Still w.clock none → (f ctx).Over v w.clock x)
    (hv : v.Still w.clock none) : (s.underRequest f).Over v w.clock x := by
  exact .request hv h.isSome_after?_timeout hf

theorem request {α : Type} (h : s.Ready set w) (give : α → Output) {f : Context → AccountFlow α}
    (hf : ∀ ctx v, v.Still w.clock none → (f ctx).run.Over v w.clock x) :
    ∃ o v, s.request give f = (.over o, { s with backend := .memory v }) ∧
      v.Still w.clock none ∧ (o = none → x) := by
  obtain ⟨v, o, hadvance, hv, hx⟩ := h.over_underRequest hf h.still
  have hnone := Option.map_eq_none_iff (x := o) (f := fun r => (r.map give).mapError Refusal.account)
  exact ⟨_, v, request_eq h.backend give hadvance hv.orphans, hv, fun hn => hx (hnone.1 hn)⟩

theorem allocations (h : s.Ready set w) (day : Day) (count : Nat) :
    ∃ (os : List (Option (Except AllocError Identifier))) (v : World),
      s.backend.run (List.replicate count (s.allocation day)) = (os.map .over, .memory v) ∧
      v.Still w.clock none ∧ none ∉ os := by
  have hone : ∀ f ∈ List.replicate count (s.allocation day),
      ∀ v, v.Still w.clock none → f.Over v w.clock False := by
    intro f hf v hv
    rw [List.eq_of_mem_replicate hf]
    exact h.over_underRequest
      (fun ctx u hu => Allocator.over_allocate hu h.sane h.grace_le ctx day) hv
  obtain ⟨os, v, hs, hv, hx⟩ := Flow.straight_of_over h.still hone
  exact ⟨os, v, by rw [h.backend, Backend.run_memory hs], hv, hx⟩

theorem batch (h : s.Ready set w) (day : Day) (count : Nat) :
    ∃ o v, s.batch day count = (.over o, { s with backend := .memory v }) ∧
      v.Still w.clock none ∧ (o = none → ¬ count < batchLimit) := by
  unfold Server.batch allocateMany
  by_cases hn : count < batchLimit
  · obtain ⟨os, v, hrun, hv, -⟩ := h.allocations day count
    unfold allocation at hrun
    simp only [if_pos hn, hrun]
    cases gather (os.map .over) with
    | some ids =>
      exact ⟨some (.ok (.identifiers (Identifier.sort ids))), v, rfl, hv, fun hnone => by cases hnone⟩
    | none => exact ⟨some (.error (.account .internal)), v, rfl, hv, fun hnone => by cases hnone⟩
  · refine ⟨none, w, ?_, h.still, fun _ => hn⟩
    rw [if_neg hn, ← h.backend]
    rfl

theorem today_fits (h : s.Ready set w) (ht : w.clock.today? = none) :
    ¬ w.clock.wall + Instant.nanosPerDay ≤ Instant.max := by
  intro hfits
  have hsome := h.sane.isSome_today? hfits
  rw [ht] at hsome
  cases hsome

theorem allocate (h : s.Ready set w) (count : Nat) (day : Option String) :
    ∃ o v, s.execute (.allocate count day) = (.over o, { s with backend := .memory v }) ∧
      v.Still w.clock none ∧ (o = none → ¬ (Command.allocate count day).Fits set w.clock.wall) := by
  have hsame : s = { s with backend := .memory w } := by rw [← h.backend]
  have hclock : s.backend.clock = w.clock := by
    rw [h.backend]
    rfl
  unfold Server.execute
  cases day with
  | none =>
    cases hd : w.clock.today? with
    | none =>
      refine ⟨none, w, ?_, h.still, fun _ hfits => h.today_fits hd (Command.fits_today.1 hfits).2⟩
      simp only [hclock, hd]
      exact congrArg (Prod.mk _) hsame
    | some d =>
      obtain ⟨o, v, ho, hv, hx⟩ := h.batch d count
      refine ⟨o, v, ?_, hv, fun hn hfits => hx hn (Command.fits_today.1 hfits).1⟩
      simp only [hclock, hd, ho]
  | some text =>
    cases hd : Day.ofStamp text with
    | error fault =>
      refine ⟨some (.error (.badDay text fault)), w, ?_, h.still, fun hn => by cases hn⟩
      simp only [hd]
      exact congrArg (Prod.mk _) hsame
    | ok d =>
      obtain ⟨o, v, ho, hv, hx⟩ := h.batch d count
      exact ⟨o, v, by simp only [hd, ho], hv, hx⟩

theorem execute (h : s.Ready set w) (c : Command) :
    ∃ o v, s.execute c = (.over o, { s with backend := .memory v }) ∧ v.Still w.clock none ∧
      (o = none → ¬ c.Fits set w.clock.wall) := by
  have hfar : ¬ w.clock.wall + s.accounts.terms.refresh ≤ Instant.max →
      ¬ w.clock.wall + Span.ofSecs set.auth.refreshSecs.toNat ≤ Instant.max := by
    rw [h.refresh]
    exact id
  cases c with
  | register =>
    exact h.request _ fun ctx v hv => Accounts.over_register hv h.sane h.grace_le h.today_fits
  | login subject =>
    exact h.request _ fun ctx v hv => Accounts.over_login hv h.sane s.accounts ⟨subject⟩ hfar
  | verify token => exact h.request _ fun ctx v hv => Accounts.over_authenticate hv token
  | logout token => exact h.request _ fun ctx v hv => Accounts.over_logout hv token
  | refresh token =>
    exact h.request _ fun ctx v hv => Accounts.over_refresh hv h.sane s.accounts token hfar
  | allocate count day => exact h.allocate count day
  | shell =>
    refine ⟨some (.error .nestedShell), w, ?_, h.still, fun hn => by cases hn⟩
    rw [← h.backend]
    rfl

theorem advance (h : s.Ready set w) {d : Span} (hd : s.backend.clock.wall + d ≤ Instant.max) :
    (s.advance d).Ready set (w.setNow (w.now + d)) := by
  rw [h.backend] at hd
  obtain ⟨hafter, hsane⟩ := h.sane.later hd
  have hbackend : (s.advance d).backend = .memory (w.setNow (w.now + d)) := by
    have hmoved := Backend.advance_memory w d
    rw [World.now, hafter] at hmoved
    simp only [Server.advance, h.backend, hmoved]
    rfl
  exact ⟨hbackend, h.still.setNow _, hsane, h.refresh, h.grace, h.timeout⟩

theorem withSignals (h : s.Ready set w) (signals : Signals) :
    ({ s with backend := s.backend.withSignals signals } : Server).Ready set
      { w with signals := signals } where
  backend := by rw [h.backend]; rfl
  still := h.still.counted w.minted w.tickets signals
  sane := h.sane
  refresh := h.refresh
  grace := h.grace
  timeout := h.timeout

theorem reached {s₀ : Server} (h : s₀.Ready set w) (hs : s₀.Reached s) : ∃ v, s.Ready set v := by
  induction hs with
  | start => exact ⟨w, h⟩
  | @execute s _ c ih =>
    obtain ⟨v, hv⟩ := ih
    obtain ⟨o, u, ho, hu, -⟩ := hv.execute c
    rw [ho]
    exact ⟨u, hv.next hu⟩
  | advance _ hd ih =>
    obtain ⟨v, hv⟩ := ih
    exact ⟨_, hv.advance hd⟩
  | shutdown _ ih =>
    obtain ⟨v, hv⟩ := ih
    exact ⟨_, hv.withSignals _⟩
  | context _ ht ih =>
    obtain ⟨v, hv⟩ := ih
    unfold requestContext? at ht
    obtain ⟨⟨ctx, signals⟩, -, ht⟩ := Option.map_eq_some_iff.1 ht
    cases ht
    exact ⟨_, hv.withSignals _⟩

theorem login_crashed (h : s.Ready set w) (subject : String)
    (hfar : ¬ (Command.login subject).Fits set w.clock.wall) :
    (s.execute (.login subject)).1 = .crashed := by
  have hbeyond : ¬ w.clock.wall + s.accounts.terms.refresh ≤ Instant.max := by
    rw [h.refresh]
    exact hfar
  -- The expiries are told before the context is asked for the first time.
  have hadvance : ∃ v, (s.underRequest fun ctx => (s.accounts.login ctx ⟨subject⟩).run).advance w =
      (v, .over none) ∧ v.orphans = [] := by
    unfold underRequest
    rw [Flow.advance]
    cases s.root.child w.signals w.now s.timeout with
    | none => exact ⟨w, rfl, h.still.orphans⟩
    | some r =>
      have hv := h.still.counted w.minted w.tickets r.2
      exact ⟨_, Accounts.login_crashes hv h.sane ⟨subject⟩ hbeyond, h.still.orphans⟩
  obtain ⟨v, hv, ho⟩ := hadvance
  exact congrArg Prod.fst (request_eq h.backend Output.pair hv ho)

end Ready

/-- As long as the calendar reaches what a command has to date, there is an answer, and none of the
requests of a batch crashes. A login beyond that has no answer. -/
theorem execute_answers {set : Settings} {site : Site} {s₀ s : Server} {sent : List Redis.Request}
    (hm : set.store.backend = "memory") (hstart : start set site = (.ok s₀, sent))
    (hc : site.clock.Sane) (hs : s₀.Reached s) :
    (∀ c : Command, c.Fits set s.backend.clock.wall → ∃ r, (s.execute c).1 = .finished r) ∧
    (∀ day count, ∀ e ∈ (s.backend.run (List.replicate count (s.allocation day))).1,
      ∃ r, e = .finished r) ∧
    ∀ subject, ¬ (Command.login subject).Fits set s.backend.clock.wall →
      (s.execute (.login subject)).1 = .crashed := by
  obtain ⟨w, hw⟩ := ready_start hm hstart hc
  obtain ⟨v, hv⟩ := hw.reached hs
  refine ⟨fun c hfits => ?_, fun day count e he => ?_, fun subject hfar => ?_⟩
  · obtain ⟨o, u, ho, -, hx⟩ := hv.execute c
    cases o with
    | none =>
      rw [hv.backend] at hfits
      exact absurd hfits (hx rfl)
    | some r => exact ⟨r, by rw [ho]; rfl⟩
  · obtain ⟨os, u, hrun, -, hnone⟩ := hv.allocations day count
    rw [hrun] at he
    obtain ⟨o, ho, rfl⟩ := List.mem_map.1 he
    cases o with
    | none => exact absurd ho hnone
    | some r => exact ⟨r, rfl⟩
  · rw [hv.backend] at hfar
    exact hv.login_crashed subject hfar

/-- Settings whose refresh tokens outlive the calendar. -/
def unbounded : Settings where
  auth := ⟨"fake", 900, 18446744073709551615⟩
  lock := ⟨8000, 4000, 10, 500⟩
  logFilter := "off"
  timeout := 100
  sequence := ⟨"user-id-sequence", "user"⟩
  store := ⟨"memory", "redis://127.0.0.1:1", ""⟩

def newYearSite : Site where
  clock := ⟨1577836800000000000, .utc, 0⟩
  ids n := toString n
  peer := none
  jitter _ := 0

theorem newYearSite_sane : newYearSite.clock.Sane :=
  ⟨by decide, by decide, ⟨by decide, fun d hd => by cases hd⟩⟩

theorem execute_answers_unbounded : ∃ s₀, start unbounded newYearSite = (.ok s₀, []) ∧
    (s₀.execute (.login "u")).1 = .crashed ∧
    ∃ r, ((s₀.execute (.login "u")).2.execute (.allocate 3 none)).1 = .finished r := by
  have hm : unbounded.store.backend = "memory" := rfl
  refine ⟨_, rfl, ?_, ?_⟩
  · exact (execute_answers hm rfl newYearSite_sane .start).2.2 "u" (by decide +kernel)
  · exact (execute_answers hm rfl newYearSite_sane (.execute .start (.login "u"))).1 _
      (by decide +kernel)

end Server

end Registrar
