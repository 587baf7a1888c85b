import Registrar.Proofs.Service.Barred
import Registrar.Proofs.Service.VisitLog
set_option autoImplicit false

namespace Registrar

namespace Flow

variable {α β ε δ : Type} {w u : World}

theorem Yields.of_bind {f : Flow α} {k : α → Flow β} {b : β} (h : (f.bind k).Yields w u b) :
    ∃ v a, f.Yields w v a ∧ (k a).Yields v u b := by
  unfold Yields at *
  rcases advance_bind f k w with ⟨v, a, hf, hbind⟩ | ⟨v, -, hbind⟩ | ⟨-, hbind⟩
  · exact ⟨v, a, hf, hbind.symm.trans h⟩
  · cases hbind.symm.trans h
  · rw [h] at hbind
    cases hbind

theorem Yields.run_of_bind {x : ExceptT ε Flow α} {k : α → ExceptT ε Flow β} {b : β}
    (h : (x >>= k).run.Yields w u (.ok b)) :
    ∃ v a, x.run.Yields w v (.ok a) ∧ (k a).run.Yields v u (.ok b) := by
  obtain ⟨v, r, hx, hk⟩ := Yields.of_bind h
  cases r with
  | error e => cases hk
  | ok a => exact ⟨v, a, hx, hk⟩

theorem Yields.of_adapt {x : ExceptT ε Flow α} {f : ε → δ} {a : α}
    (h : (x.adapt f).run.Yields w u (.ok a)) : x.run.Yields w u (.ok a) := by
  obtain ⟨v, r, hx, hk⟩ := Yields.of_bind h
  cases r with
  | error e => cases hk
  | ok b =>
    cases hk
    exact hx

end Flow

theorem World.attend_unheld {w : World} {ctx : Context} (hf : w.faults = .none)
    (hl : ctx.interruption? w.signals w.now = none) (ticket : Nat) (lapse : Tick) {c : StoreCall}
    (hp : w.store.perform w.now c = none) :
    w.attend ticket lapse (.under ctx) (.store c) .fresh = (w.record (.store c), .crashed) := by
  have hb := before_under (α := (Call.store c).Answer) hl
  have hperform : (w.record (.store c)).perform ticket (.store c) =
      (w.record (.store c), .crashed) := by
    have hrecorded : (w.record (.store c)).store.perform (w.record (.store c)).now c = none := hp
    simp only [perform, hrecorded]
  have hwork := (work_of_none hf ticket (.store c)).trans hperform
  simp only [attend, hb, hwork]

namespace Tokens

variable {w v : World} {ctx : Context}

theorem advance_unheld (hw : w.Healthy) (hl : w.Live ctx) {c : StoreCall}
    (hp : w.store.perform w.now c = none) : ((ask ctx c).run.advance w).2 = .crashed := by
  have hattend := World.attend_unheld (w := { w with tickets := w.tickets + 1 }) hw.faults hl w.tickets
    (w.lapse (.under ctx)) hp
  simp only [ask, ExceptT.run_mk, Flow.advance, hattend]

theorem ask_answered (hw : w.Healthy) {c : StoreCall} {a : c.Answer}
    (h : (ask ctx c).run.Yields w v (.ok a)) :
    w.Live ctx ∧ ∃ s, w.store.perform w.now c = some (.ok a, s) ∧ v = w.stored c s := by
  cases hl : ctx.interruption? w.signals w.now with
  | some i =>
    obtain ⟨x, hx, -⟩ := (barred_ask c).advance hl
    cases h.symm.trans hx
  | none =>
    refine ⟨hl, ?_⟩
    cases hp : w.store.perform w.now c with
    | none =>
      have hcrash := advance_unheld hw hl hp
      rw [Flow.Yields] at h
      rw [h] at hcrash
      cases hcrash
    | some r =>
      obtain ⟨e | b, s⟩ := r
      · cases h.symm.trans (yields_ask hw hl hp)
      · cases h.symm.trans (yields_ask hw hl hp)
        exact ⟨s, rfl, rfl⟩

theorem set_answered (hw : w.Healthy) {key value : String} {ttl : Span} {written : Bool}
    (h : (ask ctx (.set key value ttl)).run.Yields w v (.ok written)) :
    w.Live ctx ∧ w.Serves v 0 ∧ (w.now.after? ttl).isSome = true := by
  obtain ⟨hl, s, hp, rfl⟩ := ask_answered hw h
  refine ⟨hl, ?_⟩
  cases ht : w.now.after? ttl with
  | none => simp [Store.perform, hw.available, Store.set, hw.accepting, ht] at hp
  | some dies =>
    obtain ⟨x, hx, hserves, -⟩ := yields_set hw hl key value (Option.isSome_of_eq_some ht)
    cases h.symm.trans hx
    exact ⟨hserves, rfl⟩

theorem record_answered (hw : w.Healthy) {subject : Subject} {p : TokenPair}
    (h : (record ctx subject p).run.Yields w v (.ok ())) :
    w.Live ctx ∧ (w.now.after? (w.clock.wall.untilInstant p.refreshExpiry)).isSome = true := by
  obtain ⟨_, _, ht, h⟩ := Flow.Yields.run_of_bind h
  cases ht
  obtain ⟨x, _, hfirst, h⟩ := Flow.Yields.run_of_bind h
  obtain ⟨_, _, hsecond, -⟩ := Flow.Yields.run_of_bind h
  obtain ⟨hl, hserves, -⟩ := set_answered hw hfirst
  obtain ⟨-, -, htick⟩ := set_answered (hw.serves hserves) hsecond
  rw [hserves.now] at htick
  exact ⟨hl, htick⟩

end Tokens

theorem Instant.lt_floor {t e : Instant} {d : Span} (h : t.after? d = some e)
    (hd : Span.ofMillis 1 ≤ d) : t < e.floor := by
  have hcut : ∀ t d : Int, 1000000 ≤ d → t < (t + d) / 1000000 * 1000000 := by
    intro t d hd
    omega
  rw [(check?_inRange h).1]
  exact hcut t d (Int.ofNat_le.2 hd)

namespace World

variable {w v : World} {subject : Subject} {p : TokenPair}

structure Current (w : World) (subject : Subject) (p : TokenPair) : Prop where
  formed : p.Formed subject
  accessAhead : w.clock.wall < p.accessExpiry.floor
  refreshAhead : w.clock.wall < p.refreshExpiry.floor
  access : w.store.peek w.now p.accessId = some subject.name
  refresh : w.store.peek w.now p.refreshId = some subject.name

theorem Current.serves {n : Nat} (h : w.Current subject p) (hserves : w.Serves v n)
    (hreads : w.store.Reads w.now v.store) : v.Current subject p where
  formed := h.formed
  accessAhead := by
    rw [hserves.clock]
    exact h.accessAhead
  refreshAhead := by
    rw [hserves.clock]
    exact h.refreshAhead
  access := by
    rw [Store.peek, hserves.now, hreads _ _ (Nat.le_refl _)]
    exact h.access
  refresh := by
    rw [Store.peek, hserves.now, hreads _ _ (Nat.le_refl _)]
    exact h.refresh

theorem Current.admits (h : w.Current subject p) (hn : subject.name ≠ "") :
    w.admits p.accessToken = .ok ⟨p.accessId, p.refreshId, subject⟩ := by
  rw [admits_of_formed h.formed,
    if_pos ⟨fun he => hn (String.toList_eq_nil_iff.1 he), h.accessAhead, h.access⟩]

theorem Current.renews (h : w.Current subject p) (hn : subject.name ≠ "") :
    w.renews p.refreshToken = .ok ⟨p.refreshId, subject, p.refreshExpiry.floor⟩ := by
  rw [renews_of_formed h.formed,
    if_pos ⟨fun he => hn (String.toList_eq_nil_iff.1 he), h.refreshAhead, h.refresh⟩]

theorem Current.issue {terms : Terms} {ea er : Instant} {s : Store} {n : Nat}
    (hr : w.Reaches terms ea er) (hinj : Function.Injective w.ids)
    (hbare : ∀ n, Plain.Bare (w.ids n)) (hmilli : Span.ofMillis 1 ≤ terms.access)
    (hserves : w.Serves v n) (hreads : (w.issue terms subject s).Reads w.now v.store) :
    v.Current subject (Accounts.pair subject (w.ids w.minted) (w.ids (w.minted + 1)) ea er) := by
  have hne : w.ids w.minted ≠ w.ids (w.minted + 1) := fun he => Nat.ne_add_one _ (hinj he)
  have hrefresh : Span.ofMillis 1 ≤ terms.refresh :=
    Nat.le_trans hmilli (Nat.le_of_lt terms.access_lt)
  have halive : ∀ {d : Span}, Span.ofMillis 1 ≤ d →
      Entry.live w.now ⟨subject.name, some (w.now + d)⟩ = true := fun hd =>
    decide_eq_true (Nat.lt_add_of_pos_right (Nat.lt_of_lt_of_le (by decide) hd))
  refine ⟨.mk (hbare _) (hbare _) (Instant.check?_inRange hr.access).2
    (Instant.check?_inRange hr.refresh).2, ?_, ?_, ?_, ?_⟩
  · rw [hserves.clock]
    exact Instant.lt_floor hr.access hmilli
  · rw [hserves.clock]
    exact Instant.lt_floor hr.refresh hrefresh
  · change v.store.peek v.now (w.ids w.minted) = some subject.name
    rw [Store.peek, hserves.now, hreads _ _ (Nat.le_refl _), Sessions.Mirrored.find?_issue,
      if_neg hne, if_pos rfl, Option.filter_some, if_pos (halive hmilli)]
    rfl
  · change v.store.peek v.now (w.ids (w.minted + 1)) = some subject.name
    rw [Store.peek, hserves.now, hreads _ _ (Nat.le_refl _), Sessions.Mirrored.find?_issue,
      if_pos rfl, Option.filter_some, if_pos (halive hrefresh)]
    rfl

end World

theorem VisitLog.yields_of_outcome {s : VisitLog} {v : Visit} {r : v.Yield}
    (h : s.outcome v = .done r) :
    ∃ w, v.flow.Yields s.world w r :=
  ⟨_, Prod.ext rfl h⟩

namespace Accounts

variable {w v : World} {ctx : Context} {a : Accounts} {subject : Subject} {p : TokenPair}

theorem expiry_answered {t : Clock} {ttl : Span} {e : Instant}
    (h : (expiry t ttl).run.Yields w v (.ok e)) : v = w ∧ t.wall.after? ttl = some e := by
  unfold expiry at h
  split at h
  · rename_i e' he
    cases h
    exact ⟨rfl, he⟩
  · cases h

theorem mint_answered {id : String} (h : mint.run.Yields w v (.ok id)) :
    v = w.mint.2 ∧ id = w.ids w.minted := by
  cases h
  exact ⟨rfl, rfl⟩

theorem login_reaches (hw : w.Healthy) (h : (a.login ctx subject).run.Yields w v (.ok p)) :
    w.Live ctx ∧ ∃ ea er, w.Reaches a.terms ea er := by
  obtain ⟨_, _, ht, h⟩ := Flow.Yields.run_of_bind h
  cases ht
  obtain ⟨x, _, hm, h⟩ := Flow.Yields.run_of_bind h
  obtain ⟨rfl, rfl⟩ := mint_answered hm
  obtain ⟨x, _, hm, h⟩ := Flow.Yields.run_of_bind h
  obtain ⟨rfl, rfl⟩ := mint_answered hm
  obtain ⟨x, ea, hea, h⟩ := Flow.Yields.run_of_bind h
  obtain ⟨rfl, haccess⟩ := expiry_answered hea
  obtain ⟨x, er, her, h⟩ := Flow.Yields.run_of_bind h
  obtain ⟨rfl, hrefresh⟩ := expiry_answered her
  obtain ⟨_, _, hrecord, -⟩ := Flow.Yields.run_of_bind h
  have hminted := (World.Serves.mint w).trans (World.Serves.mint w.mint.2)
  obtain ⟨hl, htick⟩ := Tokens.record_answered (hw.serves hminted) hrecord.of_adapt
  refine ⟨hl, ea, er, haccess, hrefresh, ?_⟩
  rw [← Instant.untilInstant_after hrefresh]
  exact htick

/-- What a pair can be used for at this moment: its access token, and its refresh token, which is
exchanged for a pair with other identifiers. -/
structure Usable (a : Accounts) (w : World) (subject : Subject) (p : TokenPair) : Prop where
  authenticates : ∀ ctx, w.Live ctx → ∃ v,
    (authenticate ctx p.accessToken).run.Yields w v (.ok ⟨p.accessId, p.refreshId, subject⟩) ∧
      v.clock = w.clock ∧ v.Current subject p
  refreshes : ∀ ctx, w.Live ctx → ∃ v q,
    (a.refresh ctx p.refreshToken).run.Yields w v (.ok q) ∧ v.clock = w.clock ∧
      v.Current subject q ∧
      q.accessId ∉ [p.accessId, p.refreshId] ∧ q.refreshId ∉ [p.accessId, p.refreshId]

theorem usable_of_current (hw : w.Healthy) (hinj : Function.Injective w.ids)
    (hbare : ∀ n, Plain.Bare (w.ids n)) (hmilli : Span.ofMillis 1 ≤ a.terms.access)
    {ea er : Instant} (hr : w.Reaches a.terms ea er) (hn : subject.name ≠ "")
    (hp : w.Current subject p)
    (hnew : ∀ n, w.minted ≤ n → w.ids n ∉ [p.accessId, p.refreshId]) : a.Usable w subject p where
  authenticates ctx hl := by
    obtain ⟨v, hv, hserves, hreads⟩ := yields_authenticate hw hl p.accessToken
    rw [hp.admits hn] at hv
    exact ⟨v, hv, hserves.clock, hp.serves hserves hreads⟩
  refreshes ctx hl := by
    obtain ⟨v, hv, hserves, hreads⟩ := yields_refresh hw hl a hr (hp.renews hn)
    exact ⟨v, _, hv, hserves.clock, .issue hr hinj hbare hmilli hserves hreads,
      hnew _ (Nat.le_refl _), hnew _ (Nat.le_succ _)⟩

/-- A pair that a login has come to can be used at the same moment. -/
theorem login_usable (hw : w.Healthy) (hinj : Function.Injective w.ids)
    (hbare : ∀ n, Plain.Bare (w.ids n)) (hmilli : Span.ofMillis 1 ≤ a.terms.access)
    (hn : subject.name ≠ "") (h : (a.login ctx subject).run.Yields w v (.ok p)) :
    v.clock = w.clock ∧ a.Usable v subject p := by
  obtain ⟨hl, ea, er, hr⟩ := login_reaches hw h
  obtain ⟨x, hx, hserves, hstore⟩ := yields_login hw hl a subject hr
  cases h.symm.trans hx
  have hids := hserves.ids
  have hminted := hserves.minted
  have hcurrent : v.Current subject (pair subject (w.ids w.minted) (w.ids (w.minted + 1)) ea er) :=
    .issue hr hinj hbare hmilli hserves (s := w.store) (by rw [hstore]; exact .refl _ _)
  refine ⟨hserves.clock, usable_of_current (hw.serves hserves) (hids ▸ hinj) (hids ▸ hbare) hmilli
    (hr.serves hserves) hn hcurrent ?_⟩
  intro n hle hmem
  rw [hids] at hmem
  rcases List.mem_pair.1 hmem with he | he
  · have hk := hinj he
    omega
  · have hk := hinj he
    omega

section

open Crowd (alice unending firstPair)

theorem login_usable_alice : ∃ v,
    (Accounts.brief.login unending alice).run.Yields .numbered v (.ok firstPair) ∧
      v.clock = World.numbered.clock ∧ Accounts.brief.Usable v alice firstPair := by
  obtain ⟨v, h⟩ := VisitLog.yields_of_outcome VisitLog.outcome_arrival
  exact ⟨v, h, login_usable VisitLog.numbered_healthy World.numbered_injective World.numbered_bare
    (by decide) (by decide) h⟩

theorem login_not_usable : ∃ v p,
    (Accounts.brief.login unending ⟨""⟩).run.Yields .numbered v (.ok p) ∧
      v.clock = World.numbered.clock ∧ v.Live unending ∧
      (∃ u, (authenticate unending p.accessToken).run.Yields v u (.error .unauthorized)) ∧
      ∃ u, (Accounts.brief.refresh unending p.refreshToken).run.Yields v u
        (.error .unauthorized) := by
  have hr : World.numbered.Reaches Accounts.brief.terms (1577836860 * Instant.nanosPerSec)
      (1577840400 * Instant.nanosPerSec) :=
    ⟨by decide +kernel, by decide +kernel, by decide +kernel⟩
  have hw := VisitLog.numbered_healthy
  obtain ⟨v, hv, hserves, hstore⟩ := yields_login hw (VisitLog.live_unending _) .brief ⟨""⟩ hr
  have hreads : (World.numbered.issue brief.terms ⟨""⟩ World.numbered.store).Reads
      World.numbered.now v.store := by
    rw [hstore]
    exact .refl _ _
  have hcurrent := World.Current.issue hr World.numbered_injective World.numbered_bare (by decide)
    hserves hreads
  refine ⟨v, _, hv, hserves.clock, VisitLog.live_unending _, ?_, ?_⟩
  · obtain ⟨u, hu, -⟩ := yields_authenticate (hw.serves hserves) (VisitLog.live_unending _) _
    rw [World.admits_of_formed hcurrent.formed, if_neg fun h => h.1 rfl] at hu
    exact ⟨u, hu⟩
  · have hrefused := World.renews_of_formed (w := v) hcurrent.formed
    rw [if_neg fun h => h.1 rfl] at hrefused
    obtain ⟨u, hu, -⟩ := yields_refresh_refused (hw.serves hserves) (VisitLog.live_unending _) .brief
      hrefused
    exact ⟨u, hu⟩

end

end Accounts

end Registrar
