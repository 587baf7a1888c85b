import Registrar.Proofs.Crowd.Since
import Registrar.Proofs.Office.Rotation
import Registrar.Proofs.Register.History
set_option autoImplicit false

namespace Registrar

namespace Flow

variable {C : List Event → Call → Prop} {h : List Event}

theorem Kept.of_append {later : List Event} (hk : Kept C (later ++ h)) : Kept C h := by
  induction later with
  | nil => exact hk
  | cons e later ih =>
    cases e with
    | told d => exact ih hk.2
    | missed c => exact ih hk.2
    | _ => exact ih hk

theorem Kept.heard {more done : List ServedCall} {d : ServedCall} (hk : Kept C h)
    (hd : heard h = more ++ d :: done) :
    ∃ later earlier, h = later ++ .told d :: earlier ∧ Registrar.heard earlier = done ∧
      C earlier d.call := by
  obtain ⟨first, rest, rfl, -, hrest⟩ := List.filterMap_eq_append_iff.1 hd
  obtain ⟨skipped, e, earlier, rfl, -, he, hdone⟩ := List.filterMap_eq_cons_iff.1 hrest
  cases e with
  | told x =>
    cases he
    exact ⟨first ++ skipped, earlier, (List.append_assoc ..).symm, hdone, hk.of_append.of_append.1⟩
  | _ => cases he

end Flow

namespace Tokens

abbrev register : Trade := ⟨Job, Job.Yield, Job.flow⟩

inductive Job.May : Job → List Event → Call → Prop where
  | access {ctx : Context} {subject : Subject} {p : TokenPair} {u : Clock} :
      May (.record ctx subject p) [.read u]
        (.store (.set p.accessId subject.name (u.wall.untilInstant p.accessExpiry)))
  | refresh {ctx : Context} {subject : Subject} {p : TokenPair} {u : Clock} {d : Event} {b : Bool}
      (hd : d.Says (.set p.accessId subject.name (u.wall.untilInstant p.accessExpiry)) b) :
      May (.record ctx subject p) [d, .read u]
        (.store (.set p.refreshId subject.name (u.wall.untilInstant p.refreshExpiry)))
  | resolve {ctx : Context} {id : String} {h : List Event} :
      May (.resolve ctx id) h (.store (.get id))
  | revoke {ctx : Context} {access : Access} {id : String} {h : List Event} :
      May (.revoke ctx access) h (.store (.del [id]))
  | revokeOne {ctx : Context} {id : String} {h : List Event} :
      May (.revokeOne ctx id) h (.store (.del [id]))

theorem Job.May.adjusts {j : Job} {h : List Event} {c : StoreCall} (hm : j.May h (.store c)) :
    c.adjusts = [] := by
  cases hm <;> rfl

theorem Job.keeps (ids : Nat → String) (j : Job) :
    j.flow.Keeps sincere ids j.May (fun _ _ => True) [] := by
  cases j with
  | record ctx subject p =>
    exact keeps_record (fun _ => .access) (fun _ _ _ hd => .refresh hd) (fun _ _ _ _ _ => trivial)
      fun _ _ => trivial
  | resolve ctx id =>
    refine Flow.keeps_run_bind.2 (keeps_ask .resolve (fun e v _ => ?_) fun _ _ _ _ => trivial)
    cases v <;> trivial
  | revoke ctx access =>
    refine Flow.keeps_run_bind.2 (keeps_ask .revoke (fun d (m : Nat) _ => ?_) fun _ _ _ _ => trivial)
    refine Flow.keeps_run_bind.2 (keeps_ask .revoke (fun e (n : Nat) _ => ?_) fun _ _ _ _ => trivial)
    by_cases hmn : m = 1 ∧ n = 1
    · simp only [hmn]
      trivial
    · simp only [hmn]
      trivial
  | revokeOne ctx id => exact keeps_ask .revokeOne (fun _ _ _ => trivial) fun _ _ _ _ => trivial

end Tokens

namespace Crowd

section

variable {T : Trade} {s : Crowd T} {key : String}

theorem Lawful.rest {C : Crowd T → Move T → Prop} {moves more : List (Move T)}
    (h : s.Lawful C (moves ++ more)) : (s.play moves).Lawful C more := by
  induction moves generalizing s with
  | nil => exact h
  | cons m moves ih => exact ih h.2

theorem Ledger.find?_later (hl : s.Ledger key) {later : Tick} (hle : s.now ≤ later) :
    s.world.store.find? later key = (replay key s.log).filter (Entry.live later) := by
  rcases hl.entry with h | ⟨h, hr⟩
  · rw [Store.find?, h]
  · rw [Store.find?, h, Ledger.filter_later hle hr]
    rfl

/-- The entry under a key is the one that a served call has put in. -/
def Owns (s : Crowd T) (key : String) (d : ServedCall) : Prop :=
  ∃ later earlier, s.log = later ++ d :: earlier ∧ d.puts key = true ∧
    ∀ e ∈ later, e.mark? key = none

theorem Owns.replay {d : ServedCall} (hown : s.Owns key d) {value : String} {ttl : Span}
    (hcall : d.call = .store (.set key value ttl)) :
    replay key s.log = some ⟨value, some (d.time + ttl)⟩ := by
  obtain ⟨later, earlier, hlog, hput, hlast⟩ := hown
  obtain ⟨who, c, answer, time⟩ := d
  cases hcall
  rw [hlog, replay_append hlast, Registrar.replay]
  rcases answer with e | _ | _
  · cases hput
  · cases hput
  · simp [ServedCall.mark?, Call.mark?, StoreCall.mark?]

end

open Tokens (register Job)

variable {s t : Crowd register} {first : Nat} {trace : Nat → List Event} {m : Move register}
  {i : Nat} {key : String}

/-- The store makes up no answers but errors, and no stranger adjusts the entry under a key. -/
def Unadjusted (key : String) : Move register → Prop
  | .store c => key ∉ c.adjusts
  | .plan fs => fs.Within sincere
  | _ => True

theorem Chronicle.spared (hc : s.Chronicle sincere first trace) (hm : Unadjusted key m)
    {d : ServedCall}
    (hd : s.did m = some d) {c : StoreCall} (hcall : d.call = .store c) : key ∉ c.adjusts := by
  rcases (did_eq_some hd).2 with ⟨i, p, -, hi, hserved⟩ | ⟨-, ⟨c', rfl, hc'⟩ | ⟨token, -, hu⟩⟩
  · obtain ⟨-, -, g, held, k, hr⟩ := Activity.servedCall_eq_some hserved
    have hl := hc.calls hi hr
    obtain ⟨e, act⟩ := p
    cases e with
    | job j =>
      have hmay := ((j.keeps s.world.ids).leads hl).1
      rw [hcall] at hmay
      simp [hmay.adjusts]
    | release held =>
      have hunlock := ((Flow.keeps_release held).leads hl).1
      cases hunlock.symm.trans hcall
  · cases hc'.symm.trans hcall
    exact hm
  · cases hu.symm.trans hcall

theorem lawful_ledger {w : World} (hw : w.Calm) (hplan : w.faults.Within sincere)
    (hfresh : w.store.entries.get? key = none) {moves : List (Move register)}
    (h : (around w).Lawful (fun _ => Unadjusted key) moves) :
    ((around w).play moves).Orderly sincere ∧ ((around w).play moves).Ledger key := by
  have hrun := h.chronicle (I := Ledger key) (fun _ => trivial) (fun _ _ hs => hs) ?_ hw hplan
    (ledger_around hfresh)
  · exact ⟨hrun.1, hrun.2.2⟩
  · intro s m trace ho hc hm hl
    exact hl.act ho (fun _ => trivial) fun d hd c hcall => hc.spared hm hd hcall

/-- The writes of a request to record a pair, which writes the access half first. -/
inductive Wrote (s : Crowd register) (i : Nat) (p : TokenPair) :
    String → Instant → ServedCall → Prop where
  | access {d : ServedCall} {more : List ServedCall} (h : s.servedCalls i = more ++ [d]) :
      Wrote s i p p.accessId p.accessExpiry d
  | refresh {d e : ServedCall} {more : List ServedCall} (h : s.servedCalls i = more ++ [e, d]) :
      Wrote s i p p.refreshId p.refreshExpiry e

theorem Tells.wrote {began : Tick} {ctx : Context} {subject : Subject} {p : TokenPair}
    {h : List Event} (ht : s.Tells sincere began i (.job (T := register) (.record ctx subject p)) h)
    {expiry : Instant} {d : ServedCall} (hd : s.Wrote i p key expiry d) :
    ∃ u : Clock, began ≤ u.now ∧ u.origin = s.world.clock.origin ∧
      d.call = .store (.set key subject.name (u.wall.untilInstant expiry)) ∧
      began ≤ d.time ∧ d.time ≤ s.now := by
  obtain ⟨act, -, g, hl, -⟩ := ht.came
  have hk : Flow.Kept (Job.May (.record ctx subject p)) h :=
    ((Job.record ctx subject p).keeps s.world.ids).kept hl
  have hread : ∀ {u : Clock}, .read u ∈ h → began ≤ u.now ∧ u.origin = s.world.clock.origin :=
    fun hu => ⟨(ht.since _ hu _ rfl).1, ht.clock _ hu⟩
  have htold : ∀ {x : ServedCall}, .told x ∈ h → began ≤ x.time ∧ x.time ≤ s.now :=
    fun hx => ht.since _ hx _ rfl
  cases hd with
  | access hservedCalls =>
    obtain ⟨later, earlier, rfl, hdone, hmay⟩ := hk.heard (ht.servedCalls.trans hservedCalls)
    generalize hcall : d.call = c at hmay
    cases hmay with
    | @access _ _ _ u =>
      obtain ⟨hbegan, horigin⟩ := hread (u := u) (by simp)
      exact ⟨u, hbegan, horigin, rfl, htold (by simp)⟩
    | refresh hx =>
      obtain ⟨who, time, rfl⟩ := hx
      cases hdone
  | refresh hservedCalls =>
    obtain ⟨later, earlier, rfl, hdone, hmay⟩ := hk.heard (ht.servedCalls.trans hservedCalls)
    generalize hcall : d.call = c at hmay
    cases hmay with
    | access => cases hdone
    | @refresh _ _ _ u x b hx =>
      obtain ⟨hbegan, horigin⟩ := hread (u := u) (by simp)
      exact ⟨u, hbegan, horigin, rfl, htold (by simp)⟩

theorem not_live_late {origin : Instant} {expiry : Instant} {u : Clock} {began time later : Tick}
    (value : String) (horigin : u.origin = origin) (hbegan : began ≤ u.now) (htime : time ≤ later)
    (hdue : expiry + ((time : Int) - began) ≤ origin + later) :
    Entry.live later ⟨value, some (time + u.wall.untilInstant expiry)⟩ = false := by
  refine decide_eq_false ?_
  unfold Clock.wall Instant.untilInstant
  lia

/-- The entry of a half is gone as soon as the half has expired and the time has passed by which the
write came later than the request began. -/
theorem entry_lapses {w : World} (hw : w.Calm) (hplan : w.faults.Within sincere)
    (hfresh : w.store.entries.get? key = none) {early late : List (Move register)}
    (h : (around w).Lawful (fun _ => Unadjusted key) (early ++ late))
    (hs : (around w).play early = s) (ht : s.play late = t) {ctx : Context} {subject : Subject}
    {p : TokenPair} (hi : s.Poised i (.record ctx subject p)) {expiry : Instant} {d : ServedCall}
    (hd : t.Wrote i p key expiry d) (hown : t.Owns key d) :
    s.now ≤ d.time ∧
      (∀ later : Tick, t.now ≤ later →
        expiry + ((d.time : Int) - s.now) ≤ t.world.clock.origin + later →
          t.world.store.find? later key = none) ∧
      ∀ reader, t.world.Healthy → t.world.Live reader →
        expiry + ((d.time : Int) - s.now) ≤ t.world.clock.wall →
          ∃ v, (Tokens.resolve reader key).run.Yields t.world v (.error .notFound) := by
  have hledger : t.Ledger key := by
    have hrun := (lawful_ledger hw hplan hfresh h).2
    rwa [play_append, hs, ht] at hrun
  obtain ⟨trace, htells⟩ :
      ∃ h, t.Tells sincere s.now i (.job (T := register) (.record ctx subject p)) h := by
    have horder := (lawful_ledger hw hplan hfresh h.of_append).1
    rw [hs] at horder
    exact ht ▸ (hs ▸ h.rest).tells (fun _ => trivial) (fun _ _ hp => hp) horder hi
  obtain ⟨u, hbegan, horigin, hcall, hfirst, hpast⟩ := htells.wrote hd
  have hgone : ∀ later : Tick, t.now ≤ later →
      expiry + ((d.time : Int) - s.now) ≤ t.world.clock.origin + later →
        t.world.store.find? later key = none := by
    intro later hle hdue
    rw [hledger.find?_later hle, hown.replay hcall, Option.filter_some,
      not_live_late _ horigin hbegan (Nat.le_trans hpast hle) hdue]
    rfl
  refine ⟨hfirst, hgone, fun reader hwell hlive hdue => ?_⟩
  obtain ⟨v, hv, -⟩ := Tokens.yields_resolve hwell hlive key
  have hnone : t.world.store.find? t.world.now key = none := hgone t.now (Nat.le_refl _) hdue
  rw [Store.peek, hnone] at hv
  exact ⟨v, hv⟩

section

open TokenHistory (dawn unhindered minutes)

def sluggish : Faults := { Faults.none with set := [.delay (.ofSecs 10) .pass] }

theorem sluggish_sincere : sluggish.Within sincere := by
  intro c f hf a ha
  cases c with
  | store c =>
    cases c with
    | set key value ttl =>
      obtain rfl := List.mem_singleton.1 hf
      cases ha
    | _ => cases hf
  | _ => trivial

def applying : List (Move register) :=
  [.plan sluggish, .join (.record unhindered ⟨"alice"⟩ minutes)]

def recording : List (Move register) :=
  List.replicate 3 (.look 0) ++ .pass (.ofSecs 10) :: List.replicate 5 (.look 0)

theorem lawful_recording (key : String) :
    (around dawn).Lawful (fun _ => Unadjusted key) (applying ++ recording) := by
  simp [applying, recording, Lawful, Unadjusted, List.replicate, sluggish_sincere]

theorem poised_applying :
    ((around dawn).play applying).Poised 0 (.record unhindered ⟨"alice"⟩ minutes) :=
  ⟨rfl, rfl⟩

def accessWrite : ServedCall :=
  ⟨some 0, .store (.set "A" "alice" (.ofSecs 60)), .ok true, Span.ofSecs 10⟩

def refreshWrite : ServedCall :=
  ⟨some 0, .store (.set "R" "alice" (.ofSecs 600)), .ok true, Span.ofSecs 10⟩

theorem log_recording :
    (((around dawn).play applying).play recording).log = [refreshWrite, accessWrite] := by
  rfl

theorem entry_lapses_recording :
    (((around dawn).play applying).play recording).world.store.find? (Span.ofSecs 70) "A" = none := by
  have hservedCalls :
      (((around dawn).play applying).play recording).servedCalls 0 = [refreshWrite, accessWrite] := by
    rw [servedCalls, log_recording]
    rfl
  have hown : (((around dawn).play applying).play recording).Owns "A" accessWrite :=
    ⟨[refreshWrite], [], log_recording, by rfl, by decide⟩
  have hwrote : Wrote (((around dawn).play applying).play recording) 0 minutes "A"
      minutes.accessExpiry accessWrite :=
    Wrote.access (show _ = [refreshWrite] ++ [accessWrite] from hservedCalls)
  have h := entry_lapses (World.start_calm _ _ _) (Faults.within_none _) rfl (lawful_recording "A") rfl
    rfl poised_applying hwrote hown
  exact h.2.1 (Span.ofSecs 70) (by decide +kernel) (by decide +kernel)

theorem entry_outlives_token :
    ((around dawn).play (applying ++ recording)).parties[0]? =
        some ⟨.job (.record unhindered ⟨"alice"⟩ minutes), .done (.ok ())⟩ ∧
      minutes.accessExpiry ≤
        ((around dawn).play (applying ++ recording ++ [.pass (.ofSecs 50)])).world.clock.wall ∧
      ∃ v, (Tokens.resolve unhindered minutes.accessId).run.Yields
        ((around dawn).play (applying ++ recording ++ [.pass (.ofSecs 50)])).world v
        (.ok ⟨"alice"⟩) := by
  refine ⟨by rfl, by decide +kernel, ?_⟩
  have hwell : ((around dawn).play (applying ++ recording ++ [.pass (.ofSecs 50)])).world.Healthy :=
    ⟨by rfl, by rfl, by rfl⟩
  have hlive : ((around dawn).play (applying ++ recording ++ [.pass (.ofSecs 50)])).world.Live
      unhindered :=
    rfl
  have hpeek : ((around dawn).play (applying ++ recording ++ [.pass (.ofSecs 50)])).world.store.peek
      ((around dawn).play (applying ++ recording ++ [.pass (.ofSecs 50)])).world.now minutes.accessId =
        some "alice" := by
    decide +kernel
  obtain ⟨v, hv, -⟩ := Tokens.yields_resolve hwell hlive minutes.accessId
  rw [hpeek] at hv
  exact ⟨v, hv⟩

end

end Crowd

end Registrar
