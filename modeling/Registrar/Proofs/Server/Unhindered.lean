import Registrar.Proofs.Mint.GapFree
import Registrar.Proofs.Mint.Leak
import Registrar.Proofs.Server.Sound
/-!
Requests that nothing hinders: no time passes, nothing is cancelled, and the adapters answer. Main
statement: a look takes such a request a step nearer to its success, unless it stands in line for a
lock that is not offered to it (`Place.proceeds`).
-/
set_option autoImplicit false

namespace Registrar

namespace Store

variable {s t : Store} {now : Tick} {key : String} {ttl : Span}

theorem expire_of_isSome (s : Store) (key : String) (h : (now.after? ttl).isSome = true) :
    ∃ b t, s.expire now key ttl = some (b, t) := by
  cases hf : s.find? now key with
  | none => exact ⟨false, s, by simp only [expire, hf]⟩
  | some e => exact ⟨true, _, expire_of_live hf h⟩

theorem incr_lives {n : Int} (hcount : s.count? now key = some n) (hmax : n < Numeral.maxInt64) :
    ((s.incr now key).2.find? now key).isSome = true := by
  have hlive := s.counter_live now key
  rw [incr_of_lt hcount hmax, find?_put, if_pos rfl]
  simp only [Entry.live] at hlive
  simp [Option.filter, Entry.live, hlive]

theorem expire_lives {b : Bool} (hpos : 0 < ttl) (h : s.expire now key ttl = some (b, t))
    (hlive : (s.find? now key).isSome = true) : (t.find? now key).isSome = true := by
  obtain ⟨e, he⟩ := Option.isSome_iff_exists.1 hlive
  simp only [expire, he] at h
  obtain ⟨dies, hdies, hr⟩ := Option.map_eq_some_iff.1 h
  cases hr
  have hlater : now < dies := by
    rw [Tick.eq_of_after? hdies]
    exact Nat.lt_add_of_pos_right hpos
  simp [find?_put, Option.filter, Entry.live, hlater]

end Store

namespace World

variable {w v : World} {ticket : Nat} {g : Guard} {c : Call} {ctx : Context} {limit : Option Tick}
  {keys : String → Prop}

theorem attend_served (lapse : Tick) (hf : w.faults = .none)
    (hb : (w.before g : Option (g.Outcome c.Answer)) = none) {a : c.Answer}
    (hp : (w.record c).perform ticket c = (v, .answered a)) :
    w.attend ticket lapse g c .fresh = (v, .concluded (g.answered a)) ∧
      w.served ticket g c .fresh = some a := by
  have hwork := (work_of_none hf ticket c).trans hp
  refine ⟨attend_answered lapse hb hwork, ?_⟩
  simp [served, hb, workServed, inEarnest, hf, Faults.take_none, Fault.passes, hwork,
    Progress.answer?]

theorem attend_pending (lapse : Tick) (hf : w.faults = .none) (hl : w.Live ctx) {q : Phase c}
    (hp : (w.record c).perform ticket c = (v, .pending q)) :
    w.attend ticket lapse (.under ctx) c .fresh = (v, .pending q) ∧
      w.served ticket (.under ctx) c .fresh = none := by
  have hb := before_under (α := c.Answer) hl
  have hwork := (work_of_none hf ticket c).trans hp
  constructor
  · simp only [attend, hb, hwork]
    rfl
  · simp [served, hb, workServed, hwork, Progress.answer?]

theorem await_patient (ticket : Nat) (name : String) (direct : Bool)
    (hlimit : ∀ due ∈ limit, w.now < due) :
    (∃ v token, w.await ticket name direct limit = (v, .answered (.ok token))) ∨
      w.await ticket name direct limit = (w, .pending (.queued limit)) ∧
        (w.locks.find name).seat ≠ .offered ticket := by
  by_cases hs : (w.locks.find name).seat = .offered ticket
  · left
    simp only [await, Locks.collect, if_pos hs]
    exact ⟨_, _, rfl⟩
  · have hearly : limit.any (· ≤ w.now) = false := by
      cases limit with
      | none => rfl
      | some due => simpa using hlimit due rfl
    refine .inr ⟨?_, hs⟩
    simp only [await, Locks.collect, if_neg hs, hearly]
    rfl

theorem perform_lock_patient (ticket : Nat) (name : String) (direct : Bool)
    (havail : w.locks.available = true)
    (hpatience : ∀ length ∈ w.locks.patience, 0 < length) :
    (∃ v token, w.perform ticket (.lock name direct) = (v, .answered (.ok token))) ∨
      ∃ v limit, w.perform ticket (.lock name direct) = (v, .pending (.queued limit)) ∧
        ∀ due ∈ limit, w.now < due := by
  have hterms := w.locks.onTerms_enter name ticket
  simp only [perform, havail, if_true]
  split
  · exact .inl ⟨_, _, rfl⟩
  · rename_i ls hls
    rw [hls] at hterms
    have hlimit : ∀ due ∈ ls.patience.map w.now.after, w.now < due := by
      intro due hdue
      obtain ⟨length, hlength, rfl⟩ := Option.map_eq_some_iff.1 hdue
      exact Tick.lt_after _ (hpatience length (hterms.2 ▸ hlength))
    have hwait := await_patient (w := { w with locks := ls }) ticket name direct hlimit
    rcases hwait with ⟨v, token, h⟩ | ⟨h, -⟩
    · exact .inl ⟨v, token, h⟩
    · exact .inr ⟨_, _, h, hlimit⟩

theorem Live.keeps (hl : w.Live ctx) (h : w.Keeps keys v) : v.Live ctx := by
  rw [Live, Context.interruption?, ctx.isCancelled_congr h.fired, h.now]
  exact hl

/-- A world in which nothing is in the way of the requests under a root. -/
structure Unhindered (a : Allocator) (root : Context) (timeout : Span) (w : World) : Prop where
  rooted : w.Rooted root
  isCancelled : root.isCancelled w.signals = false
  timeout_pos : 0 < timeout
  deadline : (w.now.after? timeout).isSome = true
  sane : w.clock.Sane
  grace_pos : 0 < a.grace
  grace_le : a.grace ≤ Instant.max
  available : w.locks.available = true
  patience : ∀ length ∈ w.locks.patience, 0 < length

theorem Unhindered.keeps {a : Allocator} {root : Context} {timeout : Span}
    (hw : w.Unhindered a root timeout) (h : w.Keeps keys v) : v.Unhindered a root timeout where
  rooted := hw.rooted.keeps h
  isCancelled := (root.isCancelled_congr h.fired).trans hw.isCancelled
  timeout_pos := hw.timeout_pos
  deadline := h.now ▸ hw.deadline
  sane := h.clock ▸ hw.sane
  grace_pos := hw.grace_pos
  grace_le := hw.grace_le
  available := h.terms.1.trans hw.available
  patience := h.terms.2 ▸ hw.patience

end World

theorem Call.spares_none (c : Call) : c.Spares fun _ => False := by
  cases c with
  | store call => cases call <;> simp [Spares]
  | _ => trivial

/-- How many looks an allocation needs, from this call on, if it does not have to wait in line. -/
def Call.toGo : Call → Nat
  | .lock _ _ => 11
  | .store (.incr _) => 8
  | .store _ => 5
  | .unlock _ => 3
  | .pause _ => 1

theorem Call.toGo_pos (c : Call) : 0 < c.toGo := by
  unfold toGo
  split <;> decide

theorem Call.toGo_le (c : Call) : c.toGo ≤ 11 := by
  unfold toGo
  split <;> decide

def Flow.toGo {α : Type} : Flow α → Nat
  | .request _ _ _ => 12
  | .call _ c _ _ => c.toGo
  | .now _ => 6
  | .done _ => 1
  | .mint _ | .crash => 0

theorem Flow.toGo_le {α : Type} (f : Flow α) : f.toGo ≤ 12 := by
  cases f with
  | call g c held k => exact Nat.le_succ_of_le c.toGo_le
  | _ => simp [toGo]

namespace Activity

variable {α : Type} {w v : World} {i ticket : Nat} {lapse now : Tick} {g : Guard} {c : Call}
  {held : Option Held} {k : g.Outcome c.Answer → Flow α}

def toGo : Activity α → Nat
  | .fresh f => f.toGo
  | .waiting _ _ _ c _ _ p => if p.isQueued then c.toGo - 2 else c.toGo - 1
  | .done _ | .crashed => 0

theorem toGo_le (act : Activity α) : act.toGo ≤ 12 := by
  cases act with
  | fresh f => exact f.toGo_le
  | waiting ticket lapse g c held k p =>
    simp only [toGo]
    split <;> exact Nat.le_trans (Nat.sub_le _ _) (Nat.le_succ_of_le c.toGo_le)
  | _ => simp [toGo]

/-- An activity that has not crashed and has time left to wait in its line. -/
inductive Patient (now : Tick) : Activity α → Prop where
  | fresh (f : Flow α) : Patient now (.fresh f)
  | called (ticket : Nat) (lapse : Tick) (g : Guard) (c : Call) (held : Option Held)
      (k : g.Outcome c.Answer → Flow α) : Patient now (.waiting ticket lapse g c held k .fresh)
  | queued {ticket : Nat} {lapse : Tick} {g : Guard} {name : String} {direct : Bool}
      {held : Option Held} {k : g.Outcome (Call.lock name direct).Answer → Flow α}
      {limit : Option Tick} (hlimit : ∀ due ∈ limit, now < due) :
      Patient now (.waiting ticket lapse g (.lock name direct) held k (.queued limit))
  | done (r : α) : Patient now (.done r)

theorem Patient.at_call {act : Activity α} (hact : act.Patient now)
    (hr : act.rest = .call g c held k) :
    act = .fresh (.call g c held k) ∨
      (∃ ticket lapse, act = .waiting ticket lapse g c held k .fresh) ∨
      ∃ ticket lapse limit, (∃ name direct, c = .lock name direct) ∧
        act = .waiting ticket lapse g c held k (.queued limit) ∧ ∀ due ∈ limit, now < due := by
  cases hact with
  | fresh f => exact .inl (congrArg _ hr)
  | called ticket lapse =>
    cases hr
    exact .inr (.inl ⟨ticket, lapse, rfl⟩)
  | @queued ticket lapse _ name direct _ _ limit hlimit =>
    cases hr
    exact .inr (.inr ⟨ticket, lapse, limit, ⟨name, direct, rfl⟩, rfl, hlimit⟩)
  | done r => cases hr

/-- An activity on which a look has no effect. -/
def Stuck (w : World) (act : Activity α) : Prop :=
  act.inFlight = false ∨
    ∃ name ticket, act.QueuesFor name ticket ∧ (w.locks.find name).seat ≠ .offered ticket

theorem look_concluded {p : Phase c} {o : g.Outcome c.Answer}
    (h : w.attend ticket lapse g c p = (v, .concluded o)) :
    (Activity.waiting ticket lapse g c held k p).look w = (v, .fresh (k o)) := by
  simp only [look, h]

end Activity

namespace Place

variable {a : Allocator} {root ctx : Context} {timeout : Span} {day : Day} {w v : World} {i : Nat}
  {p : Place} {act : Activity (Except AllocError Identifier)} {keys : String → Prop}

/-- Where an allocation can stand that nothing has hindered. -/
inductive Smooth (a : Allocator) (root : Context) (timeout : Span) (day : Day) (w : World) :
    Place → Prop where
  | opening : Smooth a root timeout day w (.opening root timeout day)
  | queuing {ctx : Context} (hl : w.Live ctx) : Smooth a root timeout day w (.queuing ctx day)
  | counting {ctx : Context} {token : LockToken} (hl : w.Live ctx) :
      Smooth a root timeout day w (.counting ctx day token)
  | timing {ctx : Context} {token : LockToken} {n : Nat} (hl : w.Live ctx) :
      Smooth a root timeout day w (.timing ctx day token n)
  | renewing {ctx : Context} {token : LockToken} {n : Nat} (hl : w.Live ctx) :
      Smooth a root timeout day w (.renewing ctx day token n (a.counterTtl w.clock day))
  | releasing {token : LockToken} {n : Nat} : Smooth a root timeout day w (.releasing day token (.ok n))
  | ended {n : Nat} : Smooth a root timeout day w (.ended (.ok ⟨day, n⟩))

theorem Smooth.keeps (hs : p.Smooth a root timeout day w) (h : w.Keeps keys v) :
    p.Smooth a root timeout day v := by
  cases hs with
  | opening => exact .opening
  | queuing hl => exact .queuing (hl.keeps h)
  | counting hl => exact .counting (hl.keeps h)
  | timing hl => exact .timing (hl.keeps h)
  | renewing hl => exact h.clock ▸ .renewing (hl.keeps h)
  | releasing => exact .releasing
  | ended => exact .ended

/-- What a look at an unhindered allocation comes to: it goes on from one place to another, and is a
step nearer to its end unless there is nothing that it can do. -/
structure Proceeds (a : Allocator) (root : Context) (timeout : Span) (day : Day) (i : Nat)
    (w : World) (act : Activity (Except AllocError Identifier)) (p q : Place) : Prop where
  smooth : q.Smooth a root timeout day (act.look w).1
  rest : (act.look w).2.rest = q.flow a
  passage : ∀ P L, Passage P a i w L p (act.servedCall i w) q []
  patient : (act.look w).2.Patient w.now
  keeps : w.Keeps (fun _ => False) (act.look w).1
  orphans : (act.look w).1.orphans = w.orphans
  lapses : act.lapses w = false
  nearer : (act.look w).2.toGo < act.toGo ∨
    act.Stuck w ∧ act.look w = (w, act) ∧ act.servedCall i w = none

section

variable {P : Answers} {ticket : Nat} {lapse : Tick} {g : Guard} {c : Call} {held : Option Held}
  {k : g.Outcome c.Answer → Flow (Except AllocError Identifier)}

theorem proceeds_called (hs : p.Smooth a root timeout day w) (hp : p.flow a = .call g c held k) :
    Proceeds a root timeout day i w (.fresh (.call g c held k)) p p where
  smooth := by
    have hkeeps : w.Keeps (fun _ => False) { w with tickets := w.tickets + 1 } := .counted w _
    exact hs.keeps hkeeps
  rest := hp.symm
  passage _ _ := .still p
  patient := .called ..
  keeps := .counted w (w.tickets + 1)
  orphans := rfl
  lapses := rfl
  nearer := by
    have hlt : c.toGo - 1 < c.toGo := Nat.sub_one_lt_of_lt c.toGo_pos
    exact .inl hlt

theorem proceeds_served {r : Phase c} {q : Place} {b : c.Answer}
    (hat : (Activity.waiting ticket lapse g c held k r).Attended P w)
    (hattend : w.attend ticket lapse g c r = (v, .concluded (g.answered b)))
    (hserved : w.served ticket g c r = some b) (hkeeps : w.Keeps (fun _ => False) v)
    (hk : k (g.answered b) = q.flow a) (hs : q.Smooth a root timeout day w)
    (hgo : (q.flow a).toGo < (Activity.waiting ticket lapse g c held k r).toGo)
    (hpass : ∀ P L d, Told P i w d c b → Passage P a i w L p d q []) :
    Proceeds a root timeout day i w (.waiting ticket lapse g c held k r) p q := by
  have hlook : (Activity.waiting ticket lapse g c held k r).look w = (v, .fresh (k (g.answered b))) :=
    Activity.look_concluded hattend
  have horphans : v.orphans = w.orphans := by
    have hsteady := World.Attended.steady hat
    rw [hattend] at hsteady
    exact hsteady.orphans
  have hd : (Activity.waiting ticket lapse g c held k r).servedCall i w =
      some ⟨some i, c, b, w.now⟩ := by
    simp only [Activity.servedCall, hserved]
    rfl
  refine ⟨?_, ?_, fun P L => hpass P L _ (.inl hd), ?_, ?_, ?_, ?_, .inl ?_⟩ <;>
    simp only [hlook, Activity.lapses, hserved]
  · exact hs.keeps hkeeps
  · exact hk
  · exact .fresh _
  · exact hkeeps
  · exact horphans
  · simp
  · rw [hk]
    exact hgo

theorem proceeds_answered {q : Place} {b : c.Answer} (hw : w.Unhindered a root timeout)
    (hat : (Activity.waiting ticket lapse g c held k .fresh).Attended P w)
    (hb : (w.before g : Option (g.Outcome c.Answer)) = none)
    (hp : (w.record c).perform ticket c = (v, .answered b)) (hk : k (g.answered b) = q.flow a)
    (hs : q.Smooth a root timeout day w) (hgo : (q.flow a).toGo < c.toGo - 1)
    (hpass : ∀ P L d, Told P i w d c b → Passage P a i w L p d q []) :
    Proceeds a root timeout day i w (.waiting ticket lapse g c held k .fresh) p q := by
  obtain ⟨hattend, hserved⟩ := World.attend_served lapse hw.rooted.healthy.faults hb hp
  have hlooked := World.looked_attend hw.rooted.healthy.faults ticket lapse g c
  rw [hattend] at hlooked
  exact proceeds_served hat hattend hserved (hlooked.keeps (c.spares_none)) hk hs hgo hpass

end

theorem proceeds_opening (hw : w.Unhindered a root timeout) :
    ∃ q, Proceeds a root timeout day i w (.fresh ((Place.opening root timeout day).flow a))
      (.opening root timeout day) q := by
  obtain ⟨ctx, signals, hchild, hlive⟩ :=
    hw.rooted.child_live hw.isCancelled hw.timeout_pos hw.deadline
  have hlook : (Activity.fresh ((Place.opening root timeout day).flow a)).look w =
      ({ w with signals := signals }, .fresh (a.allocate ctx day)) := by
    simp only [flow, Activity.look, hchild]
  refine ⟨.queuing ctx day, ?_, ?_, fun _ _ => .opened, ?_, ?_, ?_, rfl, .inl ?_⟩ <;> rw [hlook]
  · exact .queuing hlive
  · rfl
  · exact .fresh _
  · exact .child hchild
  · exact Nat.lt_succ_self 11

theorem proceeds_timing {token : LockToken} {n : Nat} (hl : w.Live ctx) :
    Proceeds a root timeout day i w (.fresh ((Place.timing ctx day token n).flow a))
      (.timing ctx day token n) (.renewing ctx day token n (a.counterTtl w.clock day)) where
  smooth := .renewing hl
  rest := rfl
  passage _ _ := .timed
  patient := .fresh _
  keeps := .refl w
  orphans := rfl
  lapses := rfl
  nearer := .inl (Nat.lt_succ_self 5)

theorem proceeds_stuck (hr : act.rest = p.flow a) (hs : p.Smooth a root timeout day w)
    (hact : act.Patient w.now) (hlook : act.look w = (w, act)) (hd : act.servedCall i w = none)
    (hlapses : act.lapses w = false) (hstuck : act.Stuck w) :
    Proceeds a root timeout day i w act p p := by
  refine ⟨?_, ?_, fun _ _ => hd ▸ .still p, ?_, ?_, ?_, hlapses, .inr ⟨hstuck, hlook, hd⟩⟩ <;>
    rw [hlook]
  · exact hs
  · exact hr
  · exact hact
  · exact .refl w

theorem proceeds_ended {n : Nat} (hr : act.rest = .done (.ok ⟨day, n⟩)) (hact : act.Patient w.now) :
    Proceeds a root timeout day i w act (.ended (.ok ⟨day, n⟩)) (.ended (.ok ⟨day, n⟩)) := by
  cases hact with
  | fresh f =>
    cases hr
    exact ⟨.ended, rfl, fun _ _ => .still _, .done _, .refl w, rfl, rfl, .inl Nat.zero_lt_one⟩
  | done r =>
    cases hr
    exact proceeds_stuck rfl .ended (.done _) rfl rfl rfl (.inl rfl)
  | called => cases hr
  | queued => cases hr

theorem proceeds_joined {P : Answers} {ticket : Nat} {lapse : Tick} {limit : Option Tick}
    (hw : w.Unhindered a root timeout) (hl : w.Live ctx)
    (hat : (Activity.waiting ticket lapse (.under ctx) (.lock a.lockName false) none
      (a.afterLock ctx day) .fresh).Attended P w)
    (hp : (w.record (.lock a.lockName false)).perform ticket (.lock a.lockName false) =
      (v, .pending (.queued limit))) (hlimit : ∀ due ∈ limit, w.now < due) :
    Proceeds a root timeout day i w (.waiting ticket lapse (.under ctx) (.lock a.lockName false) none
      (a.afterLock ctx day) .fresh) (.queuing ctx day) (.queuing ctx day) := by
  obtain ⟨hattend, hserved⟩ :=
    World.attend_pending lapse hw.rooted.healthy.faults hl hp
  have hlooked := World.looked_attend hw.rooted.healthy.faults ticket lapse (.under ctx)
    (.lock a.lockName false)
  have hsteady := World.Attended.steady hat
  rw [hattend] at hlooked hsteady
  have hkeeps := hlooked.keeps (Call.spares_none _)
  have hsmooth : (Place.queuing ctx day).Smooth a root timeout day w := .queuing hl
  have hd : (Activity.waiting ticket lapse (.under ctx) (.lock a.lockName false) none
      (a.afterLock ctx day) .fresh).servedCall i w = none := by
    simp only [Activity.servedCall, hserved]
    rfl
  refine ⟨?_, ?_, fun _ _ => hd ▸ .still _, ?_, ?_, ?_, rfl, .inl ?_⟩ <;>
    simp only [Activity.look, hattend]
  · exact hsmooth.keeps hkeeps
  · rfl
  · exact .queued hlimit
  · exact hkeeps
  · exact hsteady.orphans
  · exact Nat.lt_succ_self 9

theorem proceeds_waiting {P : Answers} {ticket : Nat} {lapse : Tick} {limit : Option Tick}
    (hl : w.Live ctx)
    (hat : (Activity.waiting ticket lapse (.under ctx) (.lock a.lockName false) none
      (a.afterLock ctx day) (.queued limit)).Attended P w) (hlimit : ∀ due ∈ limit, w.now < due) :
    ∃ q, Proceeds a root timeout day i w (.waiting ticket lapse (.under ctx) (.lock a.lockName false)
      none (a.afterLock ctx day) (.queued limit)) (.queuing ctx day) q := by
  have hb : (w.before (.under ctx) : Option ((Guard.under ctx).Outcome
      (Call.lock a.lockName false).Answer)) = none := World.before_under hl
  rcases World.await_patient ticket a.lockName false hlimit with
    ⟨v, token, h⟩ | ⟨h, hseat⟩
  · have hlooked := World.looked_await (c := .lock a.lockName false) w ticket a.lockName false limit
    rw [h] at hlooked
    refine ⟨.counting ctx day token, proceeds_served hat ?_ ?_ (hlooked.keeps (Call.spares_none _))
      rfl (.counting hl) (Nat.lt_succ_self 8) fun _ _ _ hd => .locked hd⟩
    · simp only [World.attend, hb, World.work, h]
    · simp [World.served, hb, World.workServed, World.inEarnest, World.work, h, Progress.answer?]
  · refine ⟨.queuing ctx day, proceeds_stuck rfl (.queuing hl) (.queued hlimit) ?_ ?_ rfl
      (.inr ⟨a.lockName, ticket, ⟨rfl, ⟨false, rfl⟩, rfl⟩, hseat⟩)⟩
    · simp only [Activity.look, World.attend, hb, World.work, h]
      rfl
    · simp [Activity.servedCall, World.served, hb, World.workServed, World.work, h, Progress.answer?]

theorem proceeds_queuing {P : Answers} (hw : w.Unhindered a root timeout)
    (hr : act.rest = (Place.queuing ctx day).flow a) (hact : act.Patient w.now)
    (hat : act.Attended P w) (hl : w.Live ctx) :
    ∃ q, Proceeds a root timeout day i w act (.queuing ctx day) q := by
  rcases hact.at_call hr with rfl | ⟨ticket, lapse, rfl⟩ | ⟨ticket, lapse, limit, -, rfl, hlimit⟩
  · exact ⟨_, proceeds_called (.queuing hl) rfl⟩
  · have hlocks := (World.Alike.record w (.lock a.lockName false)).locks
    have hperform := World.perform_lock_patient (w := w.record (.lock a.lockName false)) ticket
      a.lockName false (hlocks ▸ hw.available) (hlocks ▸ hw.patience)
    rcases hperform with ⟨v, token, hp⟩ | ⟨v, limit, hp, hlimit⟩
    · exact ⟨.counting ctx day token, proceeds_answered hw hat (World.before_under hl) hp rfl
        (.counting hl) (Nat.lt_succ_of_lt (Nat.lt_succ_self 8)) fun _ _ _ hd => .locked hd⟩
    · exact ⟨_, proceeds_joined hw hl hat hp hlimit⟩
  · exact proceeds_waiting hl hat hlimit

theorem proceeds_counting {P : Answers} {token : LockToken} {n : Nat}
    (hw : w.Unhindered a root timeout) (hr : act.rest = (Place.counting ctx day token).flow a)
    (hact : act.Patient w.now) (hat : act.Attended P w) (hl : w.Live ctx)
    (hcount : w.store.count? w.now (a.counterKey day) = some (n : Int))
    (hmax : (n : Int) < Numeral.maxInt64) :
    ∃ q, Proceeds a root timeout day i w act (.counting ctx day token) q := by
  rcases hact.at_call hr with rfl | ⟨ticket, lapse, rfl⟩ | ⟨_, _, _, ⟨_, _, hc⟩, -⟩
  · exact ⟨_, proceeds_called (.counting hl) rfl⟩
  · have hs : ∃ s, w.store.perform w.now (.incr (a.counterKey day)) =
        some (.ok (((n + 1 : Nat) : Int)), s) := by
      simp only [Store.perform, hw.rooted.healthy.available, if_true, Store.incr_of_lt hcount hmax]
      exact ⟨_, rfl⟩
    obtain ⟨s, hs⟩ := hs
    exact ⟨.timing ctx day token ((n + 1 : Nat) : Int), proceeds_answered hw hat
      (World.before_under hl) (World.perform_store ticket hs) rfl (.timing hl) (Nat.lt_succ_self 6)
      fun _ _ _ hd => .counted hd⟩
  · cases hc

theorem proceeds_renewing {P : Answers} {token : LockToken} {n : Nat}
    (hw : w.Unhindered a root timeout)
    (hr : act.rest = (Place.renewing ctx day token n (a.counterTtl w.clock day)).flow a)
    (hact : act.Patient w.now) (hat : act.Attended P w) (hl : w.Live ctx) :
    ∃ q, Proceeds a root timeout day i w act
      (.renewing ctx day token n (a.counterTtl w.clock day)) q := by
  rcases hact.at_call hr with rfl | ⟨ticket, lapse, rfl⟩ | ⟨_, _, _, ⟨_, _, hc⟩, -⟩
  · exact ⟨_, proceeds_called (.renewing hl) rfl⟩
  · have httl := hw.sane.isSome_after?_of_le (hw.sane.counterTtl_le hw.grace_le day)
    obtain ⟨b, s, hexpire⟩ := w.store.expire_of_isSome (a.counterKey day) httl
    have hs : w.store.perform w.now (.expire (a.counterKey day) (a.counterTtl w.clock day)) =
        some (.ok b, s) := by
      simp only [Store.perform, hw.rooted.healthy.available, if_true, World.now, hexpire,
        Option.map_some]
    have hnumber : a.number day n = .ok n := by simp [Allocator.number]
    refine ⟨.releasing day token (.ok n), proceeds_answered hw hat (World.before_under hl)
      (World.perform_store ticket hs) ?_ .releasing (Nat.lt_succ_self 3) fun _ _ _ hd => ?_⟩
    · rw [← hnumber]
      rfl
    · rw [← hnumber]
      exact .renewed hd
  · cases hc

theorem proceeds_releasing {P : Answers} {token : LockToken} {n : Nat}
    (hw : w.Unhindered a root timeout) (hr : act.rest = (Place.releasing day token (.ok n)).flow a)
    (hact : act.Patient w.now) (hat : act.Attended P w) (hheld : w.locks.Holds token) :
    ∃ q, Proceeds a root timeout day i w act (.releasing day token (.ok n)) q := by
  rcases hact.at_call hr with rfl | ⟨ticket, lapse, rfl⟩ | ⟨_, _, _, ⟨_, _, hc⟩, -⟩
  · exact ⟨_, proceeds_called .releasing rfl⟩
  · have hfound : (w.locks.unlock token).1 = true := (Locks.unlock_found ..).2 hheld
    have hp : ∃ v, (w.record (.unlock token)).perform ticket (.unlock token) =
        (v, .answered (.ok true)) := by
      rw [← hfound]
      exact ⟨_, rfl⟩
    obtain ⟨v, hp⟩ := hp
    exact ⟨.ended (.ok ⟨day, n⟩), proceeds_answered hw hat rfl hp rfl .ended (Nat.lt_succ_self 1)
      fun _ _ _ hd => .released hd⟩
  · cases hc

/-- What a look at an unhindered allocation can do to the store: its counter stays alive, and the other
entries are as they were. -/
theorem tends {P : Answers} {L : Prop} {q : Place} (hw : w.Unhindered a root timeout)
    (hs : p.Smooth a root timeout day w) (hat : act.Attended P w)
    (hpass : Passage P a i w L p (act.servedCall i w) q [])
    (hcount : p.early = true → ∃ n : Nat,
      w.store.count? w.now (a.counterKey day) = some (n : Int) ∧ (n : Int) < Numeral.maxInt64) :
    (∀ key, key ≠ a.counterKey day →
      (act.look w).1.store.entries.get? key = w.store.entries.get? key) ∧
    ((w.store.find? w.now (a.counterKey day)).isSome = true →
      ((act.look w).1.store.find? w.now (a.counterKey day)).isSome = true) := by
  rcases Activity.look_store (i := i) hat with ⟨hsame, -⟩ | ⟨c, b, s, hd, hp, hlook⟩
  · rw [hsame]
    exact ⟨fun _ _ => rfl, id⟩
  · have hcall := (hpass.servedCall hd).2.2
    have havail := hw.rooted.healthy.available
    rw [hlook]
    cases hs with
    | @counting ctx token hl =>
      obtain ⟨n, hn, hmax⟩ := hcount rfl
      cases hcall
      refine ⟨fun key hkey => Store.get?_perform_of_not_mem hp fun h =>
        hkey (List.mem_singleton.1 h), fun _ => ?_⟩
      simp only [Store.perform, havail, if_true] at hp
      obtain rfl : (w.store.incr w.now (a.counterKey day)).2 = s :=
        congrArg Prod.snd (Option.some.inj hp)
      exact Store.incr_lives hn hmax
    | @renewing ctx token n hl =>
      cases hcall
      refine ⟨fun key hkey => Store.get?_perform_of_not_mem hp fun h =>
        hkey (List.mem_singleton.1 h), fun hlive => ?_⟩
      simp only [Store.perform, havail, if_true] at hp
      obtain ⟨⟨b, t⟩, hexpire, hr⟩ := Option.map_eq_some_iff.1 hp
      cases hr
      exact Store.expire_lives (a.counterTtl_pos hw.grace_pos w.clock day) hexpire hlive
    | opening => cases hcall
    | queuing => cases hcall
    | timing => cases hcall
    | releasing => cases hcall
    | ended => cases hcall

/-- One look at an allocation that has come as far as this place, where the counter is not at its
last number, and a lock is held whose token it has. -/
theorem proceeds {P : Answers} (hw : w.Unhindered a root timeout) (hr : act.rest = p.flow a)
    (hs : p.Smooth a root timeout day w) (hact : act.Patient w.now) (hat : act.Attended P w)
    (hcount : p.early = true → ∃ n : Nat,
      w.store.count? w.now (a.counterKey day) = some (n : Int) ∧ (n : Int) < Numeral.maxInt64)
    (hheld : ∀ token ∈ p.token?, w.locks.Holds token) :
    ∃ q, Proceeds a root timeout day i w act p q := by
  cases hs with
  | opening =>
    rcases look_between hr (by simp [flow]) with rfl | ⟨hc, -⟩ | ⟨r, hc, -⟩
    · exact proceeds_opening hw
    · cases hc
    · cases hc
  | queuing hl => exact proceeds_queuing hw hr hact hat hl
  | counting hl =>
    obtain ⟨n, hcount, hmax⟩ := hcount rfl
    exact proceeds_counting hw hr hact hat hl hcount hmax
  | timing hl =>
    rcases look_between hr (by simp [flow, Allocator.afterIncr]) with rfl | ⟨hc, -⟩ | ⟨r, hc, -⟩
    · exact ⟨_, proceeds_timing hl⟩
    · cases hc
    · cases hc
  | renewing hl => exact proceeds_renewing hw hr hact hat hl
  | releasing => exact proceeds_releasing hw hr hact hat (hheld _ rfl)
  | ended => exact ⟨_, proceeds_ended hr hact⟩

end Place

end Registrar
