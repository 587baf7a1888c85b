import Registrar.World
import Registrar.Proofs.Line
/-!
What one look at a call can come to. The adapter answers, or an answer is made up for it, or its
guard cuts it off, or it goes on waiting, or it crashes. Only an adapter's own answer changes the
store or who holds a lock; a call that waits for a lock may besides come into its line or leave it.
Main statement: `World.attend_attended`.
-/
set_option autoImplicit false

namespace Registrar

/-- Which answers may be made up for a call. -/
abbrev Answers := (c : Call) → c.Answer → Prop

namespace Fault

variable {α : Type}

def passes : Fault α → Bool
  | .pass => true
  | .delay length next => length == 0 && next.passes
  | .stall | .answer _ => false

def madeUp? : Fault α → Option α
  | .pass | .stall => none
  | .delay _ next => next.madeUp?
  | .answer a => some a

end Fault

namespace Faults

/-- The plan for calls of the same kind, as such a call meets it. -/
def plan (fs : Faults) : (c : Call) → List (Fault c.Answer)
  | .store (.set _ _ _) => fs.set
  | .store (.get _) => fs.get
  | .store (.del _) => fs.del
  | .store (.incr _) => fs.incr
  | .store (.expire _ _) => fs.expire
  | .lock name false => fs.lock.map (·.map fun a => a.map (⟨name, ·⟩))
  | .lock _ true => []
  | .unlock _ => fs.unlock
  | .pause _ => []

/-- A plan that makes up no other answers than these. -/
def Within (P : Answers) (fs : Faults) : Prop :=
  ∀ c, ∀ f ∈ fs.plan c, ∀ a, f.madeUp? = some a → P c a

theorem within_none (P : Answers) : none.Within P := by
  intro c f hf
  rcases c with ⟨c⟩ | ⟨_, _ | _⟩ | _ | _ <;> (try cases c) <;> cases hf

theorem take_fst (fs : Faults) (c : Call) : (fs.take c).1 = first (fs.plan c) := by
  cases c with
  | store c => cases c <;> rfl
  | lock name direct =>
    cases direct with
    | true => rfl
    | false => cases h : fs.lock <;> simp [take, plan, h, first, Fault.map]
  | unlock token => rfl
  | pause length => rfl

theorem take_none (c : Call) : none.take c = (.pass, none) := by
  cases c with
  | store call => cases call <;> rfl
  | lock name direct => cases direct <;> rfl
  | unlock token => rfl
  | pause length => rfl

theorem plan_take_subset (fs : Faults) (c d : Call) :
    ∀ f ∈ (fs.take c).2.plan d, f ∈ fs.plan d := by
  intro f hf
  rcases c with ⟨c⟩ | ⟨name, direct⟩ | token | length
  · cases c <;> rcases d with ⟨d⟩ | ⟨_, _ | _⟩ | _ | _ <;> (try cases d) <;>
      first | exact hf | exact List.mem_of_mem_tail hf
  · cases direct <;> rcases d with ⟨d⟩ | ⟨_, _ | _⟩ | _ | _ <;> (try cases d) <;>
      first | exact hf | exact List.mem_of_mem_tail (by simpa [plan, take] using hf)
  · rcases d with ⟨d⟩ | ⟨_, _ | _⟩ | _ | _ <;> (try cases d) <;>
      first | exact hf | exact List.mem_of_mem_tail hf
  · exact hf

theorem Within.rest {P : Answers} {fs : Faults} (h : fs.Within P) (c : Call) :
    (fs.take c).2.Within P :=
  fun d f hf => h d f (plan_take_subset fs c d f hf)

theorem Within.next {P : Answers} {fs : Faults} (h : fs.Within P) (c : Call) (a : c.Answer)
    (ha : (fs.take c).1.madeUp? = some a) : P c a := by
  rw [take_fst] at ha
  cases hp : fs.plan c with
  | nil => simp [hp, first, Fault.madeUp?] at ha
  | cons f rest =>
    rw [hp] at ha
    exact h c f (by simp [hp]) a ha

end Faults

namespace Phase

variable {c : Call}

def isQueued : Phase c → Bool
  | .queued _ => true
  | _ => false

def madeUp? : Phase c → Option c.Answer
  | .sleeping _ next => next.madeUp?
  | _ => none

end Phase

def Progress.answer? {c : Call} : Progress c → Option c.Answer
  | .answered a => some a
  | .pending _ | .crashed => none

namespace World

/-- Worlds in which no time has passed, no signal was given and nothing was abandoned. -/
structure Steady (w v : World) : Prop where
  clock : v.clock = w.clock
  signals : v.signals = w.signals
  ids : v.ids = w.ids
  minted : v.minted = w.minted
  tickets : v.tickets = w.tickets
  orphans : v.orphans = w.orphans

theorem Steady.now {w v : World} (h : Steady w v) : v.now = w.now := by
  rw [World.now, World.now, h.clock]

/-- Worlds that differ at most in their plans of faults and their records. -/
structure Alike (w v : World) : Prop extends Steady w v where
  store : v.store = w.store
  locks : v.locks = w.locks

namespace Alike

theorem refl (w : World) : Alike w w := ⟨⟨rfl, rfl, rfl, rfl, rfl, rfl⟩, rfl, rfl⟩

theorem trans {u v w : World} (h : Alike u v) (k : Alike v w) : Alike u w :=
  ⟨⟨k.clock.trans h.clock, k.signals.trans h.signals, k.ids.trans h.ids,
    k.minted.trans h.minted, k.tickets.trans h.tickets, k.orphans.trans h.orphans⟩,
    k.store.trans h.store, k.locks.trans h.locks⟩

theorem withLocks {w v : World} (h : Alike w v) (ls : Locks) :
    Alike { w with locks := ls } { v with locks := ls } :=
  ⟨⟨h.clock, h.signals, h.ids, h.minted, h.tickets, h.orphans⟩, h.store, rfl⟩

theorem withStore {w v : World} (h : Alike w v) (s : Store) :
    Alike { w with store := s } { v with store := s } :=
  ⟨⟨h.clock, h.signals, h.ids, h.minted, h.tickets, h.orphans⟩, rfl, h.locks⟩

theorem noteHolder (w : World) (h : Holder) : Alike w (w.noteHolder h) := by
  unfold World.noteHolder
  split <;> exact ⟨⟨rfl, rfl, rfl, rfl, rfl, rfl⟩, rfl, rfl⟩

theorem noteAnswer (w : World) (c : Call) (a : c.Answer) : Alike w (w.noteAnswer c a) := by
  unfold World.noteAnswer
  split
  · exact noteHolder w _
  · exact refl w

theorem record (w : World) (c : Call) : Alike w (w.record c) := by
  unfold World.record
  split <;> exact ⟨⟨rfl, rfl, rfl, rfl, rfl, rfl⟩, rfl, rfl⟩

end Alike

theorem before_under {α : Type} {w : World} {ctx : Context}
    (h : ctx.interruption? w.signals w.now = none) :
    (w.before (.under ctx) : Option ((Guard.under ctx).Outcome α)) = none := by
  rw [before, h]
  rfl

/-- Where no faults are planned, a call goes straight to its adapter. -/
theorem work_of_none {w : World} (hf : w.faults = .none) (ticket : Nat) (c : Call) :
    w.work ticket c .fresh = (w.record c).perform ticket c := by
  have hsame : ({ w with faults := .none } : World) = w := by rw [← hf]
  simp only [work, hf, Faults.take_none, undergo, hsame]

theorem attend_answered {w v : World} {ticket : Nat} {g : Guard} {c : Call} {a : c.Answer}
    (lapse : Tick) (hb : (w.before g : Option (g.Outcome c.Answer)) = none)
    (hwork : w.work ticket c .fresh = (v, .answered a)) :
    w.attend ticket lapse g c .fresh = (v, .concluded (g.answered a)) := by
  simp only [attend, hb, hwork]

theorem perform_store {w : World} (ticket : Nat) {c : StoreCall} {a : Except StoreError c.Answer}
    {s : Store} (hs : w.store.perform w.now c = some (a, s)) :
    (w.record (.store c)).perform ticket (.store c) =
      ({ w.record (.store c) with store := s }, .answered a) := by
  have hrecorded : (w.record (.store c)).store.perform (w.record (.store c)).now c = some (a, s) := hs
  simp only [perform, hrecorded]

theorem perform_lock {w : World} {name : String} (ticket : Nat) (direct : Bool)
    (hfree : (w.locks.find name).seat = .free) (havail : w.locks.available = true) :
    w.perform ticket (.lock name direct) =
      (({ w with locks := (w.locks.grant name).2 } : World).noteHolder (w.locks.grant name).1.holder,
        .answered (.ok (w.locks.grant name).1)) := by
  simp only [perform, havail, Locks.enter, hfree, if_true]

theorem attend_store {w : World} {ctx : Context} (hf : w.faults = .none)
    (hl : ctx.interruption? w.signals w.now = none) (ticket : Nat) (lapse : Tick) {c : StoreCall}
    {a : Except StoreError c.Answer} {s : Store} (hs : w.store.perform w.now c = some (a, s)) :
    w.attend ticket lapse (.under ctx) (.store c) .fresh =
      ({ w.record (.store c) with store := s }, .concluded (.ok a)) :=
  attend_answered lapse (before_under hl) ((work_of_none hf ticket _).trans (perform_store ticket hs))

/-- Whether the work on a call is now with its adapter, and not with a fault. -/
def inEarnest (w : World) (c : Call) : Phase c → Bool
  | .fresh => (w.faults.take c).1.passes
  | .sleeping due next => decide (due ≤ w.now) && next.passes
  | .stalled => false
  | .queued _ => true

/-- What the adapter itself answers when the work on a call is looked at. -/
def workServed (w : World) (ticket : Nat) (c : Call) (p : Phase c) : Option c.Answer :=
  if w.inEarnest c p then (w.work ticket c p).2.answer? else none

def served (w : World) (ticket : Nat) (g : Guard) (c : Call) (p : Phase c) : Option c.Answer :=
  match (w.before g : Option (g.Outcome c.Answer)) with
  | some _ => none
  | none => w.workServed ticket c p

/-- What an adapter's own answer does to the world. -/
inductive Served (w : World) (ticket : Nat) (queued : Bool) :
    (c : Call) → c.Answer → World → Prop where
  | store {c : StoreCall} {a : Except StoreError c.Answer} {s : Store} {v : World}
      (hs : w.store.perform w.now c = some (a, s)) (hv : Alike { w with store := s } v) :
      Served w ticket queued (.store c) a v
  | granted {name : String} {direct : Bool} {v : World}
      (hs : (w.locks.find name).seat = .free ∧ queued = false ∨
        (w.locks.find name).seat = .offered ticket)
      (hv : Alike { w with locks := (w.locks.grant name).2 } v) :
      Served w ticket queued (.lock name direct) (.ok (w.locks.grant name).1) v
  | late {name : String} {direct : Bool} {ls : Locks} {v : World}
      (hs : w.locks.Stirred name ticket queued false ls)
      (hv : Alike { w with locks := ls } v) :
      Served w ticket queued (.lock name direct) (.error (.timeout name)) v
  | unlocked {token : LockToken} {v : World}
      (hv : Alike { w with locks := (w.locks.unlock token).2 } v) :
      Served w ticket queued (.unlock token) (.ok (w.locks.unlock token).1) v
  | paused {v : World} (hv : Alike w v) : Served w ticket queued (.pause (some 0)) () v

def Stirred (w : World) (ticket : Nat) (c : Call) (before after : Bool) (v : World) : Prop :=
  match c with
  | .lock name _ =>
    ∃ ls, w.locks.Stirred name ticket before after ls ∧ Alike { w with locks := ls } v
  | .store _ | .unlock _ | .pause _ => Alike w v

inductive Worked (P : Answers) (w : World) (ticket : Nat) (c : Call) (p : Phase c) :
    World → Progress c → Option c.Answer → Prop where
  | served {a : c.Answer} {v : World} (h : w.Served ticket p.isQueued c a v) :
      Worked P w ticket c p v (.answered a) (some a)
  | madeUp {a : c.Answer} {v : World} (ha : P c a) (hq : p.isQueued = false) (hv : Alike w v) :
      Worked P w ticket c p v (.answered a) none
  | pending {q : Phase c} {v : World} (hq : ∀ a, q.madeUp? = some a → P c a)
      (hv : w.Stirred ticket c p.isQueued q.isQueued v) :
      Worked P w ticket c p v (.pending q) none
  | crashed {v : World} (hc : ∃ s, c = .store s) (hv : Alike w v) :
      Worked P w ticket c p v .crashed none

inductive Attended (P : Answers) (w : World) (ticket : Nat) (lapse : Tick) (g : Guard) (c : Call)
    (p : Phase c) : World → Turn g c → Option c.Answer → Prop where
  | served {a : c.Answer} {v : World} (h : w.Served ticket p.isQueued c a v) :
      Attended P w ticket lapse g c p v (.concluded (g.answered a)) (some a)
  | madeUp {a : c.Answer} {v : World} (ha : P c a) (hq : p.isQueued = false) (hv : Alike w v) :
      Attended P w ticket lapse g c p v (.concluded (g.answered a)) none
  | cutOff {o : g.Outcome c.Answer} {v : World}
      (ho : w.before g = some o ∨ w.after lapse g = some o)
      (hv : w.Stirred ticket c p.isQueued false v) :
      Attended P w ticket lapse g c p v (.concluded o) none
  | pending {q : Phase c} {v : World} (hq : ∀ a, q.madeUp? = some a → P c a)
      (hv : w.Stirred ticket c p.isQueued q.isQueued v) :
      Attended P w ticket lapse g c p v (.pending q) none
  | crashed {v : World} (hc : ∃ s, c = .store s) (hv : Alike w v) :
      Attended P w ticket lapse g c p v .crashed none

variable {P : Answers} {w : World} {ticket : Nat} {c : Call}

theorem Stirred.of_alike {v : World} (h : Alike w v) (b : Bool) : w.Stirred ticket c b b v := by
  cases c with
  | lock name direct => exact ⟨w.locks, .still b, h⟩
  | store c => exact h
  | unlock token => exact h
  | pause length => exact h

theorem Stirred.steady {v : World} {before after : Bool} (h : w.Stirred ticket c before after v) :
    Steady w v := by
  cases c with
  | lock name direct =>
    obtain ⟨ls, -, ha⟩ := h
    exact ⟨ha.clock, ha.signals, ha.ids, ha.minted, ha.tickets, ha.orphans⟩
  | store c => exact h.toSteady
  | unlock token => exact h.toSteady
  | pause length => exact h.toSteady

theorem Stirred.store {v : World} {before after : Bool} (h : w.Stirred ticket c before after v) :
    v.store = w.store := by
  cases c with
  | lock name direct =>
    obtain ⟨ls, -, ha⟩ := h
    exact ha.store
  | store c => exact Alike.store h
  | unlock token => exact Alike.store h
  | pause length => exact Alike.store h

theorem Served.steady {v : World} {queued : Bool} {a : c.Answer}
    (h : w.Served ticket queued c a v) : Steady w v := by
  cases h with
  | store hs hv => exact ⟨hv.clock, hv.signals, hv.ids, hv.minted, hv.tickets, hv.orphans⟩
  | granted hs hv => exact ⟨hv.clock, hv.signals, hv.ids, hv.minted, hv.tickets, hv.orphans⟩
  | late hs hv => exact ⟨hv.clock, hv.signals, hv.ids, hv.minted, hv.tickets, hv.orphans⟩
  | unlocked hv => exact ⟨hv.clock, hv.signals, hv.ids, hv.minted, hv.tickets, hv.orphans⟩
  | paused hv => exact hv.toSteady

theorem Attended.steady {lapse : Tick} {g : Guard} {p : Phase c} {v : World} {turn : Turn g c}
    {served : Option c.Answer} (h : Attended P w ticket lapse g c p v turn served) :
    Steady w v := by
  cases h with
  | served h => exact h.steady
  | madeUp ha hq hv => exact hv.toSteady
  | cutOff ho hv => exact hv.steady
  | pending hq hv => exact Stirred.steady hv
  | crashed hc hv => exact hv.toSteady

theorem undergo_of_passes (w : World) (ticket : Nat) (c : Call) {f : Fault c.Answer}
    (h : f.passes = true) : w.undergo ticket c f = w.perform ticket c := by
  induction f with
  | pass => rfl
  | stall => simp [Fault.passes] at h
  | delay length next ih =>
    simp only [Fault.passes, Bool.and_eq_true, beq_iff_eq] at h
    rw [undergo, if_pos h.1]
    exact ih h.2
  | answer a => simp [Fault.passes] at h

theorem undergo_worked {v : World} (hv : Alike w v) {p : Phase c} (hp : p.isQueued = false)
    {f : Fault c.Answer} (hf : ∀ a, f.madeUp? = some a → P c a) (h : f.passes = false) :
    Worked P w ticket c p (v.undergo ticket c f).1 (v.undergo ticket c f).2 none := by
  have still : ∀ q : Phase c, q.isQueued = false →
      w.Stirred ticket c p.isQueued q.isQueued v := by
    intro q hq
    rw [hp, hq]
    exact Stirred.of_alike hv false
  induction f with
  | pass => simp [Fault.passes] at h
  | stall => exact .pending (by simp [Phase.madeUp?]) (still _ rfl)
  | delay length next ih =>
    by_cases hl : length = 0
    · subst hl
      rw [undergo, if_pos rfl]
      exact ih hf (by simpa [Fault.passes] using h)
    · rw [undergo, if_neg hl]
      exact .pending hf (still _ rfl)
  | answer a => exact .madeUp (hf a rfl) hp (hv.trans (Alike.noteAnswer v c a))

theorem await_worked {v : World} {name : String} {direct : Bool} {p : Phase (.lock name direct)}
    {limit : Option Tick} {ls : Locks} (hv : Alike { w with locks := ls } v)
    (hs : w.locks.Stirred name ticket p.isQueued true ls)
    (hleft : w.locks.Stirred name ticket p.isQueued false (ls.leave name ticket))
    (hgrant : (ls.find name).seat = .offered ticket → ls = w.locks) :
    Worked P w ticket (.lock name direct) p (v.await ticket name direct limit).1
      (v.await ticket name direct limit).2
      (v.await ticket name direct limit).2.answer? := by
  have hl : v.locks = ls := hv.locks
  by_cases ho : (ls.find name).seat = .offered ticket
  · have he := hgrant ho
    subst he
    have ha : v.await ticket name direct limit =
        ({ v with locks := (w.locks.grant name).2 }.noteHolder (w.locks.grant name).1.holder,
          .answered (.ok (w.locks.grant name).1)) := by
      simp [await, Locks.collect, hl, ho]
    rw [ha]
    exact .served (.granted (.inr ho) ((hv.withLocks _).trans (Alike.noteHolder _ _)))
  · by_cases hd : limit.any (· ≤ v.now)
    · have ha : v.await ticket name direct limit =
          ({ v with locks := ls.leave name ticket }, .answered (.error (.timeout name))) := by
        simp only [await, Locks.collect, hl, if_neg ho]
        rw [if_pos hd]
      rw [ha]
      exact .served (.late hleft (hv.withLocks _))
    · have ha : v.await ticket name direct limit = (v, .pending (.queued limit)) := by
        simp only [await, Locks.collect, hl, if_neg ho]
        rw [if_neg hd]
      rw [ha]
      exact .pending (by simp [Phase.madeUp?]) ⟨ls, hs, hv⟩

theorem perform_worked {v : World} (hv : Alike w v) {p : Phase c} (hp : p.isQueued = false)
    (hout : ∀ name, ticket ∉ (w.locks.find name).line) (hP : ∀ length, P (.pause length) ()) :
    Worked P w ticket c p (v.perform ticket c).1 (v.perform ticket c).2
      (v.perform ticket c).2.answer? := by
  have still : ∀ q : Phase c, q.isQueued = false →
      w.Stirred ticket c p.isQueued q.isQueued v := by
    intro q hq
    rw [hp, hq]
    exact Stirred.of_alike hv false
  cases c with
  | store c =>
    rw [perform, hv.store, hv.now]
    cases hs : w.store.perform w.now c with
    | none => exact .crashed ⟨c, rfl⟩ hv
    | some r =>
      obtain ⟨a, s⟩ := r
      exact .served (.store hs (hv.withStore s))
  | lock name direct =>
    rw [perform, hv.locks]
    by_cases ha : w.locks.available
    · rw [if_pos ha]
      by_cases hf : (w.locks.find name).seat = .free
      · have he : w.locks.enter name ticket =
            (some (w.locks.grant name).1, (w.locks.grant name).2) := by
          simp [Locks.enter, hf]
        simp only [he]
        exact .served (.granted (.inl ⟨hf, hp⟩) ((hv.withLocks _).trans (Alike.noteHolder _ _)))
      · have he : w.locks.enter name ticket = (none, w.locks.join name ticket) := by
          simp [Locks.enter, hf, Locks.join]
        simp only [he]
        refine await_worked (hv.withLocks _) ?_ ?_ ?_
        · rw [hp]
          exact .joined hf
        · rw [hp]
          exact .brief hf
        · intro ho
          rw [(Locks.find_join w.locks name name ticket).1] at ho
          exact absurd (Lock.mem_line_of_offered ho) (hout name)
    · rw [if_neg ha]
      exact .pending (by simp [Phase.madeUp?]) (still _ rfl)
  | unlock token =>
    rw [perform, hv.locks]
    exact .served (.unlocked (hv.withLocks _))
  | pause length =>
    cases length with
    | none => exact .pending (by simp [Phase.madeUp?]) (still _ rfl)
    | some length =>
      by_cases hl : length = 0
      · subst hl
        exact .served (.paused hv)
      · rw [perform, if_neg hl]
        refine .pending (fun a ha => ?_) (still _ rfl)
        exact hP (some length)

theorem work_worked (hf : w.faults.Within P) {p : Phase c} (hp : ∀ a, p.madeUp? = some a → P c a)
    (hout : p.isQueued = false → ∀ name, ticket ∉ (w.locks.find name).line)
    (hP : ∀ length, P (.pause length) ()) :
    Worked P w ticket c p (w.work ticket c p).1 (w.work ticket c p).2
      (w.workServed ticket c p) := by
  cases p with
  | fresh =>
    have hnext := hf.next c
    rw [workServed, inEarnest, work]
    generalize w.faults.take c = taken at hnext ⊢
    obtain ⟨fault, faults⟩ := taken
    have hw : Alike w { w with faults := faults } := ⟨⟨rfl, rfl, rfl, rfl, rfl, rfl⟩, rfl, rfl⟩
    have hv := hw.trans (Alike.record _ c)
    by_cases he : fault.passes
    · simp only [if_pos he, undergo_of_passes _ _ _ he]
      exact perform_worked hv rfl (hout rfl) hP
    · rw [if_neg he]
      exact undergo_worked hv rfl hnext (by simpa using he)
  | sleeping due next =>
    by_cases hd : due ≤ w.now
    · rw [work, if_pos hd]
      by_cases he : next.passes
      · rw [workServed, inEarnest, work, if_pos hd, undergo_of_passes _ _ _ he,
          if_pos (by simp [hd, he])]
        exact perform_worked (Alike.refl w) rfl (hout rfl) hP
      · rw [workServed, inEarnest, if_neg (by simp [he])]
        exact undergo_worked (Alike.refl w) rfl hp (by simpa using he)
    · rw [workServed, inEarnest, if_neg (by simp [hd]), work, if_neg hd]
      exact .pending hp (Stirred.of_alike (Alike.refl w) false)
  | stalled => exact .pending hp (Stirred.of_alike (Alike.refl w) false)
  | queued limit =>
    rw [workServed, inEarnest, if_pos rfl]
    cases c with
    | lock name direct =>
      exact await_worked (Alike.refl w) (.still true) .left fun _ => rfl
    | store c => exact .pending hp (Alike.refl w)
    | unlock token => exact .pending hp (Alike.refl w)
    | pause length => exact .pending hp (Alike.refl w)

theorem Stirred.abandon {v : World} {p : Phase c} {b : Bool}
    (hv : w.Stirred ticket c b p.isQueued v) :
    w.Stirred ticket c b false (v.abandon ticket c p) := by
  cases c with
  | lock name direct =>
    obtain ⟨ls, hs, ha⟩ := hv
    cases p with
    | queued limit =>
      have hl : v.locks = ls := ha.locks
      have hleave : Alike { w with locks := ls.leave name ticket }
          (v.abandon ticket (.lock name direct) (.queued limit)) := by
        rw [World.abandon, hl]
        exact ha.withLocks _
      cases hs with
      | still => exact ⟨_, .left, hleave⟩
      | joined hf => exact ⟨_, .brief hf, hleave⟩
    | fresh => exact ⟨ls, hs, ha⟩
    | sleeping due next => exact ⟨ls, hs, ha⟩
    | stalled => exact ⟨ls, hs, ha⟩
  | store c => cases p <;> exact hv
  | unlock token => cases p <;> exact hv
  | pause length => cases p <;> exact hv

/-- One look at a guarded call, for a plan that makes up no other answers than these and a ticket
that stands in no line unless its call waits there. -/
theorem attend_attended (hf : w.faults.Within P) (lapse : Tick) (g : Guard) {p : Phase c}
    (hp : ∀ a, p.madeUp? = some a → P c a)
    (hout : p.isQueued = false → ∀ name, ticket ∉ (w.locks.find name).line)
    (hP : ∀ length, P (.pause length) ()) :
    Attended P w ticket lapse g c p (w.attend ticket lapse g c p).1 (w.attend ticket lapse g c p).2
      (w.served ticket g c p) := by
  unfold attend served
  cases hb : (w.before g : Option (g.Outcome c.Answer)) with
  | some o => exact .cutOff (.inl hb) (Stirred.of_alike (Alike.refl w) p.isQueued).abandon
  | none =>
    have hw := work_worked hf hp hout hP
    generalize w.work ticket c p = r at hw ⊢
    generalize w.workServed ticket c p = served at hw ⊢
    obtain ⟨v, progress⟩ := r
    cases hw with
    | served h => exact .served h
    | madeUp ha hq hv => exact .madeUp ha hq hv
    | crashed hc hv => exact .crashed hc hv
    | @pending q _ hq hv =>
      have ht : v.now = w.now := (Stirred.steady hv).now
      have hafter : (v.after lapse g : Option (g.Outcome c.Answer)) = w.after lapse g := by
        cases g <;> simp [after, ht]
      simp only [hafter]
      cases ha : (w.after lapse g : Option (g.Outcome c.Answer)) with
      | none => exact .pending hq hv
      | some o => exact .cutOff (.inr ha) hv.abandon

def annals (w : World) : Faults × List Call := (w.faults, w.journal)

theorem annals_noteHolder (w : World) (h : Holder) : (w.noteHolder h).annals = w.annals := by
  unfold noteHolder
  split <;> rfl

theorem annals_noteAnswer (w : World) (c : Call) (a : c.Answer) :
    (w.noteAnswer c a).annals = w.annals := by
  unfold noteAnswer
  split
  · exact annals_noteHolder w _
  · rfl

theorem annals_abandon (w : World) (ticket : Nat) (c : Call) (p : Phase c) :
    (w.abandon ticket c p).annals = w.annals := by
  unfold abandon
  split <;> rfl

theorem annals_await (w : World) (ticket : Nat) (name : String) (direct : Bool)
    (limit : Option Tick) : (w.await ticket name direct limit).1.annals = w.annals := by
  unfold await
  split
  · exact annals_noteHolder _ _
  · split <;> rfl

theorem annals_perform (w : World) (ticket : Nat) (c : Call) :
    (w.perform ticket c).1.annals = w.annals := by
  cases c with
  | store c =>
    rw [perform]
    split <;> rfl
  | lock name direct =>
    rw [perform]
    split
    · split
      · exact annals_noteHolder _ _
      · exact annals_await _ _ _ _ _
    · rfl
  | unlock token => rfl
  | pause length =>
    cases length with
    | none => rfl
    | some length =>
      rw [perform]
      split <;> rfl

theorem annals_undergo (w : World) (ticket : Nat) (c : Call) (f : Fault c.Answer) :
    (w.undergo ticket c f).1.annals = w.annals := by
  induction f with
  | pass => exact annals_perform w ticket c
  | stall => rfl
  | delay length next ih =>
    unfold undergo
    split
    · exact ih
    · rfl
  | answer a => exact annals_noteAnswer w c a

theorem annals_work (w : World) (ticket : Nat) (c : Call) (p : Phase c) :
    (w.work ticket c p).1.annals = w.annals ∨
      (w.work ticket c p).1.annals =
        (({ w with faults := (w.faults.take c).2 } : World).record c).annals := by
  cases p with
  | fresh => exact .inr (annals_undergo _ _ _ _)
  | sleeping due next =>
    rw [work]
    split
    · exact .inl (annals_undergo _ _ _ _)
    · exact .inl rfl
  | stalled => exact .inl rfl
  | queued limit =>
    cases c with
    | lock name direct => exact .inl (annals_await _ _ _ _ _)
    | store c => exact .inl rfl
    | unlock token => exact .inl rfl
    | pause length => exact .inl rfl

theorem annals_attend (w : World) (ticket : Nat) (lapse : Tick) (g : Guard) (c : Call)
    (p : Phase c) :
    (w.attend ticket lapse g c p).1.annals = w.annals ∨
      (w.attend ticket lapse g c p).1.annals =
        (({ w with faults := (w.faults.take c).2 } : World).record c).annals := by
  have hw := annals_work w ticket c p
  unfold attend
  cases (w.before g : Option (g.Outcome c.Answer)) with
  | some o => exact .inl (annals_abandon w ticket c p)
  | none =>
    generalize w.work ticket c p = r at hw ⊢
    obtain ⟨v, progress⟩ := r
    cases progress with
    | answered a => exact hw
    | crashed => exact hw
    | pending q =>
      simp only
      cases (v.after lapse g : Option (g.Outcome c.Answer)) with
      | none => exact hw
      | some o =>
        simp only [annals_abandon]
        exact hw

theorem journal_record (w : World) (c : Call) :
    (w.record c).journal = w.journal ∨ (w.record c).journal = c :: w.journal := by
  unfold record
  split
  · exact .inl rfl
  · exact .inl rfl
  · exact .inr rfl

theorem faults_record (w : World) (c : Call) : (w.record c).faults = w.faults := by
  unfold record
  split <;> rfl

theorem within_attend {P : Answers} {w : World} (hf : w.faults.Within P) (ticket : Nat)
    (lapse : Tick) (g : Guard) (c : Call) (p : Phase c) :
    (w.attend ticket lapse g c p).1.faults.Within P := by
  rcases annals_attend w ticket lapse g c p with h | h
  · have hw : (w.attend ticket lapse g c p).1.faults = w.faults := congrArg Prod.fst h
    rwa [hw]
  · have hw := congrArg Prod.fst h
    simp only [annals, faults_record] at hw
    rw [hw]
    exact hf.rest c

theorem journal_attend (w : World) (ticket : Nat) (lapse : Tick) (g : Guard) (c : Call)
    (p : Phase c) :
    (w.attend ticket lapse g c p).1.journal = w.journal ∨
      (w.attend ticket lapse g c p).1.journal = c :: w.journal := by
  rcases annals_attend w ticket lapse g c p with h | h
  · exact .inl (congrArg Prod.snd h)
  · have hj := congrArg Prod.snd h
    simp only [annals] at hj
    rw [hj]
    exact journal_record _ c

end World

end Registrar
