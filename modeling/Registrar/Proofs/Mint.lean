import Registrar.Allocator
import Registrar.Proofs.Crowd.Served
/-!
Minting: the trade of allocations, beside callers who take a lock directly. An allocation goes its
course from place to place. Main statement: one look takes it to the next place, to its end, or
leaves it where it is (`Place.look_passage`).
-/
set_option autoImplicit false

namespace Registrar

/-- An allocation for a day, for the day of the local calendar, or for a day under a context that is
made for it. -/
inductive Order where
  | on (ctx : Context) (day : Day)
  | today (ctx : Context)
  | request (root : Context) (timeout : Span) (day : Day)

def Order.flow (a : Allocator) : Order → Flow (Except AllocError Identifier)
  | .on ctx day => a.allocate ctx day
  | .today ctx => a.allocateToday ctx
  | .request root timeout day => .request root timeout fun ctx => a.allocate ctx day

namespace Mint

inductive Job where
  | allocate (a : Allocator) (o : Order)
  | lock (name : String)

abbrev Job.Yield : Job → Type
  | .allocate _ _ => Except AllocError Identifier
  | .lock _ => Except LockError LockToken

def Job.flow : (j : Job) → Flow j.Yield
  | .allocate a o => o.flow a
  | .lock name => .call .free (.lock name true) none .done

end Mint

abbrev mint : Trade := ⟨Mint.Job, Mint.Job.Yield, Mint.Job.flow⟩

/-- A world at the start of the year 2020, in which nothing has happened yet. -/
def World.newYear : World := .start ⟨1577836800 * Instant.nanosPerSec, .utc, 0⟩ none fun _ => ""

theorem World.newYear_calm : World.newYear.Calm := start_calm _ _ _

def Day.newYear : Day := ⟨2020, 1, 1, by decide, by decide, by decide⟩

/-- An allocation for that day, under a context that nothing ends. -/
def Mint.Job.newYear : Mint.Job := .allocate .standard (.on ⟨[], none⟩ .newYear)

/-- The places on the course of an allocation. One that has crashed or been dropped is lost. -/
inductive Place where
  | reading (ctx : Context)
  | opening (root : Context) (timeout : Span) (day : Day)
  | queuing (ctx : Context) (day : Day)
  | counting (ctx : Context) (day : Day) (token : LockToken)
  | timing (ctx : Context) (day : Day) (token : LockToken) (n : Int)
  | renewing (ctx : Context) (day : Day) (token : LockToken) (n : Int) (ttl : Span)
  | releasing (day : Day) (token : LockToken) (counted : Except AllocError Nat)
  | ended (r : Except AllocError Identifier)
  | lost

namespace Place

def flow (a : Allocator) : Place → Flow (Except AllocError Identifier)
  | .reading ctx => a.allocateToday ctx
  | .opening root timeout day => .request root timeout fun ctx => a.allocate ctx day
  | .queuing ctx day => a.allocate ctx day
  | .counting ctx day token =>
    .call (.under ctx) (.store (.incr (a.counterKey day))) (some (a.held token))
      (a.afterIncr ctx day token)
  | .timing ctx day token n => a.afterIncr ctx day token (.ok (.ok n))
  | .renewing ctx day token n ttl =>
    .call (.under ctx) (.store (.expire (a.counterKey day) ttl)) (some (a.held token))
      (a.afterExpire day token n)
  | .releasing day token counted => a.finish day token counted
  | .ended r => .done r
  | .lost => .crash

def token? : Place → Option LockToken
  | .counting _ _ token | .timing _ _ token _ | .renewing _ _ token _ _ | .releasing _ token _ =>
    some token
  | .reading _ | .opening _ _ _ | .queuing _ _ | .ended _ | .lost => none

def call? (a : Allocator) : Place → Option Call
  | .queuing _ _ => some (.lock a.lockName false)
  | .counting _ day _ => some (.store (.incr (a.counterKey day)))
  | .renewing _ day _ _ ttl => some (.store (.expire (a.counterKey day) ttl))
  | .releasing _ token _ => some (.unlock token)
  | .reading _ | .opening _ _ _ | .timing _ _ _ _ | .ended _ | .lost => none

theorem call_eq {a : Allocator} {p : Place} {g : Guard} {c : Call} {held : Option Held}
    {k : g.Outcome c.Answer → Flow (Except AllocError Identifier)}
    (h : p.flow a = .call g c held k) : p.call? a = some c ∧ held = p.token?.map a.held := by
  cases p <;> cases h <;> exact ⟨rfl, rfl⟩

end Place

def Order.place : Order → Place
  | .on ctx day => .queuing ctx day
  | .today ctx => .reading ctx
  | .request root timeout day => .opening root timeout day

theorem Order.flow_eq (a : Allocator) (o : Order) : o.flow a = o.place.flow a := by
  cases o <;> rfl

theorem Order.place_token (o : Order) : o.place.token? = none := by
  cases o <;> rfl

/-- What a count and the renewal that followed it come to. -/
def Allocator.number (a : Allocator) (day : Day) (n : Int) : Except AllocError Nat :=
  if n < 0 then .error (.negativeCounter (a.counterKey day)) else .ok n.toNat

/-- An answer that a party has been told: its adapter's own, which is a served call, or one made up. -/
def Told (P : Answers) (i : Nat) (w : World) (d : Option ServedCall) (c : Call) (a : c.Answer) :
    Prop :=
  d = some ⟨some i, c, a, w.now⟩ ∨ d = none ∧ P c a

/-- What one look can do to an allocation: from which place to which, with which served call, and which
locks it leaves behind. `L` says whether the limit of its call may have run out. -/
inductive Passage (P : Answers) (a : Allocator) (i : Nat) (w : World) (L : Prop) :
    Place → Option ServedCall → Place → List Held → Prop where
  | still (p : Place) : Passage P a i w L p none p []
  | lost {p : Place} (hp : p.token? = none) : Passage P a i w L p none .lost []
  | crashed {p : Place} {token : LockToken} (hp : p.token? = some token) :
      Passage P a i w L p none .lost [a.held token]
  | read {ctx : Context} {day : Day} (hd : w.clock.today? = some day) :
      Passage P a i w L (.reading ctx) none (.queuing ctx day) []
  | opened {root ctx : Context} {timeout : Span} {day : Day} :
      Passage P a i w L (.opening root timeout day) none (.queuing ctx day) []
  | locked {ctx : Context} {day : Day} {token : LockToken} {d : Option ServedCall}
      (hd : Told P i w d (.lock a.lockName false) (.ok token)) :
      Passage P a i w L (.queuing ctx day) d (.counting ctx day token) []
  | notLocked {ctx : Context} {day : Day} {e : LockError} {d : Option ServedCall}
      (hd : Told P i w d (.lock a.lockName false) (.error e)) :
      Passage P a i w L (.queuing ctx day) d (.ended (.error (.lockUnavailable e))) []
  | gaveUp {ctx : Context} {day : Day} {e : Interrupted}
      (he : ctx.interruption? w.signals w.now = some e) :
      Passage P a i w L (.queuing ctx day) none (.ended (.error (.interrupted e))) []
  | counted {ctx : Context} {day : Day} {token : LockToken} {n : Int} {d : Option ServedCall}
      (hd : Told P i w d (.store (.incr (a.counterKey day))) (.ok n)) :
      Passage P a i w L (.counting ctx day token) d (.timing ctx day token n) []
  | notCounted {ctx : Context} {day : Day} {token : LockToken} {e : StoreError} {d : Option ServedCall}
      (hd : Told P i w d (.store (.incr (a.counterKey day))) (.error e)) :
      Passage P a i w L (.counting ctx day token) d
        (.releasing day token (.error (.storeUnavailable e))) []
  | gaveUpCounting {ctx : Context} {day : Day} {token : LockToken} {e : Interrupted}
      (he : ctx.interruption? w.signals w.now = some e) :
      Passage P a i w L (.counting ctx day token) none
        (.releasing day token (.error (.interrupted e))) []
  | timed {ctx : Context} {day : Day} {token : LockToken} {n : Int} :
      Passage P a i w L (.timing ctx day token n) none
        (.renewing ctx day token n (a.counterTtl w.clock day)) []
  | renewed {ctx : Context} {day : Day} {token : LockToken} {n : Int} {ttl : Span} {b : Bool}
      {d : Option ServedCall} (hd : Told P i w d (.store (.expire (a.counterKey day) ttl)) (.ok b)) :
      Passage P a i w L (.renewing ctx day token n ttl) d (.releasing day token (a.number day n)) []
  | notRenewed {ctx : Context} {day : Day} {token : LockToken} {n : Int} {ttl : Span}
      {e : StoreError} {d : Option ServedCall}
      (hd : Told P i w d (.store (.expire (a.counterKey day) ttl)) (.error e)) :
      Passage P a i w L (.renewing ctx day token n ttl) d
        (.releasing day token (.error (.storeUnavailable e))) []
  | gaveUpRenewing {ctx : Context} {day : Day} {token : LockToken} {n : Int} {ttl : Span}
      {e : Interrupted} (he : ctx.interruption? w.signals w.now = some e) :
      Passage P a i w L (.renewing ctx day token n ttl) none
        (.releasing day token (.error (.interrupted e))) []
  | released {day : Day} {token : LockToken} {counted : Except AllocError Nat}
      {r : Except LockError Bool} {d : Option ServedCall} (hd : Told P i w d (.unlock token) r) :
      Passage P a i w L (.releasing day token counted) d
        (.ended (Allocator.settle day counted (Allocator.releaseFailure? (some r)))) []
  | lapsed {day : Day} {token : LockToken} {counted : Except AllocError Nat} (hl : L) :
      Passage P a i w L (.releasing day token counted) none
        (.ended (Allocator.settle day counted (Allocator.releaseFailure? none))) []

namespace Passage

variable {P : Answers} {a : Allocator} {i : Nat} {w : World} {L : Prop} {p q : Place}
  {d : Option ServedCall} {orphans : List Held}

theorem lost_of_lost (hp : Passage P a i w L .lost d q orphans) : q = .lost := by
  cases hp <;> rfl

theorem left (hp : Passage P a i w L p d q orphans) {h : Held} (hh : h ∈ orphans) :
    p.token? = some h.token ∧ q = .lost := by
  cases hp with
  | crashed ht =>
    cases List.mem_singleton.1 hh
    exact ⟨ht, rfl⟩
  | _ => cases hh

theorem servedCall (hp : Passage P a i w L p d q orphans) {e : ServedCall} (he : e ∈ d) :
    e.who = some i ∧ e.time = w.now ∧ p.call? a = some e.call := by
  cases hp with
  | locked hd | notLocked hd | counted hd | notCounted hd | renewed hd | notRenewed hd
  | released hd =>
    rcases hd with rfl | ⟨rfl, -⟩
    · cases he
      exact ⟨rfl, rfl, rfl⟩
    · cases he
  | _ => cases he

theorem token (hp : Passage P a i w L p d q orphans) {t : LockToken} (hq : q.token? = some t) :
    (∃ e ∈ d, e.grant? = some (i, t)) ∨ P (.lock a.lockName false) (.ok t) ∨
      p.token? = some t ∧ ∀ e ∈ d, e.freed? = none := by
  have kept : p.token? = some t → (∀ t', p.call? a ≠ some (.unlock t')) →
      p.token? = some t ∧ ∀ e ∈ d, e.freed? = none := by
    intro ht hne
    refine ⟨ht, fun e he => ?_⟩
    have hc := (hp.servedCall he).2.2
    cases hf : e.call with
    | unlock t' => exact absurd (hf ▸ hc) (hne t')
    | store c => rw [ServedCall.freed?, hf]; rfl
    | lock name direct => rw [ServedCall.freed?, hf]; rfl
    | pause length => rw [ServedCall.freed?, hf]; rfl
  cases hp with
  | locked hd =>
    cases hq
    rcases hd with rfl | ⟨rfl, h⟩
    · exact .inl ⟨_, rfl, rfl⟩
    · exact .inr (.inl h)
  | still => exact .inr (.inr ⟨hq, by simp⟩)
  | counted | notCounted | gaveUpCounting | timed | renewed | notRenewed | gaveUpRenewing =>
    exact .inr (.inr (kept hq (by simp [Place.call?])))
  | _ => cases hq

theorem lock_name (hp : Passage P a i w L p d q orphans) {e : ServedCall} (he : e ∈ d)
    {name : String} {direct : Bool} (hc : e.call = .lock name direct) : name = a.lockName := by
  have hcall := (hp.servedCall he).2.2
  rw [hc] at hcall
  cases p <;> cases hcall
  rfl

theorem granted (hp : Passage P a i w L p d q orphans) {e : ServedCall} (he : e ∈ d) {t : LockToken}
    (hg : e.grant? = some (i, t)) : q.token? = some t := by
  cases hp with
  | locked hd =>
    rcases hd with rfl | ⟨rfl, -⟩
    · cases he
      cases hg
      rfl
    · cases he
  | notLocked hd | counted hd | notCounted hd | renewed hd | notRenewed hd | released hd =>
    rcases hd with rfl | ⟨rfl, -⟩
    · cases he
      cases hg
    · cases he
  | _ => cases he

end Passage

namespace Activity

variable {α : Type} {P : Answers} {w : World} {i : Nat} {L : Prop}

/-- Whether the limit of the call has run out, and the adapter has no answer yet. -/
def lapses : Activity α → World → Bool
  | .waiting ticket lapse g c _ _ p, w =>
    (w.after lapse g : Option (g.Outcome c.Answer)).isSome && (w.served ticket g c p).isNone
  | _, _ => false

/-- What one look does to an activity that is at a call: it is told an answer, is cut off, goes on
waiting, or crashes. -/
inductive Advanced (P : Answers) (i : Nat) (w : World) (L : Prop) (g : Guard) (c : Call)
    (held : Option Held) (k : g.Outcome c.Answer → Flow α) :
    Option ServedCall → Flow α → List Held → Prop where
  | still : Advanced P i w L g c held k none (.call g c held k) []
  | told {a : c.Answer} {d : Option ServedCall} (hd : Told P i w d c a) :
      Advanced P i w L g c held k d (k (g.answered a)) []
  | cutOff {o : g.Outcome c.Answer}
      (ho : w.before g = some o ∨ L ∧ ∃ lapse, w.after lapse g = some o) :
      Advanced P i w L g c held k none (k o) []
  | crashed (hc : ∃ s, c = .store s) : Advanced P i w L g c held k none .crash held.toList

theorem look_advanced {g : Guard} {c : Call} {held : Option Held}
    {k : g.Outcome c.Answer → Flow α} {act : Activity α} (hr : act.rest = .call g c held k)
    (hat : act.Attended P w) (hl : act.lapses w → L) :
    ∃ orphans, Advanced P i w L g c held k (act.servedCall i w) (act.look w).2.rest orphans ∧
      (act.look w).1.orphans = w.orphans ++ orphans := by
  cases act with
  | done a => cases hr
  | crashed => cases hr
  | fresh f =>
    simp only [rest] at hr
    subst hr
    exact ⟨[], .still, by simp [look]⟩
  | waiting ticket lapse g' c' held' k' p =>
    simp only [rest, Flow.call.injEq] at hr
    obtain ⟨rfl, rfl, rfl, hk⟩ := hr
    cases hk
    simp only [Attended] at hat
    have hv := hat.steady.orphans
    simp only [look, servedCall]
    simp only [lapses] at hl
    generalize w.attend ticket lapse g' c' p = r at hat hv ⊢
    generalize w.served ticket g' c' p = served at hat hl ⊢
    obtain ⟨v, turn⟩ := r
    replace hv : v.orphans = w.orphans := hv
    cases hat with
    | @served a _ h => exact ⟨[], .told (.inl rfl), by simpa using hv⟩
    | madeUp ha hq _ => exact ⟨[], .told (.inr ⟨rfl, ha⟩), by simpa using hv⟩
    | cutOff ho _ =>
      exact ⟨[], .cutOff (ho.imp id fun h => ⟨hl (by simp [h]), lapse, h⟩), by simpa using hv⟩
    | pending hq _ => exact ⟨[], .still, by simpa using hv⟩
    | crashed hc _ => exact ⟨_, .crashed hc, by simp [World.orphan, hv]⟩

end Activity

namespace Guard

variable {α : Type} {w : World} {L : Prop}

theorem interrupted_of_cut {ctx : Context} {o : (Guard.under ctx).Outcome α}
    (h : w.before (.under ctx) = some o ∨ L ∧ ∃ lapse, w.after lapse (.under ctx) = some o) :
    ∃ e, o = .error e ∧ ctx.interruption? w.signals w.now = some e := by
  rcases h with h | ⟨-, lapse, h⟩
  · obtain ⟨e, he, rfl⟩ := Option.map_eq_some_iff.1 h
    exact ⟨e, rfl, he⟩
  · simp [World.after] at h

theorem none_of_cut {limit : Span} {o : (Guard.within limit).Outcome α}
    (h : w.before (.within limit) = some o ∨ L ∧ ∃ lapse, w.after lapse (.within limit) = some o) :
    o = none ∧ L := by
  rcases h with h | ⟨hl, lapse, h⟩
  · simp [World.before] at h
  · simp only [World.after] at h
    split at h
    · cases h
      exact ⟨rfl, hl⟩
    · simp at h

end Guard

namespace Place

open Activity (Advanced)

variable {P : Answers} {a : Allocator} {w : World} {i : Nat} {L : Prop}

theorem look_between {act : Activity (Except AllocError Identifier)}
    {f : Flow (Except AllocError Identifier)}
    (hr : act.rest = f) (hf : ∀ g c held k, f ≠ .call g c held k) :
    act = .fresh f ∨ f = .crash ∧ act = .crashed ∨ ∃ r, f = .done r ∧ act = .done r := by
  cases act with
  | fresh f' => exact .inl (congrArg _ hr)
  | waiting ticket lapse g c held k p => exact absurd hr.symm (hf g c held k)
  | done r => exact .inr (.inr ⟨r, hr.symm, rfl⟩)
  | crashed => exact .inr (.inl ⟨hr.symm, rfl⟩)

theorem look_passage {act : Activity (Except AllocError Identifier)} {p : Place}
    (hr : act.rest = p.flow a) (hat : act.Attended P w) (hl : act.lapses w → L) :
    ∃ q orphans, (act.look w).2.rest = Place.flow a q ∧
      Passage P a i w L p (act.servedCall i w) q orphans ∧
      (act.look w).1.orphans = w.orphans ++ orphans := by
  -- Between two calls a look computes; at a call it comes to what `look_advanced` tells.
  cases p with
  | reading ctx =>
    rcases look_between hr (by simp [flow, Allocator.allocateToday]) with rfl | ⟨hc, -⟩ | ⟨r, hc, -⟩
    · cases hd : w.clock.today? with
      | some day =>
        refine ⟨.queuing ctx day, [], ?_, .read hd,
          by simp [flow, Allocator.allocateToday, Activity.look]⟩
        simp [flow, Allocator.allocateToday, Activity.look, Activity.rest, hd]
      | none =>
        refine ⟨.lost, [], ?_, .lost rfl, by simp [flow, Allocator.allocateToday, Activity.look]⟩
        simp [flow, Allocator.allocateToday, Activity.look, Activity.rest, hd]
    · cases hc
    · cases hc
  | opening root timeout day =>
    rcases look_between hr (by simp [flow]) with rfl | ⟨hc, -⟩ | ⟨r, hc, -⟩
    · simp only [flow, Activity.look, Activity.servedCall]
      cases hc : root.child w.signals w.now timeout with
      | none => exact ⟨.lost, [], rfl, .lost rfl, by simp⟩
      | some r =>
        obtain ⟨ctx, signals⟩ := r
        exact ⟨.queuing ctx day, [], rfl, .opened, by simp⟩
    · cases hc
    · cases hc
  | queuing ctx day =>
    obtain ⟨orphans, hadv, ho⟩ := Activity.look_advanced (i := i) hr hat hl
    generalize act.servedCall i w = d at hadv ⊢
    generalize hf : (act.look w).2.rest = f at hadv ⊢
    cases hadv with
    | still => exact ⟨.queuing ctx day, [], rfl, .still _, ho⟩
    | @told ans _ hd =>
      cases ans with
      | error e => exact ⟨_, [], rfl, .notLocked hd, ho⟩
      | ok token => exact ⟨.counting ctx day token, [], rfl, .locked hd, ho⟩
    | cutOff hc =>
      obtain ⟨e, rfl, he⟩ := Guard.interrupted_of_cut hc
      exact ⟨_, [], rfl, .gaveUp he, ho⟩
    | crashed hc =>
      obtain ⟨s, hs⟩ := hc
      cases hs
  | counting ctx day token =>
    obtain ⟨orphans, hadv, ho⟩ := Activity.look_advanced (i := i) hr hat hl
    generalize act.servedCall i w = d at hadv ⊢
    generalize hf : (act.look w).2.rest = f at hadv ⊢
    cases hadv with
    | still => exact ⟨.counting ctx day token, [], rfl, .still _, ho⟩
    | @told ans _ hd =>
      cases ans with
      | error e => exact ⟨_, [], rfl, .notCounted hd, ho⟩
      | ok n => exact ⟨.timing ctx day token n, [], rfl, .counted hd, ho⟩
    | cutOff hc =>
      obtain ⟨e, rfl, he⟩ := Guard.interrupted_of_cut hc
      exact ⟨_, [], rfl, .gaveUpCounting he, ho⟩
    | crashed hc => exact ⟨.lost, _, rfl, .crashed rfl, ho⟩
  | timing ctx day token n =>
    rcases look_between hr (by simp [flow, Allocator.afterIncr]) with rfl | ⟨hc, -⟩ | ⟨r, hc, -⟩
    · exact ⟨_, [], rfl, .timed, by simp [flow, Allocator.afterIncr, Activity.look]⟩
    · cases hc
    · cases hc
  | renewing ctx day token n ttl =>
    obtain ⟨orphans, hadv, ho⟩ := Activity.look_advanced (i := i) hr hat hl
    generalize act.servedCall i w = d at hadv ⊢
    generalize hf : (act.look w).2.rest = f at hadv ⊢
    cases hadv with
    | still => exact ⟨.renewing ctx day token n ttl, [], rfl, .still _, ho⟩
    | @told ans _ hd =>
      cases ans with
      | error e => exact ⟨_, [], rfl, .notRenewed hd, ho⟩
      | ok b => exact ⟨_, [], rfl, .renewed hd, ho⟩
    | cutOff hc =>
      obtain ⟨e, rfl, he⟩ := Guard.interrupted_of_cut hc
      exact ⟨_, [], rfl, .gaveUpRenewing he, ho⟩
    | crashed hc => exact ⟨.lost, _, rfl, .crashed rfl, ho⟩
  | releasing day token counted =>
    obtain ⟨orphans, hadv, ho⟩ := Activity.look_advanced (i := i) hr hat hl
    generalize act.servedCall i w = d at hadv ⊢
    generalize hf : (act.look w).2.rest = f at hadv ⊢
    cases hadv with
    | still => exact ⟨.releasing day token counted, [], rfl, .still _, ho⟩
    | told hd => exact ⟨_, [], rfl, .released hd, ho⟩
    | cutOff hc =>
      obtain ⟨rfl, hlapsed⟩ := Guard.none_of_cut hc
      exact ⟨_, [], rfl, .lapsed hlapsed, ho⟩
    | crashed hc =>
      obtain ⟨s, hs⟩ := hc
      cases hs
  | ended r =>
    rcases look_between hr (by simp [flow]) with rfl | ⟨hc, -⟩ | ⟨r', hc, rfl⟩
    · exact ⟨.ended r, [], rfl, .still _, by simp [flow, Activity.look]⟩
    · cases hc
    · cases hc
      exact ⟨.ended r, [], rfl, .still _, by simp [Activity.look]⟩
  | lost =>
    rcases look_between hr (by simp [flow]) with rfl | ⟨-, rfl⟩ | ⟨r, hc, -⟩
    · exact ⟨.lost, [], rfl, .still _, by simp [flow, Activity.look]⟩
    · exact ⟨.lost, [], rfl, .still _, by simp [Activity.look]⟩
    · cases hc

end Place

end Registrar
