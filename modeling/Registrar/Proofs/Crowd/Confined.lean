import Registrar.Proofs.Crowd.Realm
set_option autoImplicit false

namespace Registrar

def honest : Answers
  | .lock name _, .ok token => token.name = name
  | _, _ => True

theorem Fault.madeUp?_map {α β : Type} (f : α → β) (x : Fault α) :
    (x.map f).madeUp? = x.madeUp?.map f := by
  induction x with
  | pass | stall | answer a => rfl
  | delay d next ih => exact ih

theorem Faults.within_honest (fs : Faults) : fs.Within honest := by
  intro c f hf a ha
  cases c with
  | lock name direct =>
    cases direct with
    | false =>
      obtain ⟨x, -, rfl⟩ := List.mem_map.1 hf
      obtain ⟨b, -, rfl⟩ := Option.map_eq_some_iff.1 ((Fault.madeUp?_map _ x).symm.trans ha)
      cases b with
      | ok holder => rfl
      | error e => trivial
    | true => cases hf
  | store c => trivial
  | unlock token => trivial
  | pause length => trivial

/-- An outcome that brings no answer, or an honest one. -/
def Guard.Honest (c : Call) : (g : Guard) → g.Outcome c.Answer → Prop
  | .free, a => honest c a
  | .under _, .ok a => honest c a
  | .within _, some a => honest c a
  | .under _, .error _ | .within _, none => True

def Phase.Honest {c : Call} (p : Phase c) : Prop := ∀ a, p.madeUp? = some a → honest c a

def Progress.Honest {c : Call} : Progress c → Prop
  | .answered a => honest c a
  | .pending p => p.Honest
  | .crashed => True

def Turn.Honest {g : Guard} {c : Call} : Turn g c → Prop
  | .concluded o => g.Honest c o
  | .pending p => p.Honest
  | .crashed => True

theorem Guard.honest_answered {c : Call} (g : Guard) {a : c.Answer} (h : honest c a) :
    g.Honest c (g.answered a) := by
  cases g <;> exact h

namespace World

variable {w : World} {ticket : Nat} {c : Call}

theorem honest_before {g : Guard} {o : g.Outcome c.Answer} (h : w.before g = some o) :
    g.Honest c o := by
  cases g with
  | free => cases h
  | within limit => cases h
  | under ctx =>
    obtain ⟨e, -, rfl⟩ := Option.map_eq_some_iff.1 h
    trivial

theorem honest_after {lapse : Tick} {g : Guard} {o : g.Outcome c.Answer}
    (h : w.after lapse g = some o) : g.Honest c o := by
  cases g with
  | free => cases h
  | under ctx => cases h
  | within limit =>
    simp only [World.after] at h
    split at h
    · cases h
      trivial
    · cases h

theorem honest_await (w : World) (ticket : Nat) (name : String) (direct : Bool)
    (limit : Option Tick) : (w.await ticket name direct limit).2.Honest := by
  unfold World.await
  split
  · rename_i token ls hx
    simp only [Locks.collect] at hx
    split at hx
    · cases hx
      exact rfl
    · cases hx
  · split
    · trivial
    · exact fun a ha => by cases ha

theorem honest_perform (w : World) (ticket : Nat) (c : Call) :
    (w.perform ticket c).2.Honest := by
  cases c with
  | store c =>
    simp only [World.perform]
    split
    · trivial
    · trivial
  | lock name direct =>
    simp only [World.perform]
    split
    · split
      · rename_i token ls hx
        simp only [Locks.enter] at hx
        split at hx
        · cases hx
          exact rfl
        · cases hx
      · exact honest_await _ ticket name direct _
    · exact fun a ha => by cases ha
  | unlock token => trivial
  | pause length =>
    cases length with
    | none => exact fun a ha => by cases ha
    | some length =>
      simp only [World.perform]
      split
      · trivial
      · exact fun a ha => trivial

theorem honest_undergo (w : World) (ticket : Nat) {f : Fault c.Answer}
    (hf : ∀ a, f.madeUp? = some a → honest c a) : (w.undergo ticket c f).2.Honest := by
  induction f with
  | pass => exact honest_perform w ticket c
  | stall => exact fun a ha => by cases ha
  | delay length next ih =>
    simp only [World.undergo]
    split
    · exact ih hf
    · exact hf
  | answer a => exact hf a rfl

theorem honest_work (w : World) (ticket : Nat) {p : Phase c} (hp : p.Honest) :
    (w.work ticket c p).2.Honest := by
  cases p with
  | fresh => exact honest_undergo _ ticket (w.faults.within_honest.next c)
  | sleeping due next =>
    simp only [World.work]
    split
    · exact honest_undergo w ticket hp
    · exact hp
  | stalled => exact fun a ha => by cases ha
  | queued limit =>
    cases c with
    | lock name direct => exact honest_await w ticket name direct limit
    | store c => exact fun a ha => by cases ha
    | unlock token => exact fun a ha => by cases ha
    | pause length => exact fun a ha => by cases ha

theorem honest_attend (w : World) (ticket : Nat) (lapse : Tick) (g : Guard) {p : Phase c}
    (hp : p.Honest) : (w.attend ticket lapse g c p).2.Honest := by
  have hwork := honest_work w ticket hp
  simp only [World.attend]
  split
  · rename_i ho
    exact honest_before ho
  · generalize w.work ticket c p = x at hwork
    obtain ⟨v, progress⟩ := x
    cases progress with
    | answered a => exact g.honest_answered hwork
    | crashed => trivial
    | pending q =>
      simp only
      split
      · rename_i ho
        exact honest_after ho
      · exact hwork

end World

/-- A flow that neither calls for anything outside a realm nor holds a lock outside of it, whatever
outcomes its calls come to. -/
inductive Flow.Confined {α : Type} (r : Realm) : Flow α → Prop where
  | done (a : α) : Confined r (.done a)
  | crash : Confined r .crash
  | now {k : Clock → Flow α} (hk : ∀ clock, (k clock).Confined r) : Confined r (.now k)
  | mint {k : String → Flow α} (hk : ∀ id, (k id).Confined r) : Confined r (.mint k)
  | request {root : Context} {timeout : Span} {k : Context → Flow α}
      (hk : ∀ ctx, (k ctx).Confined r) : Confined r (.request root timeout k)
  | call {g : Guard} {c : Call} {held : Option Held} {k : g.Outcome c.Answer → Flow α}
      (hc : c.Inside r) (hheld : ∀ h ∈ held, r.locks h.token.name)
      (hk : ∀ o, g.Honest c o → (k o).Confined r) : Confined r (.call g c held k)

theorem Flow.confined_release (h : Held) : (Flow.release h).Confined (.lock h.token.name) :=
  .call rfl (fun _ hh => by cases hh) fun _ _ => .done ()

namespace Activity

variable {α : Type} {r : Realm} {act : Activity α} {f : Flow α}

inductive Confined (r : Realm) : Activity α → Prop where
  | fresh {f : Flow α} (h : f.Confined r) : Confined r (.fresh f)
  | waiting {ticket : Nat} {lapse : Tick} {g : Guard} {c : Call} {held : Option Held}
      {k : g.Outcome c.Answer → Flow α} {p : Phase c} (h : (Flow.call g c held k).Confined r)
      (hp : p.Honest) : Confined r (.waiting ticket lapse g c held k p)
  | done (a : α) : Confined r (.done a)
  | crashed : Confined r .crashed

/-- What becomes of a flow that is looked at, in whatever worlds it finds itself. -/
inductive Comes (f : Flow α) : Activity α → Prop where
  | fresh : Comes f (.fresh f)
  | look {act : Activity α} (h : Comes f act) (w : World) : Comes f (act.look w).2

/-- All that can become of an activity at the next moment is confined to a realm. -/
structure KeepsTo (r : Realm) (act : Activity α) : Prop where
  look : r.Confines act.look
  drop : r.Confines fun w => (act.drop w, ())
  forsake : r.Confines fun w => (act.forsake w, ())

theorem Confined.looked (h : act.Confined r) (w : World) : (act.look w).2.Confined r := by
  cases h with
  | done a => exact .done a
  | crashed => exact .crashed
  | fresh hf =>
    cases hf with
    | done a => exact .done a
    | crash => exact .crashed
    | now hk => exact .fresh (hk w.clock)
    | mint hk => exact .fresh (hk w.mint.1)
    | @request root timeout k hk =>
      simp only [Activity.look]
      split
      · exact .crashed
      · exact .fresh (hk _)
    | call hc hheld hk => exact .waiting (.call hc hheld hk) fun a ha => by cases ha
  | @waiting ticket lapse g c held k p hf hp =>
    have hturn := World.honest_attend w ticket lapse g hp
    simp only [Activity.look]
    generalize w.attend ticket lapse g c p = x at hturn
    obtain ⟨v, turn⟩ := x
    cases turn with
    | concluded o =>
      cases hf with
      | call hc hheld hk => exact .fresh (hk o hturn)
    | pending q => exact .waiting hf hturn
    | crashed => exact .crashed

theorem Comes.confined (h : Comes f act) (hf : f.Confined r) : act.Confined r := by
  induction h with
  | fresh => exact .fresh hf
  | look h w ih => exact ih.looked w

theorem confines_look_fresh (f : Flow α) : r.Confines (Activity.fresh f).look where
  reads w v h := by
    cases f with
    | done a => exact ⟨rfl, h⟩
    | crash => exact ⟨rfl, h⟩
    | now k => exact ⟨congrArg (fun clock => Activity.fresh (k clock)) h.clock, h⟩
    | mint k =>
      cases h with
      | intro hs hls => exact ⟨rfl, .intro hs hls⟩
    | request root timeout k =>
      cases h with
      | intro hs hls =>
        simp only [Activity.look, World.now]
        split
        · exact ⟨rfl, .intro hs hls⟩
        · exact ⟨rfl, .intro hs hls⟩
    | call g c held k =>
      cases h with
      | intro hs hls => cases g <;> exact ⟨rfl, .intro hs hls⟩
  spares w :=
    have hfresh := look_fresh f w
    .of_eq hfresh.2.2.1 hfresh.2.1 hfresh.1 hfresh.2.2.2.1

theorem confines_look_waiting {ticket : Nat} {lapse : Tick} {g : Guard} {c : Call}
    {held : Option Held} {k : g.Outcome c.Answer → Flow α} {p : Phase c} (hc : c.Inside r)
    (hheld : ∀ h ∈ held, r.locks h.token.name) :
    r.Confines (Activity.waiting ticket lapse g c held k p).look where
  reads w v h := by
    obtain ⟨hturn, hsame⟩ := (Realm.confines_attend hc ticket lapse g p).reads w v h
    simp only [Activity.look] at hturn hsame ⊢
    generalize w.attend ticket lapse g c p = x at hturn hsame
    generalize v.attend ticket lapse g c p = y at hturn hsame
    obtain ⟨w', turn⟩ := x
    obtain ⟨v', turn'⟩ := y
    obtain rfl : turn' = turn := hturn
    cases turn' with
    | concluded o => exact ⟨rfl, hsame⟩
    | pending q => exact ⟨rfl, hsame⟩
    | crashed => exact ⟨rfl, World.SameIn.orphan hsame held⟩
  spares w := by
    have hattend := (Realm.confines_attend hc ticket lapse g p).spares w
    simp only [Activity.look] at hattend ⊢
    generalize w.attend ticket lapse g c p = x at hattend
    obtain ⟨w', turn⟩ := x
    cases turn with
    | concluded o => exact hattend
    | pending q => exact hattend
    | crashed => exact hattend.trans (.orphan w' hheld)

theorem confines_idle {β : Type} (b : β) : r.Confines fun w => (w, b) where
  reads _ _ h := ⟨rfl, h⟩
  spares := .refl

theorem Confined.keepsTo (h : act.Confined r) : act.KeepsTo r := by
  cases h with
  | done a => exact ⟨confines_idle _, confines_idle (), confines_idle ()⟩
  | crashed => exact ⟨confines_idle _, confines_idle (), confines_idle ()⟩
  | @fresh f hf => exact ⟨confines_look_fresh f, confines_idle (), confines_idle ()⟩
  | @waiting ticket lapse g c held k p hf hp =>
    cases hf with
    | call hc hheld hk =>
      have habandon := Realm.confines_abandon hc ticket p
      refine ⟨confines_look_waiting hc hheld, ⟨fun w v h => ?_, fun w => ?_⟩, habandon⟩
      · exact ⟨rfl, ((habandon.reads w v h).2).orphan held⟩
      · exact (habandon.spares w).trans (.orphan _ hheld)

theorem Comes.keepsTo (h : Comes f act) (hf : f.Confined r) : act.KeepsTo r :=
  (h.confined hf).keepsTo

end Activity

end Registrar
