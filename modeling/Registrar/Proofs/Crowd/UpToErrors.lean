import Mathlib.Data.List.Forall2
import Registrar.Proofs.Crowd.Dealing
/-!
Crowds that differ in the errors of the store only. Where the plans of two runs agree but for the
errors with which the store is made to answer, and the flows do not look into these errors, the two
runs go alike. Main statement: `Crowd.UpToErrors.play`.
-/
set_option autoImplicit false

namespace Registrar

/-- Answers that agree, but that the store may give another error. -/
def Call.UpToErrors : (c : Call) → c.Answer → c.Answer → Prop
  | .store c, a, b => Except.toOption (ε := StoreError) (α := c.Answer) a = Except.toOption b
  | .lock _ _, a, b | .unlock _, a, b | .pause _, a, b => a = b

theorem Call.UpToErrors.refl (c : Call) (a : c.Answer) : c.UpToErrors a a := by
  cases c <;> exact rfl

/-- Outcomes that agree but for what the store answers. -/
inductive Guard.UpToErrors (g : Guard) (c : Call) :
    g.Outcome c.Answer → g.Outcome c.Answer → Prop where
  | same (o : g.Outcome c.Answer) : UpToErrors g c o o
  | answered {a b : c.Answer} (h : c.UpToErrors a b) : UpToErrors g c (g.answered a) (g.answered b)

variable {α β : Type}

/-- Flows that go alike as long as what they are told is alike, with results that are related. -/
inductive Flow.UpToErrors (R : α → α → Prop) : Flow α → Flow α → Prop where
  | done {a b : α} (h : R a b) : UpToErrors R (.done a) (.done b)
  | crash : UpToErrors R .crash .crash
  | now {k l : Clock → Flow α} (h : ∀ t, UpToErrors R (k t) (l t)) : UpToErrors R (.now k) (.now l)
  | mint {k l : String → Flow α} (h : ∀ id, UpToErrors R (k id) (l id)) :
      UpToErrors R (.mint k) (.mint l)
  | request {root : Context} {timeout : Span} {k l : Context → Flow α}
      (h : ∀ ctx, UpToErrors R (k ctx) (l ctx)) :
      UpToErrors R (.request root timeout k) (.request root timeout l)
  | call {g : Guard} {c : Call} {held : Option Held} {k l : g.Outcome c.Answer → Flow α}
      (h : ∀ o p, g.UpToErrors c o p → UpToErrors R (k o) (l p)) :
      UpToErrors R (.call g c held k) (.call g c held l)

theorem Flow.UpToErrors.bind {R : α → α → Prop} {S : β → β → Prop} {f f' : Flow α}
    {k k' : α → Flow β} (h : f.UpToErrors R f') (hk : ∀ a b, R a b → (k a).UpToErrors S (k' b)) :
    (f.bind k).UpToErrors S (f'.bind k') := by
  induction h with
  | done h => exact hk _ _ h
  | crash => exact .crash
  | now _ ih => exact .now ih
  | mint _ ih => exact .mint ih
  | request _ ih => exact .request ih
  | call _ ih => exact .call ih

inductive Fault.UpToErrors (R : α → α → Prop) : Fault α → Fault α → Prop where
  | pass : UpToErrors R .pass .pass
  | stall : UpToErrors R .stall .stall
  | delay {length : Span} {f f' : Fault α} (h : UpToErrors R f f') :
      UpToErrors R (.delay length f) (.delay length f')
  | answer {a b : α} (h : R a b) : UpToErrors R (.answer a) (.answer b)

theorem Fault.UpToErrors.refl {R : α → α → Prop} (hR : ∀ a, R a a) (f : Fault α) :
    f.UpToErrors R f := by
  induction f with
  | pass => exact .pass
  | stall => exact .stall
  | delay length next ih => exact .delay ih
  | answer a => exact .answer (hR a)

def SameAnswer (a b : Except StoreError α) : Prop := a.toOption = b.toOption

/-- Plans that agree but for the errors with which the store is made to answer. -/
structure Faults.UpToErrors (fs gs : Faults) : Prop where
  set : List.Forall₂ (Fault.UpToErrors SameAnswer) fs.set gs.set
  get : List.Forall₂ (Fault.UpToErrors SameAnswer) fs.get gs.get
  del : List.Forall₂ (Fault.UpToErrors SameAnswer) fs.del gs.del
  incr : List.Forall₂ (Fault.UpToErrors SameAnswer) fs.incr gs.incr
  expire : List.Forall₂ (Fault.UpToErrors SameAnswer) fs.expire gs.expire
  lock : gs.lock = fs.lock
  unlock : gs.unlock = fs.unlock

theorem Fault.upToErrors_refl (fs : List (Fault (Except StoreError α))) :
    List.Forall₂ (Fault.UpToErrors SameAnswer) fs fs :=
  List.forall₂_same.2 fun f _ => .refl (fun _ => Eq.refl (Except.toOption _)) f

theorem Faults.UpToErrors.refl (fs : Faults) : fs.UpToErrors fs where
  set := Fault.upToErrors_refl fs.set
  get := Fault.upToErrors_refl fs.get
  del := Fault.upToErrors_refl fs.del
  incr := Fault.upToErrors_refl fs.incr
  expire := Fault.upToErrors_refl fs.expire
  lock := rfl
  unlock := rfl

theorem Faults.upToErrors_first {R : α → α → Prop} {fs gs : List (Fault α)}
    (h : List.Forall₂ (Fault.UpToErrors R) fs gs) : (first fs).UpToErrors R (first gs) := by
  cases h with
  | nil => exact .pass
  | cons h _ => exact h

theorem forall₂_tail {R : α → β → Prop} {as : List α} {bs : List β} (h : List.Forall₂ R as bs) :
    List.Forall₂ R as.tail bs.tail := by
  cases h with
  | nil => exact .nil
  | cons _ h => exact h

theorem Faults.UpToErrors.take {fs gs : Faults} (h : fs.UpToErrors gs) (c : Call) :
    (fs.take c).1.UpToErrors c.UpToErrors (gs.take c).1 ∧ (fs.take c).2.UpToErrors (gs.take c).2 := by
  cases c with
  | store c =>
    cases c with
    | set key value ttl => exact ⟨upToErrors_first h.set, { h with set := forall₂_tail h.set }⟩
    | get key => exact ⟨upToErrors_first h.get, { h with get := forall₂_tail h.get }⟩
    | del keys => exact ⟨upToErrors_first h.del, { h with del := forall₂_tail h.del }⟩
    | incr key => exact ⟨upToErrors_first h.incr, { h with incr := forall₂_tail h.incr }⟩
    | expire key ttl => exact ⟨upToErrors_first h.expire, { h with expire := forall₂_tail h.expire }⟩
  | lock name direct =>
    cases direct with
    | true => exact ⟨.pass, h⟩
    | false =>
      refine ⟨?_, { h with lock := congrArg List.tail h.lock }⟩
      simp only [Faults.take, h.lock]
      exact .refl (fun _ => rfl) _
  | unlock token =>
    refine ⟨?_, { h with unlock := congrArg List.tail h.unlock }⟩
    simp only [Faults.take, h.unlock]
    exact .refl (fun _ => rfl) _
  | pause length => exact ⟨.pass, h⟩

/-- Worlds that agree but for the errors which are planned. -/
def World.UpToErrors (w v : World) : Prop :=
  ∃ fs, v = { w with faults := fs } ∧ w.faults.UpToErrors fs

/-- Work on a call that has come equally far. -/
inductive Phase.UpToErrors {c : Call} : Phase c → Phase c → Prop where
  | fresh : UpToErrors .fresh .fresh
  | sleeping {due : Tick} {f f' : Fault c.Answer} (h : f.UpToErrors c.UpToErrors f') :
      UpToErrors (.sleeping due f) (.sleeping due f')
  | stalled : UpToErrors .stalled .stalled
  | queued (limit : Option Tick) : UpToErrors (.queued limit) (.queued limit)

inductive Progress.UpToErrors {c : Call} : Progress c → Progress c → Prop where
  | answered {a b : c.Answer} (h : c.UpToErrors a b) : UpToErrors (.answered a) (.answered b)
  | pending {p q : Phase c} (h : p.UpToErrors q) : UpToErrors (.pending p) (.pending q)
  | crashed : UpToErrors .crashed .crashed

inductive Turn.UpToErrors {g : Guard} {c : Call} : Turn g c → Turn g c → Prop where
  | concluded {o p : g.Outcome c.Answer} (h : g.UpToErrors c o p) :
      UpToErrors (.concluded o) (.concluded p)
  | pending {p q : Phase c} (h : p.UpToErrors q) : UpToErrors (.pending p) (.pending q)
  | crashed : UpToErrors .crashed .crashed

theorem Phase.UpToErrors.refl {c : Call} (p : Phase c) : p.UpToErrors p := by
  cases p with
  | fresh => exact .fresh
  | sleeping due next => exact .sleeping (.refl (Call.UpToErrors.refl c) next)
  | stalled => exact .stalled
  | queued limit => exact .queued limit

theorem Progress.UpToErrors.refl {c : Call} (progress : Progress c) :
    progress.UpToErrors progress := by
  cases progress with
  | answered a => exact .answered (.refl c a)
  | pending p => exact .pending (.refl p)
  | crashed => exact .crashed

namespace World

variable {w v : World} {ticket : Nat} {c : Call}

theorem UpToErrors.refl (w : World) : w.UpToErrors w := ⟨w.faults, rfl, .refl _⟩

theorem UpToErrors.clock (h : w.UpToErrors v) : v.clock = w.clock := by
  obtain ⟨fs, rfl, -⟩ := h
  rfl

theorem UpToErrors.noteHolder (h : w.UpToErrors v) (holder : Holder) :
    (w.noteHolder holder).UpToErrors (v.noteHolder holder) := by
  obtain ⟨fs, rfl, hfs⟩ := h
  unfold World.noteHolder
  simp only
  split
  · exact ⟨fs, rfl, hfs⟩
  · exact ⟨fs, rfl, hfs⟩

theorem UpToErrors.noteAnswer (h : w.UpToErrors v) {a b : c.Answer} (hab : c.UpToErrors a b) :
    (w.noteAnswer c a).UpToErrors (v.noteAnswer c b) := by
  cases c with
  | lock name direct =>
    obtain rfl : a = b := hab
    cases a with
    | ok token => exact h.noteHolder _
    | error e => exact h
  | store c => exact h
  | unlock token => exact h
  | pause length => exact h

theorem UpToErrors.await (h : w.UpToErrors v) (ticket : Nat) (name : String) (direct : Bool)
    (limit : Option Tick) :
    (w.await ticket name direct limit).1.UpToErrors (v.await ticket name direct limit).1 ∧
      (v.await ticket name direct limit).2 = (w.await ticket name direct limit).2 := by
  obtain ⟨fs, rfl, hfs⟩ := h
  unfold World.await
  split
  · rename_i token locks hcollect
    simp only [hcollect]
    have hlocks : World.UpToErrors { w with locks := locks } { w with locks := locks, faults := fs } :=
      ⟨fs, rfl, hfs⟩
    exact ⟨hlocks.noteHolder _, trivial⟩
  · rename_i hcollect
    simp only [hcollect]
    split
    · rename_i hlate
      have hlate : limit.any (· ≤ ({ w with faults := fs } : World).now) = true := hlate
      rw [if_pos hlate]
      exact ⟨⟨fs, rfl, hfs⟩, rfl⟩
    · rename_i hlate
      have hlate : ¬ limit.any (· ≤ ({ w with faults := fs } : World).now) = true := hlate
      rw [if_neg hlate]
      exact ⟨⟨fs, rfl, hfs⟩, rfl⟩

theorem UpToErrors.perform (h : w.UpToErrors v) (ticket : Nat) (c : Call) :
    (w.perform ticket c).1.UpToErrors (v.perform ticket c).1 ∧
      (v.perform ticket c).2 = (w.perform ticket c).2 := by
  obtain ⟨fs, rfl, hfs⟩ := h
  cases c with
  | store c =>
    simp only [World.perform, World.now]
    generalize w.store.perform w.clock.now c = r
    rcases r with - | ⟨a, store⟩
    · exact ⟨⟨fs, rfl, hfs⟩, rfl⟩
    · exact ⟨⟨fs, rfl, hfs⟩, rfl⟩
  | lock name direct =>
    simp only [World.perform, World.now]
    by_cases hlocks : w.locks.available = true
    · rw [if_pos hlocks, if_pos hlocks]
      generalize w.locks.enter name ticket = entered
      obtain ⟨token, locks⟩ := entered
      have hentered : World.UpToErrors { w with locks := locks }
          { w with locks := locks, faults := fs } :=
        ⟨fs, rfl, hfs⟩
      cases token with
      | some token => exact ⟨hentered.noteHolder _, rfl⟩
      | none => exact hentered.await _ _ _ _
    · rw [if_neg hlocks, if_neg hlocks]
      exact ⟨⟨fs, rfl, hfs⟩, rfl⟩
  | unlock token => exact ⟨⟨fs, rfl, hfs⟩, rfl⟩
  | pause length =>
    cases length with
    | none => exact ⟨⟨fs, rfl, hfs⟩, rfl⟩
    | some length =>
      simp only [World.perform, World.now]
      by_cases hlength : length = 0
      · rw [if_pos hlength, if_pos hlength]
        exact ⟨⟨fs, rfl, hfs⟩, rfl⟩
      · rw [if_neg hlength, if_neg hlength]
        exact ⟨⟨fs, rfl, hfs⟩, rfl⟩

theorem UpToErrors.undergo (h : w.UpToErrors v) {f f' : Fault c.Answer}
    (hf : f.UpToErrors c.UpToErrors f')
    (ticket : Nat) : (w.undergo ticket c f).1.UpToErrors (v.undergo ticket c f').1 ∧
      (w.undergo ticket c f).2.UpToErrors (v.undergo ticket c f').2 := by
  induction hf with
  | pass =>
    obtain ⟨hw, hp⟩ := h.perform ticket c
    simp only [World.undergo, hp]
    exact ⟨hw, .refl _⟩
  | stall => exact ⟨h, .refl _⟩
  | @delay length f f' hf ih =>
    simp only [World.undergo, World.now, h.clock]
    by_cases hlength : length = 0
    · rw [if_pos hlength, if_pos hlength]
      exact ih
    · rw [if_neg hlength, if_neg hlength]
      exact ⟨h, .pending (.sleeping hf)⟩
  | answer hab => exact ⟨h.noteAnswer hab, .answered hab⟩

theorem UpToErrors.record (h : w.UpToErrors v) (c : Call) :
    (w.record c).UpToErrors (v.record c) := by
  obtain ⟨fs, rfl, hfs⟩ := h
  unfold World.record
  split
  · exact ⟨fs, rfl, hfs⟩
  · exact ⟨fs, rfl, hfs⟩
  · exact ⟨fs, rfl, hfs⟩

theorem UpToErrors.abandon (h : w.UpToErrors v) (ticket : Nat) {p q : Phase c}
    (hpq : p.UpToErrors q) : (w.abandon ticket c p).UpToErrors (v.abandon ticket c q) := by
  obtain ⟨fs, rfl, hfs⟩ := h
  cases hpq with
  | queued limit => cases c <;> exact ⟨fs, rfl, hfs⟩
  | fresh => cases c <;> exact ⟨fs, rfl, hfs⟩
  | sleeping hf => cases c <;> exact ⟨fs, rfl, hfs⟩
  | stalled => cases c <;> exact ⟨fs, rfl, hfs⟩

theorem UpToErrors.work (h : w.UpToErrors v) (ticket : Nat) {p q : Phase c} (hpq : p.UpToErrors q) :
    (w.work ticket c p).1.UpToErrors (v.work ticket c q).1 ∧
      (w.work ticket c p).2.UpToErrors (v.work ticket c q).2 := by
  cases hpq with
  | fresh =>
    obtain ⟨fs, rfl, hfs⟩ := h
    obtain ⟨hfault, hrest⟩ := hfs.take c
    exact UpToErrors.undergo (UpToErrors.record ⟨(fs.take c).2, rfl, hrest⟩ c) hfault ticket
  | @sleeping due f f' hf =>
    have hnow : v.now = w.now := congrArg Clock.now h.clock
    rw [World.work, World.work]
    by_cases hdue : due ≤ w.now
    · rw [if_pos hdue, if_pos (hnow ▸ hdue)]
      exact h.undergo hf ticket
    · rw [if_neg hdue, if_neg (hnow ▸ hdue)]
      exact ⟨h, .pending (.sleeping hf)⟩
  | stalled => exact ⟨h, .refl _⟩
  | queued limit =>
    cases c with
    | lock name direct =>
      obtain ⟨hw, hp⟩ := h.await ticket name direct limit
      simp only [World.work, hp]
      exact ⟨hw, .refl _⟩
    | store c => exact ⟨h, .refl _⟩
    | unlock token => exact ⟨h, .refl _⟩
    | pause length => exact ⟨h, .refl _⟩

theorem UpToErrors.before (h : w.UpToErrors v) (g : Guard) :
    (v.before g : Option (g.Outcome β)) = w.before g := by
  obtain ⟨fs, rfl, -⟩ := h
  cases g <;> rfl

theorem UpToErrors.after (h : w.UpToErrors v) (lapse : Tick) (g : Guard) :
    (v.after lapse g : Option (g.Outcome β)) = w.after lapse g := by
  obtain ⟨fs, rfl, -⟩ := h
  cases g <;> rfl

theorem UpToErrors.attend (h : w.UpToErrors v) (ticket : Nat) (lapse : Tick) (g : Guard)
    {p q : Phase c}
    (hpq : p.UpToErrors q) : (w.attend ticket lapse g c p).1.UpToErrors (v.attend ticket lapse g c q).1 ∧
      (w.attend ticket lapse g c p).2.UpToErrors (v.attend ticket lapse g c q).2 := by
  simp only [World.attend, h.before]
  cases hb : (w.before g : Option (g.Outcome c.Answer)) with
  | some o => exact ⟨h.abandon ticket hpq, .concluded (.same o)⟩
  | none =>
    simp only
    have hwork := h.work ticket hpq
    generalize w.work ticket c p = r at hwork
    generalize v.work ticket c q = r' at hwork
    obtain ⟨w', progress⟩ := r
    obtain ⟨v', progress'⟩ := r'
    obtain ⟨hw, hprogress⟩ := hwork
    simp only at hw hprogress
    cases hprogress with
    | answered hab => exact ⟨hw, .concluded (.answered hab)⟩
    | crashed => exact ⟨hw, .crashed⟩
    | pending hq =>
      simp only [hw.after]
      cases (w'.after lapse g : Option (g.Outcome c.Answer)) with
      | some o => exact ⟨hw.abandon ticket hq, .concluded (.same o)⟩
      | none => exact ⟨hw, .pending hq⟩

theorem UpToErrors.orphan (h : w.UpToErrors v) (held : Option Held) :
    (w.orphan held).UpToErrors (v.orphan held) := by
  obtain ⟨fs, rfl, hfs⟩ := h
  exact ⟨fs, rfl, hfs⟩

end World

/-- Activities that have come equally far. -/
inductive Activity.UpToErrors (R : α → α → Prop) : Activity α → Activity α → Prop where
  | fresh {f f' : Flow α} (h : f.UpToErrors R f') : UpToErrors R (.fresh f) (.fresh f')
  | waiting {ticket : Nat} {lapse : Tick} {g : Guard} {c : Call} {held : Option Held}
      {k k' : g.Outcome c.Answer → Flow α} {p p' : Phase c}
      (hk : ∀ o o', g.UpToErrors c o o' → (k o).UpToErrors R (k' o')) (hp : p.UpToErrors p') :
      UpToErrors R (.waiting ticket lapse g c held k p) (.waiting ticket lapse g c held k' p')
  | done {a b : α} (h : R a b) : UpToErrors R (.done a) (.done b)
  | crashed : UpToErrors R .crashed .crashed

namespace Activity

variable {R : α → α → Prop} {act act' : Activity α} {w v : World}

theorem UpToErrors.isWaiting (h : act.UpToErrors R act') : act'.isWaiting = act.isWaiting := by
  cases h <;> rfl

theorem UpToErrors.look (h : act.UpToErrors R act') (hw : w.UpToErrors v) :
    (act.look w).1.UpToErrors (act'.look v).1 ∧ (act.look w).2.UpToErrors R (act'.look v).2 := by
  cases h with
  | fresh hf =>
    obtain ⟨fs, rfl, hfs⟩ := hw
    cases hf with
    | done h => exact ⟨⟨fs, rfl, hfs⟩, .done h⟩
    | crash => exact ⟨⟨fs, rfl, hfs⟩, .crashed⟩
    | now h => exact ⟨⟨fs, rfl, hfs⟩, .fresh (h _)⟩
    | mint h => exact ⟨⟨fs, rfl, hfs⟩, .fresh (h _)⟩
    | @request root timeout k l h =>
      simp only [Activity.look, World.now]
      cases root.child w.signals w.clock.now timeout with
      | none => exact ⟨⟨fs, rfl, hfs⟩, .crashed⟩
      | some r => exact ⟨⟨fs, rfl, hfs⟩, .fresh (h _)⟩
    | @call g c held k l h =>
      refine ⟨⟨fs, rfl, hfs⟩, ?_⟩
      have hlapse : ({ w with faults := fs } : World).lapse g = w.lapse g := by cases g <;> rfl
      simp only [Activity.look, hlapse]
      exact .waiting h .fresh
  | @waiting ticket lapse g c held k k' p p' hk hp =>
    obtain ⟨hturnWorld, hturn⟩ := hw.attend ticket lapse g hp
    simp only [Activity.look]
    generalize w.attend ticket lapse g c p = r at hturnWorld hturn
    generalize v.attend ticket lapse g c p' = r' at hturnWorld hturn
    obtain ⟨w', turn⟩ := r
    obtain ⟨v', turn'⟩ := r'
    simp only at hturnWorld hturn
    cases hturn with
    | concluded ho => exact ⟨hturnWorld, .fresh (hk _ _ ho)⟩
    | pending hq => exact ⟨hturnWorld, .waiting hk hq⟩
    | crashed => exact ⟨hturnWorld.orphan held, .crashed⟩
  | done h => exact ⟨hw, .done h⟩
  | crashed => exact ⟨hw, .crashed⟩

theorem UpToErrors.forsake (h : act.UpToErrors R act') (hw : w.UpToErrors v) :
    (act.forsake w).UpToErrors (act'.forsake v) := by
  cases h with
  | @waiting ticket lapse g c held k k' p p' hk hp => exact hw.abandon ticket hp
  | fresh h => exact hw
  | done h => exact hw
  | crashed => exact hw

theorem UpToErrors.drop (h : act.UpToErrors R act') (hw : w.UpToErrors v) :
    (act.drop w).UpToErrors (act'.drop v) := by
  cases h with
  | @waiting ticket lapse g c held k k' p p' hk hp => exact (hw.abandon ticket hp).orphan held
  | fresh h => exact hw
  | done h => exact hw
  | crashed => exact hw

end Activity

variable {T : Trade} {R : ∀ j, T.Yield j → T.Yield j → Prop}

def Trade.Role.UpToErrors (R : ∀ j, T.Yield j → T.Yield j → Prop) :
    (e : T.Role) → e.Yield → e.Yield → Prop
  | .job j => R j
  | .release _ => Eq

/-- Parties that have come equally far in the same role. -/
inductive Party.UpToErrors (R : ∀ j, T.Yield j → T.Yield j → Prop) : Party T → Party T → Prop where
  | mk {e : T.Role} {act act' : Activity e.Yield} (h : act.UpToErrors (e.UpToErrors R) act') :
      UpToErrors R ⟨e, act⟩ ⟨e, act'⟩

/-- Crowds that have come equally far. What their logs say may differ. -/
structure Crowd.UpToErrors (R : ∀ j, T.Yield j → T.Yield j → Prop) (s s' : Crowd T) : Prop where
  world : s.world.UpToErrors s'.world
  parties : List.Forall₂ (Party.UpToErrors R) s.parties s'.parties

/-- Moves that are the same, but for the errors which they plan. -/
inductive Move.UpToErrors : Move T → Move T → Prop where
  | same (m : Move T) : UpToErrors m m
  | plan {fs gs : Faults} (h : fs.UpToErrors gs) : UpToErrors (.plan fs) (.plan gs)

theorem forall₂_getElem? {S : α → β → Prop} {as : List α} {bs : List β} (h : List.Forall₂ S as bs)
    (i : Nat) : Option.Rel S as[i]? bs[i]? := by
  induction h generalizing i with
  | nil => exact .none
  | cons hab h ih =>
    cases i with
    | zero => exact .some hab
    | succ i => exact ih i

theorem forall₂_set {S : α → β → Prop} {as : List α} {bs : List β} (h : List.Forall₂ S as bs)
    (i : Nat) {a : α} {b : β} (hab : S a b) : List.Forall₂ S (as.set i a) (bs.set i b) := by
  induction h generalizing i with
  | nil => exact .nil
  | cons hcd h ih =>
    cases i with
    | zero => exact .cons hab h
    | succ i => exact .cons hcd (ih i)

theorem Flow.upToErrors_release (h : Held) : (Flow.release h).UpToErrors Eq (Flow.release h) :=
  .call fun _ _ _ => .done rfl

namespace Crowd

variable {s s' : Crowd T}

theorem UpToErrors.party (h : s.UpToErrors R s') (i : Nat) :
    (s.parties[i]? = none ∧ s'.parties[i]? = none) ∨
    ∃ (e : T.Role) (act act' : Activity e.Yield), s.parties[i]? = some ⟨e, act⟩ ∧
      s'.parties[i]? = some ⟨e, act'⟩ ∧ act.UpToErrors (e.UpToErrors R) act' := by
  have hi := forall₂_getElem? h.parties i
  generalize s.parties[i]? = p at hi
  generalize s'.parties[i]? = p' at hi
  cases hi with
  | none => exact .inl ⟨rfl, rfl⟩
  | some hp =>
    obtain ⟨hact⟩ := hp
    exact .inr ⟨_, _, _, rfl, rfl, hact⟩

theorem UpToErrors.done (h : s.UpToErrors R s') {i : Nat} {j : T.Job} {r : T.Yield j}
    (hd : s.parties[i]? = some ⟨.job j, .done r⟩) :
    ∃ r', s'.parties[i]? = some ⟨.job j, .done r'⟩ ∧ R j r r' := by
  rcases h.party i with ⟨hi, -⟩ | ⟨e, act, act', hi, hi', hact⟩
  · cases hi.symm.trans hd
  · obtain ⟨⟩ := Option.some.inj (hi.symm.trans hd)
    cases hact with
    | done hr => exact ⟨_, hi', hr⟩

theorem UpToErrors.become (h : s.UpToErrors R s') (i : Nat) {e : T.Role}
    {act act' : Activity e.Yield}
    (hact : act.UpToErrors (e.UpToErrors R) act') {w v : World} (hw : w.UpToErrors v) :
    (s.become i ⟨e, act⟩ w).UpToErrors R (s'.become i ⟨e, act'⟩ v) :=
  ⟨hw, forall₂_set h.parties i (.mk hact)⟩

theorem UpToErrors.note (h : s.UpToErrors R s') (d d' : Option ServedCall) :
    (s.note d).UpToErrors R (s'.note d') :=
  ⟨h.world, h.parties⟩

theorem UpToErrors.giveUp (h : s.UpToErrors R s') {e : T.Role} {act act' : Activity e.Yield}
    (i : Nat) (hact : act.UpToErrors (e.UpToErrors R) act') {w v : World} (hw : w.UpToErrors v) :
    (if act.isWaiting = true then s.become i ⟨e, .crashed⟩ w else s).UpToErrors R
      (if act'.isWaiting = true then s'.become i ⟨e, .crashed⟩ v else s') := by
  rw [hact.isWaiting]
  split
  · exact h.become i .crashed hw
  · exact h

theorem UpToErrors.act (hT : ∀ j, (T.flow j).UpToErrors (R j) (T.flow j)) (h : s.UpToErrors R s')
    {m m' : Move T} (hm : m.UpToErrors m') : (s.act m).UpToErrors R (s'.act m') := by
  obtain ⟨fs, hworld, hfs⟩ := h.world
  cases hm with
  | plan hplan => exact ⟨⟨_, by simp only [Crowd.act, hworld], hplan⟩, h.parties⟩
  | same m =>
    cases m with
    | join j => exact ⟨h.world, List.rel_append h.parties (.cons (.mk (.fresh (hT j))) .nil)⟩
    | look i =>
      rcases h.party i with ⟨hi, hi'⟩ | ⟨e, act, act', hi, hi', hact⟩
      · simpa only [Crowd.act, hi, hi'] using h
      · simp only [Crowd.act, hi, hi']
        obtain ⟨hleft, hlook⟩ := hact.look h.world
        exact (h.become i hlook hleft).note _ _
    | drop i =>
      rcases h.party i with ⟨hi, hi'⟩ | ⟨e, act, act', hi, hi', hact⟩
      · simpa only [Crowd.act, hi, hi'] using h
      · simp only [Crowd.act, hi, hi']
        exact h.giveUp i hact (hact.drop h.world)
    | forsake i =>
      rcases h.party i with ⟨hi, hi'⟩ | ⟨e, act, act', hi, hi', hact⟩
      · simpa only [Crowd.act, hi, hi'] using h
      · simp only [Crowd.act, hi, hi']
        exact h.giveUp i hact (hact.forsake h.world)
    | adopt =>
      refine ⟨⟨fs, by simp only [Crowd.act, hworld], hfs⟩, List.rel_append h.parties ?_⟩
      rw [hworld]
      refine List.forall₂_map_left_iff.2 (List.forall₂_map_right_iff.2 ?_)
      exact List.forall₂_same.2 fun held _ => .mk (.fresh (Flow.upToErrors_release held))
    | pass length =>
      refine ⟨⟨fs, ?_, hfs⟩, h.parties⟩
      simp only [Crowd.act, Crowd.now, World.now, World.setNow, hworld]
    | signal signals => exact ⟨⟨fs, by simp only [Crowd.act, hworld], hfs⟩, h.parties⟩
    | plan gs => exact ⟨⟨gs, by simp only [Crowd.act, hworld], .refl gs⟩, h.parties⟩
    | switchStore available accepting =>
      exact ⟨⟨fs, by simp only [Crowd.act, hworld], hfs⟩, h.parties⟩
    | switchLocks available => exact ⟨⟨fs, by simp only [Crowd.act, hworld], hfs⟩, h.parties⟩
    | store c =>
      simp only [Crowd.act, Crowd.now, World.now, hworld]
      cases s.world.store.perform s.world.clock.now c with
      | none => exact h
      | some r => exact ⟨⟨fs, rfl, hfs⟩, h.parties⟩
    | unlock token => exact ⟨⟨fs, by simp only [Crowd.act, hworld], hfs⟩, h.parties⟩

theorem UpToErrors.play (hT : ∀ j, (T.flow j).UpToErrors (R j) (T.flow j))
    {moves moves' : List (Move T)}
    (hmoves : List.Forall₂ Move.UpToErrors moves moves') (h : s.UpToErrors R s') :
    (s.play moves).UpToErrors R (s'.play moves') := by
  induction hmoves generalizing s s' with
  | nil => exact h
  | cons hm _ ih => exact ih (h.act hT hm)

end Crowd

end Registrar
