import Mathlib.Data.List.Nodup
import Mathlib.Logic.Function.Basic
import Registrar.Proofs.Crowd.Served
/-!
Traces: what a flow has met with since it began. A flow that calls only as it may, whatever it meets
with, can be told so once for all its ways (`Flow.Keeps`), and each party of a crowd has come some
way of its own (`Chronicle`). Main statement: every move lets each trace go on (`Chronicle.act`).
-/
set_option autoImplicit false

namespace Registrar

/-- A call is told its adapter's answer, or missed: made to fail, or cut off. -/
inductive Event where
  | read (t : Clock)
  | minted (n : Nat)
  | opened (ctx : Context)
  | told (d : ServedCall)
  | missed (c : Call)

namespace Event

def servedCall? : Event → Option ServedCall
  | .told d => some d
  | .read _ | .minted _ | .opened _ | .missed _ => none

def mint? : Event → Option Nat
  | .minted n => some n
  | .read _ | .opened _ | .told _ | .missed _ => none

def time? : Event → Option Tick
  | .read t => some t.now
  | .told d => some d.time
  | .minted _ | .opened _ | .missed _ => none

end Event

def heard (h : List Event) : List ServedCall := h.filterMap Event.servedCall?

def mints (h : List Event) : List Nat := h.filterMap Event.mint?

def InTime (h : List Event) : Prop :=
  h.Pairwise fun e f => ∀ t ∈ e.time?, ∀ u ∈ f.time?, u ≤ t

section

variable (h : List Event) (t : Clock) (n : Nat) (ctx : Context) (d : ServedCall) (c : Call)

@[simp] theorem mints_nil : mints [] = [] := rfl
@[simp] theorem mints_read : mints (.read t :: h) = mints h := rfl
@[simp] theorem mints_minted : mints (.minted n :: h) = n :: mints h := rfl
@[simp] theorem mints_opened : mints (.opened ctx :: h) = mints h := rfl
@[simp] theorem mints_told : mints (.told d :: h) = mints h := rfl
@[simp] theorem mints_missed : mints (.missed c :: h) = mints h := rfl

theorem heard_append (h k : List Event) : heard (h ++ k) = heard h ++ heard k :=
  List.filterMap_append

theorem mints_append (h k : List Event) : mints (h ++ k) = mints h ++ mints k :=
  List.filterMap_append

theorem mem_heard {d : ServedCall} {h : List Event} : d ∈ heard h ↔ .told d ∈ h := by
  simp only [heard, List.mem_filterMap]
  constructor
  · rintro ⟨e, he, hd⟩
    cases e <;> cases hd
    exact he
  · exact fun hd => ⟨_, hd, rfl⟩

end

def Guard.Misses (P : Answers) (g : Guard) (c : Call) (o : g.Outcome c.Answer) : Prop :=
  (∃ a, P c a ∧ o = g.answered a) ∨
    ∃ (w : World) (lapse : Tick), w.before g = some o ∨ w.after lapse g = some o

namespace Flow

variable {α β : Type} (P : Answers) (ids : Nat → String)

/-- Whatever a flow meets with after a trace, it makes no call but those that `C` allows, and ends
only as `Q` allows. -/
def Keeps (C : List Event → Call → Prop) (Q : List Event → α → Prop) :
    Flow α → List Event → Prop
  | .done a, h => Q h a
  | .crash, _ => True
  | .now k, h => ∀ t, (k t).Keeps C Q (.read t :: h)
  | .mint k, h => ∀ n, (k (ids n)).Keeps C Q (.minted n :: h)
  | .request _ _ k, h => ∀ ctx, (k ctx).Keeps C Q (.opened ctx :: h)
  | .call g c _ k, h =>
    C h c ∧ (∀ a who time, (k (g.answered a)).Keeps C Q (.told ⟨who, c, a, time⟩ :: h)) ∧
      ∀ o, g.Misses P c o → (k o).Keeps C Q (.missed c :: h)

inductive Leads (f : Flow α) : List Event → Flow α → Prop where
  | start : Leads f [] f
  | read {h : List Event} {k : Clock → Flow α} (t : Clock) (hl : Leads f h (.now k)) :
      Leads f (.read t :: h) (k t)
  | minted {h : List Event} {k : String → Flow α} (n : Nat) (hl : Leads f h (.mint k)) :
      Leads f (.minted n :: h) (k (ids n))
  | opened {h : List Event} {root : Context} {timeout : Span} {k : Context → Flow α}
      (ctx : Context) (hl : Leads f h (.request root timeout k)) :
      Leads f (.opened ctx :: h) (k ctx)
  | told {h : List Event} {g : Guard} {c : Call} {held : Option Held}
      {k : g.Outcome c.Answer → Flow α} (a : c.Answer) (who : Option Nat) (time : Tick)
      (hl : Leads f h (.call g c held k)) :
      Leads f (.told ⟨who, c, a, time⟩ :: h) (k (g.answered a))
  | missed {h : List Event} {g : Guard} {c : Call} {held : Option Held}
      {k : g.Outcome c.Answer → Flow α} {o : g.Outcome c.Answer} (ho : g.Misses P c o)
      (hl : Leads f h (.call g c held k)) : Leads f (.missed c :: h) (k o)

variable {P ids} {C D : List Event → Call → Prop} {Q R : List Event → α → Prop} {f : Flow α}
  {h : List Event}

theorem Keeps.leads (hf : f.Keeps P ids C Q []) {g : Flow α} (hl : f.Leads P ids h g) :
    g.Keeps P ids C Q h := by
  induction hl with
  | start => exact hf
  | read t _ ih => exact ih t
  | minted n _ ih => exact ih n
  | opened ctx _ ih => exact ih ctx
  | told a who time _ ih => exact ih.2.1 a who time
  | missed ho _ ih => exact ih.2.2 _ ho

def Kept (C : List Event → Call → Prop) : List Event → Prop
  | [] => True
  | .told d :: h => C h d.call ∧ Kept C h
  | .missed c :: h => C h c ∧ Kept C h
  | .read _ :: h | .minted _ :: h | .opened _ :: h => Kept C h

theorem Kept.told {d : ServedCall} (hk : Kept C h) (hd : .told d ∈ h) :
    ∃ later earlier, h = later ++ .told d :: earlier ∧ C earlier d.call := by
  induction h with
  | nil => cases hd
  | cons e h ih =>
    have further : Kept C h → .told d ∈ h →
        ∃ later earlier, e :: h = later ++ .told d :: earlier ∧ C earlier d.call := by
      intro hk hd
      obtain ⟨later, earlier, rfl, hc⟩ := ih hk hd
      exact ⟨e :: later, earlier, rfl, hc⟩
    cases e with
    | told x =>
      rcases List.mem_cons.1 hd with hx | hd
      · cases hx
        exact ⟨[], h, rfl, hk.1⟩
      · exact further hk.2 hd
    | missed c => exact further hk.2 (by simpa using hd)
    | _ => exact further hk (by simpa using hd)

theorem Keeps.kept (hf : f.Keeps P ids C Q []) {g : Flow α} (hl : f.Leads P ids h g) :
    Kept C h := by
  induction hl with
  | start => trivial
  | read t _ ih => exact ih
  | minted n _ ih => exact ih
  | opened ctx _ ih => exact ih
  | told a who time hl ih => exact ⟨(hf.leads hl).1, ih⟩
  | missed ho hl ih => exact ⟨(hf.leads hl).1, ih⟩

theorem Keeps.imp (hf : f.Keeps P ids C Q h) (hC : ∀ h c, C h c → D h c)
    (hQ : ∀ h a, Q h a → R h a) : f.Keeps P ids D R h := by
  induction f generalizing h with
  | done a => exact hQ _ _ hf
  | crash => trivial
  | now k ih => exact fun t => ih t (hf t)
  | mint k ih => exact fun n => ih (ids n) (hf n)
  | request root timeout k ih => exact fun ctx => ih ctx (hf ctx)
  | call g c held k ih =>
    exact ⟨hC _ _ hf.1, fun a who time => ih _ (hf.2.1 a who time), fun o ho => ih o (hf.2.2 o ho)⟩

theorem keeps_bind {Q : List Event → β → Prop} {k : α → Flow β} :
    (f.bind k).Keeps P ids C Q h ↔ f.Keeps P ids C (fun h a => (k a).Keeps P ids C Q h) h := by
  induction f generalizing h with
  | done a => exact Iff.rfl
  | crash => exact Iff.rfl
  | now l ih => exact forall_congr' fun t => ih t
  | mint l ih => exact forall_congr' fun n => ih (ids n)
  | request root timeout l ih => exact forall_congr' fun ctx => ih ctx
  | call g c held l ih =>
    refine and_congr Iff.rfl (and_congr ?_ ?_)
    · exact forall_congr' fun a => forall_congr' fun who => forall_congr' fun time => ih _
    · exact forall_congr' fun o => forall_congr' fun _ => ih o

end Flow

namespace World

/-- What a look that lets a trace go on leaves of the world, and what the trace goes on with. -/
structure Marks (w v : World) (d : Option ServedCall) (e : Option Event) : Prop where
  servedCall : heard e.toList = d.toList
  ids : v.ids = w.ids
  minted : mints e.toList = [] ∧ v.minted = w.minted ∨
    mints e.toList = [w.minted] ∧ v.minted = w.minted + 1
  time : ∀ x ∈ e, ∀ t ∈ x.time?, t = w.now
  clock : ∀ t, .read t ∈ e → t = w.clock

theorem Marks.still {w v : World} (hi : v.ids = w.ids) (hm : v.minted = w.minted) :
    w.Marks v none none where
  servedCall := rfl
  ids := hi
  minted := .inl ⟨rfl, hm⟩
  time := by simp
  clock := by simp

theorem Marks.of_event {w v : World} {d : Option ServedCall} {x : Event} (hi : v.ids = w.ids)
    (hm : v.minted = w.minted) (hd : x.servedCall? = d) (hn : x.mint? = none)
    (ht : ∀ t ∈ x.time?, t = w.now) (hc : ∀ t, x ≠ .read t) : w.Marks v d (some x) where
  servedCall := by cases d <;> simp [heard, hd]
  ids := hi
  minted := .inl ⟨by simp [mints, hn], hm⟩
  time := by simpa using ht
  clock := by
    intro t hr
    exact absurd (Option.some.inj hr) (hc t)

end World

namespace Activity

variable {α : Type} {P : Answers} {f : Flow α} {h : List Event} {act : Activity α} {w : World}
  {i : Nat}

/-- An activity has come this way and goes on from there, or has been lost on it. -/
def Came (P : Answers) (ids : Nat → String) (f : Flow α) (h : List Event) (act : Activity α) :
    Prop :=
  ∃ g, f.Leads P ids h g ∧ (act.rest = g ∨ act.rest = .crash)

theorem Came.lost {lost : Activity α} (hl : act.Came P w.ids f h) (hr : lost.rest = .crash) :
    lost.Came P w.ids f h := by
  obtain ⟨g, hl, -⟩ := hl
  exact ⟨g, hl, .inr hr⟩

theorem Came.leads (hl : act.Came P w.ids f h) (hr : act.rest ≠ .crash) :
    f.Leads P w.ids h act.rest := by
  obtain ⟨g, hl, rfl | hc⟩ := hl
  · exact hl
  · exact absurd hc hr

theorem look_came (hat : act.Attended P w) (hl : act.Came P w.ids f h) :
    ∃ e, w.Marks (act.look w).1 (act.servedCall i w) e ∧
      (act.look w).2.Came P w.ids f (e.toList ++ h) := by
  have on : ∀ {next : Activity α} {e : Event}, f.Leads P w.ids (e :: h) next.rest →
      next.Came P w.ids f ((some e).toList ++ h) := fun hl => ⟨_, hl, .inl rfl⟩
  cases act with
  | done a => exact ⟨none, .still rfl rfl, hl⟩
  | crashed => exact ⟨none, .still rfl rfl, hl⟩
  | fresh g =>
    cases g with
    | done a => exact ⟨none, .still rfl rfl, hl⟩
    | crash => exact ⟨none, .still rfl rfl, hl⟩
    | now k =>
      refine ⟨some (.read w.clock), ?_, on (.read w.clock (hl.leads (by simp [rest])))⟩
      exact ⟨rfl, rfl, .inl ⟨rfl, rfl⟩, by simp [Event.time?, World.now], by simp⟩
    | mint k =>
      refine ⟨some (.minted w.minted), ?_, on (.minted w.minted (hl.leads (by simp [rest])))⟩
      exact ⟨rfl, rfl, .inr ⟨rfl, rfl⟩, by simp [Event.time?], by simp⟩
    | request root timeout k =>
      have hled := hl.leads (by simp [rest])
      simp only [look, servedCall]
      cases hc : root.child w.signals w.now timeout with
      | none => exact ⟨none, .still rfl rfl, hl.lost rfl⟩
      | some r =>
        refine ⟨some (.opened r.1), ?_, on (.opened r.1 hled)⟩
        exact .of_event rfl rfl rfl rfl (by simp [Event.time?]) (by simp)
    | call g c held k => exact ⟨none, .still rfl rfl, hl⟩
  | waiting ticket lapse g c held k p =>
    have hled : f.Leads P w.ids h (.call g c held k) := hl.leads (by simp [rest])
    simp only [Attended] at hat
    have hv := hat.steady
    simp only [look, servedCall]
    generalize w.attend ticket lapse g c p = r at hat hv ⊢
    generalize w.served ticket g c p = served at hat ⊢
    obtain ⟨v, turn⟩ := r
    cases hat with
    | @served a _ _ =>
      refine ⟨some (.told ⟨some i, c, a, w.now⟩), ?_, on (.told a (some i) w.now hled)⟩
      exact .of_event hv.ids hv.minted rfl rfl (by simp [Event.time?]) (by simp)
    | @madeUp a _ ha _ _ =>
      refine ⟨some (.missed c), ?_, on (.missed (.inl ⟨a, ha, rfl⟩) hled)⟩
      exact .of_event hv.ids hv.minted rfl rfl (by simp [Event.time?]) (by simp)
    | cutOff ho _ =>
      refine ⟨some (.missed c), ?_, on (.missed (.inr ⟨w, lapse, ho⟩) hled)⟩
      exact .of_event hv.ids hv.minted rfl rfl (by simp [Event.time?]) (by simp)
    | pending _ _ => exact ⟨none, .still hv.ids hv.minted, hl⟩
    | crashed _ _ => exact ⟨none, .still hv.ids hv.minted, hl.lost rfl⟩

end Activity

namespace Crowd

variable {T : Trade} {P : Answers} {s : Crowd T} {first : Nat} {trace : Nat → List Event}

def servedCalls (s : Crowd T) (i : Nat) : List ServedCall := s.log.filter fun d => d.who = some i

/-- Which way each party has come: its trace tells all its served calls, in order; the identifiers in
it are its own, and none older than the first. -/
structure Chronicle (P : Answers) (first : Nat) (s : Crowd T) (trace : Nat → List Event) :
    Prop where
  leads : ∀ (i : Nat) (p : Party T), s.parties[i]? = some p →
    p.activity.Came P s.world.ids p.role.flow (trace i)
  servedCalls : ∀ i, heard (trace i) = s.servedCalls i
  unborn : ∀ i, s.parties[i]? = none → trace i = []
  begun : first ≤ s.world.minted
  minted : ∀ i, ∀ n ∈ mints (trace i), first ≤ n ∧ n < s.world.minted
  apart : ∀ i j n, n ∈ mints (trace i) → n ∈ mints (trace j) → i = j
  once : ∀ i, (mints (trace i)).Nodup
  past : ∀ i, ∀ e ∈ trace i, ∀ t ∈ e.time?, t ≤ s.now
  clock : ∀ i t, .read t ∈ trace i → t.origin = s.world.clock.origin
  ordered : ∀ i, InTime (trace i)

theorem chronicle_around (w : World) : (around w : Crowd T).Chronicle P w.minted fun _ => [] := by
  constructor
  · intro i p hi
    cases hi
  · exact fun i => rfl
  · exact fun i _ => rfl
  · exact Nat.le_refl _
  all_goals simp [InTime]

namespace Chronicle

section

variable {i : Nat} {p : Party T} {act : Activity p.role.Yield} {v : World} {d : Option ServedCall}
  {e : Option Event}

theorem servedCalls_become (hc : s.Chronicle P first trace) (hm : s.world.Marks v d e)
    (hd : ∀ x ∈ d, x.who = some i) (j : Nat) :
    heard (Function.update trace i (e.toList ++ trace i) j) =
      ((s.become i ⟨p.role, act⟩ v).note d).servedCalls j := by
  have hlog : ((s.become i ⟨p.role, act⟩ v).note d).servedCalls j =
      d.toList.filter (fun d => d.who = some j) ++ s.servedCalls j := List.filter_append _ _
  rw [hlog]
  by_cases hj : j = i
  · subst hj
    have hall : d.toList.filter (fun d => d.who = some j) = d.toList :=
      List.filter_eq_self.2 fun x hx => by simpa using hd x (Option.mem_toList.1 hx)
    rw [Function.update_self, heard_append, hm.servedCall, hall, hc.servedCalls]
  · have hnone : d.toList.filter (fun d => d.who = some j) = [] := by
      refine List.filter_eq_nil_iff.2 fun x hx => ?_
      have hx := hd x (Option.mem_toList.1 hx)
      simpa [hx] using Ne.symm hj
    rw [Function.update_of_ne hj, hnone, hc.servedCalls, List.nil_append]

theorem mem_update {e : Option Event} {j : Nat} {x : Event}
    (hx : x ∈ Function.update trace i (e.toList ++ trace i) j) : x ∈ trace j ∨ x ∈ e := by
  by_cases hj : j = i
  · subst hj
    rw [Function.update_self, List.mem_append, Option.mem_toList] at hx
    exact hx.symm
  · rw [Function.update_of_ne hj] at hx
    exact .inl hx

theorem mem_mints_update (hm : s.world.Marks v d e) {j n : Nat}
    (hn : n ∈ mints (Function.update trace i (e.toList ++ trace i) j)) :
    n ∈ mints (trace j) ∨ j = i ∧ n = s.world.minted ∧ v.minted = s.world.minted + 1 := by
  by_cases hj : j = i
  · subst hj
    rw [Function.update_self, mints_append, List.mem_append] at hn
    rcases hm.minted with ⟨he, -⟩ | ⟨he, hv⟩
    · exact .inl (by simpa [he] using hn)
    · rw [he, List.mem_singleton] at hn
      exact hn.symm.imp id fun hn => ⟨rfl, hn, hv⟩
  · rw [Function.update_of_ne hj] at hn
    exact .inl hn

theorem become (hc : s.Chronicle P first trace) (hi : s.parties[i]? = some p)
    (hm : s.world.Marks v d e) (hclock : v.clock = s.world.clock) (hd : ∀ x ∈ d, x.who = some i)
    (hl : act.Came P s.world.ids p.role.flow (e.toList ++ trace i)) :
    ((s.become i ⟨p.role, act⟩ v).note d).Chronicle P first
      (Function.update trace i (e.toList ++ trace i)) := by
  have hnow : v.now = s.now := congrArg Clock.now hclock
  have hle : s.world.minted ≤ v.minted := by
    rcases hm.minted with ⟨-, hv⟩ | ⟨-, hv⟩ <;> omega
  have hnew : ∀ j, s.world.minted ∉ mints (trace j) := fun j hj =>
    Nat.lt_irrefl _ (hc.minted j _ hj).2
  constructor
  · intro j q hj
    have hids : ((s.become i ⟨p.role, act⟩ v).note d).world.ids = s.world.ids := hm.ids
    rw [hids]
    have hj : (s.become i ⟨p.role, act⟩ v).parties[j]? = some q := hj
    rcases party_become hi hj with ⟨rfl, rfl⟩ | ⟨hji, hj⟩
    · rw [Function.update_self]
      exact hl
    · rw [Function.update_of_ne hji]
      exact hc.leads j q hj
  · exact hc.servedCalls_become hm hd
  · intro j hj
    have hji : j ≠ i := by
      rintro rfl
      have hself : (s.become j ⟨p.role, act⟩ v).parties[j]? = some ⟨p.role, act⟩ := become_self hi
      exact absurd (hself.symm.trans hj) (by simp)
    have hj : (s.become i ⟨p.role, act⟩ v).parties[j]? = none := hj
    rw [become_of_ne hji] at hj
    rw [Function.update_of_ne hji]
    exact hc.unborn j hj
  · exact Nat.le_trans hc.begun hle
  · intro j n hn
    rcases mem_mints_update hm hn with hn | ⟨-, rfl, hv⟩
    · exact ⟨(hc.minted j n hn).1, Nat.lt_of_lt_of_le (hc.minted j n hn).2 hle⟩
    · exact ⟨hc.begun, hv ▸ Nat.lt_succ_self _⟩
  · intro j k n hj hk
    rcases mem_mints_update hm hj with hj' | ⟨rfl, rfl, -⟩ <;>
      rcases mem_mints_update hm hk with hk' | ⟨rfl, hn, -⟩
    · exact hc.apart j k n hj' hk'
    · exact absurd (hn ▸ hj') (hnew j)
    · exact absurd hk' (hnew k)
    · rfl
  · intro j
    by_cases hj : j = i
    · subst hj
      rw [Function.update_self, mints_append]
      rcases hm.minted with ⟨he, -⟩ | ⟨he, -⟩
      · simpa [he] using hc.once j
      · simpa [he] using ⟨hnew j, hc.once j⟩
    · rw [Function.update_of_ne hj]
      exact hc.once j
  · intro j x hx t ht
    have hv : ((s.become i ⟨p.role, act⟩ v).note d).now = s.now := hnow
    rw [hv]
    rcases mem_update hx with hx | hx
    · exact hc.past j x hx t ht
    · exact Nat.le_of_eq (hm.time x hx t ht)
  · intro j t ht
    have hv : ((s.become i ⟨p.role, act⟩ v).note d).world.clock = s.world.clock := hclock
    rw [hv]
    rcases mem_update ht with ht | ht
    · exact hc.clock j t ht
    · rw [hm.clock t ht]
  · intro j
    by_cases hj : j = i
    · subst hj
      rw [Function.update_self]
      cases e with
      | none => exact hc.ordered j
      | some x =>
        refine List.pairwise_cons.2 ⟨fun y hy t ht u hu => ?_, hc.ordered j⟩
        rw [hm.time x rfl t ht]
        exact hc.past j y hy u hu
    · rw [Function.update_of_ne hj]
      exact hc.ordered j

end

theorem gather (hc : s.Chronicle P first trace) {v : World} (hi : v.ids = s.world.ids)
    (hm : v.minted = s.world.minted) (hclock : v.clock = s.world.clock) {more : List (Party T)}
    (hmore : ∀ p ∈ more, p.activity.rest = p.role.flow) :
    (⟨v, s.parties ++ more, s.log⟩ : Crowd T).Chronicle P first trace := by
  have hnow : (⟨v, s.parties ++ more, s.log⟩ : Crowd T).now = s.now := congrArg Clock.now hclock
  constructor
  · intro i p hp
    simp only [hi]
    by_cases hlt : i < s.parties.length
    · rw [List.getElem?_append_left hlt] at hp
      exact hc.leads i p hp
    · have hge := Nat.le_of_not_lt hlt
      rw [List.getElem?_append_right hge] at hp
      rw [hc.unborn i (List.getElem?_eq_none hge)]
      exact ⟨_, .start, .inl (hmore p (List.mem_of_getElem? hp))⟩
  · exact hc.servedCalls
  · intro i hn
    rw [List.getElem?_eq_none_iff, List.length_append] at hn
    exact hc.unborn i (List.getElem?_eq_none (Nat.le_trans (Nat.le_add_right _ _) hn))
  · simpa only [hm] using hc.begun
  · simpa only [hm] using hc.minted
  · exact hc.apart
  · exact hc.once
  · rw [hnow]
    exact hc.past
  · simpa only [hclock] using hc.clock
  · exact hc.ordered

theorem around (hc : s.Chronicle P first trace) {v : World} {log : List ServedCall}
    (hi : v.ids = s.world.ids) (hm : v.minted = s.world.minted)
    (ho : v.clock.origin = s.world.clock.origin) (hnow : s.now ≤ v.now)
    (hlog : ∀ i, log.filter (fun d => d.who = some i) = s.servedCalls i) :
    (⟨v, s.parties, log⟩ : Crowd T).Chronicle P first trace := by
  constructor
  · simpa only [hi] using hc.leads
  · exact fun i => (hc.servedCalls i).trans (hlog i).symm
  · exact hc.unborn
  · simpa only [hm] using hc.begun
  · simpa only [hm] using hc.minted
  · exact hc.apart
  · exact hc.once
  · exact fun i e he t ht => Nat.le_trans (hc.past i e he t ht) hnow
  · simpa only [ho] using hc.clock
  · exact hc.ordered

theorem look (hc : s.Chronicle P first trace) (ho : s.Orderly P)
    (hP : ∀ length, P (.pause length) ()) (i : Nat) :
    ∃ trace', (s.act (.look i)).Chronicle P first trace' := by
  cases hi : s.parties[i]? with
  | none =>
    exact ⟨trace, by simpa only [act, hi] using hc⟩
  | some p =>
    have hat := ho.attended hP hi
    obtain ⟨e, hm, hl⟩ := Activity.look_came (i := i) hat (hc.leads i p hi)
    rw [act_look hi]
    refine ⟨_, hc.become hi hm (Activity.look_clock hat) (fun x hx => ?_) hl⟩
    exact (Activity.servedCall_eq_some hx).1

theorem givenUp (hc : s.Chronicle P first trace) {m : Move T} {i : Nat}
    (hm : m = .drop i ∨ m = .forsake i) : ∃ trace', (s.act m).Chronicle P first trace' := by
  rcases act_given_up (s := s) hm with h | ⟨p, held, hi, -, h⟩
  · exact ⟨trace, by rwa [h]⟩
  · have hs := (p.activity.forsake_quiet s.world).steady
    rw [h]
    exact ⟨_, hc.become (d := none) (v := (p.activity.forsake s.world).orphan held) hi
      (.still hs.ids hs.minted) hs.clock (by simp) ((hc.leads i p hi).lost rfl)⟩

theorem act (hc : s.Chronicle P first trace) (ho : s.Orderly P)
    (hP : ∀ length, P (.pause length) ()) (m : Move T) :
    ∃ trace', (s.act m).Chronicle P first trace' := by
  cases m with
  | join j =>
    refine ⟨trace, hc.gather rfl rfl rfl fun p hp => ?_⟩
    cases List.mem_singleton.1 hp
    rfl
  | look i => exact hc.look ho hP i
  | drop i => exact hc.givenUp (i := i) (.inl rfl)
  | forsake i => exact hc.givenUp (i := i) (.inr rfl)
  | adopt =>
    refine ⟨trace, hc.gather (v := { s.world with orphans := [] }) rfl rfl rfl fun p hp => ?_⟩
    obtain ⟨h, -, rfl⟩ := List.mem_map.1 hp
    rfl
  | pass length => exact ⟨trace, hc.around rfl rfl rfl (Nat.le_add_right _ _) fun i => rfl⟩
  | store c =>
    simp only [Crowd.act]
    split
    · exact ⟨trace, hc⟩
    · exact ⟨trace, hc.around rfl rfl rfl (Nat.le_refl _) fun i => by simp [Crowd.servedCalls]⟩
  | unlock token =>
    exact ⟨trace, hc.around rfl rfl rfl (Nat.le_refl _) fun i => by simp [Crowd.servedCalls]⟩
  | _ => exact ⟨trace, hc.around rfl rfl rfl (Nat.le_refl _) fun i => rfl⟩

theorem ended (hc : s.Chronicle P first trace) {i : Nat} {e : T.Role} {a : e.Yield}
    (hi : s.parties[i]? = some ⟨e, .done a⟩) : e.flow.Leads P s.world.ids (trace i) (.done a) :=
  (hc.leads i _ hi).leads (by simp [Activity.rest])

theorem calls (hc : s.Chronicle P first trace) {i : Nat} {p : Party T} {g : Guard} {c : Call}
    {held : Option Held} {k : g.Outcome c.Answer → Flow p.role.Yield}
    (hi : s.parties[i]? = some p) (hr : p.activity.rest = .call g c held k) :
    p.role.flow.Leads P s.world.ids (trace i) (.call g c held k) :=
  hr ▸ (hc.leads i p hi).leads (by simp [hr])

end Chronicle

theorem act_ids (ho : s.Orderly P) (hP : ∀ length, P (.pause length) ()) (m : Move T) :
    (s.act m).world.ids = s.world.ids := by
  cases m with
  | look i =>
    cases hi : s.parties[i]? with
    | none => simp only [act, hi]
    | some p =>
      obtain ⟨e, hm, -⟩ := Activity.look_came (i := i) (ho.attended hP hi) ⟨_, .start, .inl rfl⟩
      rw [act_look hi]
      exact hm.ids
  | drop i =>
    obtain ⟨v, held, hq, -, hv⟩ := world_given_up (s := s) (i := i) (.inl rfl)
    exact hv ▸ hq.steady.ids
  | forsake i =>
    obtain ⟨v, held, hq, -, hv⟩ := world_given_up (s := s) (i := i) (.inr rfl)
    exact hv ▸ hq.steady.ids
  | store c =>
    simp only [act]
    split <;> rfl
  | _ => rfl

theorem Lawful.chronicle {C : Crowd T → Move T → Prop} {I : Crowd T → Prop}
    (hP : ∀ length, P (.pause length) ()) (hplans : ∀ s fs, C s (.plan fs) → fs.Within P)
    {w : World}
    (hstep : ∀ s m trace, s.Orderly P → s.Chronicle P w.minted trace → C s m → I s → I (s.act m))
    (hw : w.Calm) (hplan : w.faults.Within P) (hI : I (around w)) {moves : List (Move T)}
    (h : (around w).Lawful C moves) :
    ((around w).play moves).Orderly P ∧
      (∃ trace, ((around w).play moves).Chronicle P w.minted trace) ∧ I ((around w).play moves) := by
  refine h.preserves (I := fun s => s.Orderly P ∧ (∃ trace, s.Chronicle P w.minted trace) ∧ I s) ?_
    ⟨orderly_around hplan hw, ⟨_, chronicle_around w⟩, hI⟩
  rintro s m hm ⟨ho, ⟨trace, hc⟩, hi⟩
  exact ⟨ho.act hP m fun fs he => hplans s fs (he ▸ hm), hc.act ho hP m, hstep s m trace ho hc hm hi⟩

end Crowd

end Registrar
