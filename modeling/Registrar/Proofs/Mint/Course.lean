import Mathlib.Logic.Function.Basic
import Registrar.Proofs.Mint
/-!
The courses of a crowd of allocations: at which place each of them stands. Main statement: a move
takes one allocation at most to another place, and leaves the others where they are (`Course.act`).
-/
set_option autoImplicit false

namespace Registrar

namespace Activity

variable {α : Type} {P : Answers} {w : World} {i : Nat}

/-- An activity of one call stands before it, at its end, or is lost. -/
def Single (f : Flow α) (act : Activity α) : Prop :=
  act.rest = f ∨ (∃ r, act.rest = .done r) ∨ act.rest = .crash

theorem look_over {act : Activity α} (h : (∃ r, act.rest = .done r) ∨ act.rest = .crash) :
    (act.look w).2.rest = act.rest ∧ (act.look w).1 = w ∧ act.servedCall i w = none := by
  cases act with
  | waiting ticket lapse g c held k p => simp [rest] at h
  | done r => exact ⟨rfl, rfl, rfl⟩
  | crashed => exact ⟨rfl, rfl, rfl⟩
  | fresh f => cases f <;> simp [rest, look, servedCall] at h ⊢

theorem Single.look {g : Guard} {c : Call} {r : g.Outcome c.Answer → α} {act : Activity α}
    (h : act.Single (.call g c none fun o => .done (r o))) (hat : act.Attended P w) :
    (act.look w).2.Single (.call g c none fun o => .done (r o)) ∧
      (act.look w).1.orphans = w.orphans ∧ ∀ d ∈ act.servedCall i w, d.call = c := by
  rcases h with h | h
  · obtain ⟨orphans, hadv, ho⟩ := look_advanced (i := i) h hat fun _ => trivial
    have hd : ∀ d ∈ act.servedCall i w, d.call = c := by
      intro d hd
      obtain ⟨-, -, g', held', k', hr⟩ := servedCall_eq_some hd
      rw [h] at hr
      cases hr
      rfl
    generalize act.servedCall i w = d at hadv hd
    generalize hf : (act.look w).2.rest = f at hadv
    cases hadv with
    | still => exact ⟨.inl hf, by simpa using ho, hd⟩
    | told => exact ⟨.inr (.inl ⟨_, hf⟩), by simpa using ho, hd⟩
    | cutOff => exact ⟨.inr (.inl ⟨_, hf⟩), by simpa using ho, hd⟩
    | crashed => exact ⟨.inr (.inr hf), by simpa using ho, hd⟩
  · obtain ⟨hrest, hw, hd⟩ := look_over (w := w) (i := i) h
    rw [Single, hrest, hw, hd]
    exact ⟨.inr h, rfl, by simp⟩

end Activity

def Trade.Role.allocator? : mint.Role → Option Allocator
  | .job (.allocate a _) => some a
  | .job (.lock _) | .release _ => none

/-- Where a party stands: an allocation at its place, the others before or after their call. -/
def Party.Stands (p : Place) : Party mint → Prop
  | ⟨.job (.allocate a _), act⟩ => act.rest = p.flow a
  | ⟨.job (.lock name), act⟩ => act.Single (.call .free (.lock name true) none .done)
  | ⟨.release h, act⟩ => act.Single (.release h)

theorem Party.stands_crashed (e : mint.Role) : Party.Stands .lost ⟨e, .crashed⟩ := by
  obtain (⟨a, o⟩ | name) | held := e
  · rfl
  · exact .inr (.inr rfl)
  · exact .inr (.inr rfl)

namespace Crowd

variable {P : Answers} {s : Crowd mint} {place : Nat → Place}

def allocator? (s : Crowd mint) (i : Nat) : Option Allocator :=
  s.role? i >>= (·.allocator?)

def Course (s : Crowd mint) (place : Nat → Place) : Prop :=
  ∀ (i : Nat) (p : Party mint), s.parties[i]? = some p → p.Stands (place i)

theorem course_around (w : World) (place : Nat → Place) : (around w).Course place := by
  intro i p hi
  cases hi

/-- The limit of the call that a party waits for has run out, and there is no answer yet. -/
def Lapses (s : Crowd mint) (i : Nat) : Prop :=
  s.parties[i]?.any (·.activity.lapses s.world) = true

theorem lapses_of_party {i : Nat} {p : Party mint} (hi : s.parties[i]? = some p)
    (hl : p.activity.lapses s.world = true) : s.Lapses i := by
  rw [Lapses, hi]
  exact hl

inductive Fared (P : Answers) (s : Crowd mint) (m : Move mint) (i : Nat) (a : Allocator) :
    Place → Place → Prop where
  | stayed {p : Place} (hm : m ≠ .look i) : Fared P s m i a p p
  | looked {p q : Place} {orphans : List Held} (hm : m = .look i)
      (h : Passage P a i s.world (s.Lapses i) p (s.did m) q orphans)
      (ho : (s.act m).world.orphans = s.world.orphans ++ orphans) : Fared P s m i a p q
  | dropped {p : Place} (hm : m = .drop i)
      (ho : (s.act m).world.orphans = s.world.orphans ++ (p.token?.map a.held).toList) :
      Fared P s m i a p .lost
  | forsaken {p : Place} (hm : m = .forsake i) : Fared P s m i a p .lost

def Stray (s : Crowd mint) (h : Held) : Prop :=
  h ∈ s.world.orphans ∨ ∃ i, s.role? i = some (.release h)

theorem allocator?_eq_some {i : Nat} {a : Allocator} (h : s.allocator? i = some a) :
    ∃ o act, s.parties[i]? = some ⟨.job (.allocate a o), act⟩ := by
  obtain ⟨e, he, ha⟩ := Option.bind_eq_some_iff.1 h
  obtain ⟨p, hp, rfl⟩ := Option.map_eq_some_iff.1 he
  obtain ⟨(⟨a', o⟩ | name) | held, act⟩ := p
  · cases ha
    exact ⟨o, act, hp⟩
  · cases ha
  · cases ha

theorem allocator?_of_party {i : Nat} {p : Party mint} (h : s.parties[i]? = some p) :
    s.allocator? i = p.role.allocator? := by
  simp [allocator?, role?, h]

theorem allocator?_act (s : Crowd mint) (m : Move mint) (i : Nat) :
    (s.act m).allocator? i = s.allocator? i ∨
      s.parties[i]? = none ∧ ∀ a, (s.act m).allocator? i = some a →
        ∃ o, m = .join (.allocate a o) := by
  rcases role?_act s m i with h | ⟨hn, ⟨j, rfl, h⟩ | ⟨held, -, rfl, h⟩⟩
  · exact .inl (by rw [allocator?, allocator?, h])
  · refine .inr ⟨hn, fun a ha => ?_⟩
    rw [allocator?, h] at ha
    obtain ⟨a', o⟩ | name := j
    · cases ha
      exact ⟨o, rfl⟩
    · cases ha
  · refine .inr ⟨hn, fun a ha => ?_⟩
    rw [allocator?, h] at ha
    cases ha

theorem role?_of_act {m : Move mint} {i : Nat} (hi : s.role? i ≠ none) :
    (s.act m).role? i = s.role? i := by
  rcases role?_act s m i with h | ⟨hn, -⟩
  · exact h
  · simp [role?, hn] at hi

theorem allocator?_of_act {m : Move mint} {i : Nat} {a : Allocator} (ha : s.allocator? i = some a) :
    (s.act m).allocator? i = some a := by
  have hi : s.role? i ≠ none := by
    intro hn
    simp [allocator?, hn] at ha
  rw [allocator?, role?_of_act hi]
  exact ha

theorem role?_of_allocator {i : Nat} {a : Allocator} (ha : s.allocator? i = some a) :
    ∃ o, s.role? i = some (.job (.allocate a o)) := by
  obtain ⟨o, act, hi⟩ := allocator?_eq_some ha
  exact ⟨o, by simp [role?, hi]⟩

/-- What one move makes of the places, and whose locks it leaves behind. -/
structure Onward (P : Answers) (s : Crowd mint) (m : Move mint) (place place' : Nat → Place) :
    Prop where
  fared : ∀ i a, s.allocator? i = some a → Fared P s m i a (place i) (place' i)
  begun : ∀ i a, s.parties[i]? = none → (s.act m).allocator? i = some a →
    ∃ o, m = .join (.allocate a o) ∧ place' i = o.place
  left : ∀ h ∈ (s.act m).world.orphans, h ∈ s.world.orphans ∨
    ∃ i a, s.allocator? i = some a ∧ (place i).token? = some h.token ∧ place' i = .lost

theorem Course.become (hc : s.Course place) {i : Nat} {p q : Party mint}
    (hi : s.parties[i]? = some p) {v : World} {there : Place} (hq : q.Stands there) :
    (s.become i q v).Course (Function.update place i there) := by
  intro j r hj
  rcases party_become hi hj with ⟨rfl, rfl⟩ | ⟨hji, hj⟩
  · rw [Function.update_self]
    exact hq
  · rw [Function.update_of_ne hji]
    exact hc j r hj

theorem begun_of_not_join {m : Move mint} (hj : ∀ a o, m ≠ .join (.allocate a o)) {i : Nat}
    (hn : s.parties[i]? = none) : (s.act m).allocator? i = none := by
  rcases allocator?_act s m i with h | ⟨-, h⟩
  · rw [h, allocator?, role?, hn]
    rfl
  · cases ha : (s.act m).allocator? i with
    | none => rfl
    | some a =>
      obtain ⟨o, ho⟩ := h a ha
      exact absurd ho (hj a o)

theorem onward_update {m : Move mint} {i : Nat} {p : Party mint} {there : Place}
    (hi : s.parties[i]? = some p) (hm : ∀ j, j ≠ i → m ≠ .look j) (hj : ∀ j, m ≠ .join j)
    (hthere : ∀ a, s.allocator? i = some a → Fared P s m i a (place i) there)
    (hleft : ∀ h ∈ (s.act m).world.orphans, h ∈ s.world.orphans ∨
      ∃ a, s.allocator? i = some a ∧ (place i).token? = some h.token ∧ there = .lost) :
    s.Onward P m place (Function.update place i there) := by
  refine ⟨fun j a ha => ?_, fun j a hn ha => ?_, fun h hh => ?_⟩
  · by_cases h : j = i
    · subst h
      rw [Function.update_self]
      exact hthere a ha
    · rw [Function.update_of_ne h]
      exact .stayed (hm j h)
  · rw [begun_of_not_join (fun a o => hj _) hn] at ha
    cases ha
  · rcases hleft h hh with hold | ⟨a, ha, ht, hl⟩
    · exact .inl hold
    · exact .inr ⟨i, a, ha, ht, by rw [Function.update_self, hl]⟩

theorem onward_still {m : Move mint} (hm : ∀ i, s.allocator? i ≠ none → m ≠ .look i)
    (hj : ∀ a o, m ≠ .join (.allocate a o))
    (hleft : ∀ h ∈ (s.act m).world.orphans, h ∈ s.world.orphans) :
    s.Onward P m place place := by
  refine ⟨fun i a ha => .stayed (hm i (by simp [ha])), fun i a hn ha => ?_, fun h hh =>
    .inl (hleft h hh)⟩
  rw [begun_of_not_join hj hn] at ha
  cases ha

/-- After a look at a party that stands elsewhere now, the others stand where they stood. -/
theorem Course.passed (hc : s.Course place) {i : Nat} {p : Party mint}
    (hi : s.parties[i]? = some p) (there : Place) {orphans : List Held}
    (hv : (p.activity.look s.world).1.orphans = s.world.orphans ++ orphans)
    (hthere : Party.Stands there ⟨p.role, (p.activity.look s.world).2⟩)
    (hf : ∀ a, s.allocator? i = some a →
      Passage P a i s.world (s.Lapses i) (place i) (p.activity.servedCall i s.world) there orphans)
    (hnone : s.allocator? i = none → orphans = []) :
    (s.act (.look i)).Course (Function.update place i there) ∧
      s.Onward P (.look i) place (Function.update place i there) := by
  have hv' : (s.act (.look i)).world.orphans = s.world.orphans ++ orphans := by
    rw [act_look hi]
    exact hv
  refine ⟨?_, onward_update hi ?_ (by simp) (fun a ha => ?_) ?_⟩
  · rw [act_look hi]
    exact hc.become (v := (p.activity.look s.world).1) hi hthere
  · intro j hj he
    cases he
    exact hj rfl
  · refine .looked rfl ?_ hv'
    rw [did_look hi]
    exact hf a ha
  · intro h hh
    rw [hv', List.mem_append] at hh
    refine hh.imp id fun hh => ?_
    cases ha : s.allocator? i with
    | none => simp [hnone ha] at hh
    | some a => exact ⟨a, rfl, (hf a ha).left hh⟩

theorem Course.look (hc : s.Course place) (ho : s.Orderly P)
    (hP : ∀ length, P (.pause length) ()) {i : Nat} {p : Party mint}
    (hi : s.parties[i]? = some p) :
    ∃ place', (s.act (.look i)).Course place' ∧ s.Onward P (.look i) place place' := by
  have hat := ho.attended hP hi
  have hs := hc i p hi
  have hall := allocator?_of_party hi
  obtain ⟨(⟨a, o⟩ | name) | held, act⟩ := p
  · have hl : act.lapses s.world → s.Lapses i := fun h => lapses_of_party hi h
    obtain ⟨q, orphans, hq, hp, hv⟩ := Place.look_passage (i := i) hs hat hl
    refine ⟨_, hc.passed hi q hv hq (fun a' ha' => ?_) fun hn => ?_⟩
    · rw [hall] at ha'
      cases ha'
      exact hp
    · rw [hall] at hn
      cases hn
  · obtain ⟨hq, hv, -⟩ := Activity.Single.look (i := i) hs hat
    refine ⟨_, hc.passed hi .lost (hv.trans (List.append_nil _).symm) hq
      (fun a ha => ?_) fun _ => rfl⟩
    rw [hall] at ha
    cases ha
  · obtain ⟨hq, hv, -⟩ := Activity.Single.look (i := i) hs hat
    refine ⟨_, hc.passed hi .lost (hv.trans (List.append_nil _).symm) hq
      (fun a ha => ?_) fun _ => rfl⟩
    rw [hall] at ha
    cases ha

theorem Course.giveUp (hc : s.Course place) {m : Move mint} {i : Nat} {p : Party mint} {v : World}
    (hi : s.parties[i]? = some p) (hm : ∀ j, m ≠ .look j) (hj : ∀ j, m ≠ .join j)
    (hact : s.act m = if p.activity.isWaiting then s.become i ⟨p.role, .crashed⟩ v else s)
    (hf : ∀ a, s.allocator? i = some a → p.activity.isWaiting = true →
      Fared P s m i a (place i) .lost)
    (hleft : p.activity.isWaiting = true → ∀ h ∈ v.orphans, h ∈ s.world.orphans ∨
      ∃ a, s.allocator? i = some a ∧ (place i).token? = some h.token) :
    ∃ place', (s.act m).Course place' ∧ s.Onward P m place place' := by
  cases hw : p.activity.isWaiting with
  | false =>
    rw [hw] at hact
    exact ⟨place, hact ▸ hc, onward_still (fun i _ => hm i) (fun a o => hj _) (hact ▸ fun _ h => h)⟩
  | true =>
    rw [hw] at hact
    refine ⟨Function.update place i .lost, ?_, onward_update hi (fun j _ => hm j) hj (fun a ha =>
      hf a ha hw) fun h hh => ?_⟩
    · rw [hact]
      exact hc.become hi (Party.stands_crashed p.role)
    · rw [hact] at hh
      refine (hleft hw h hh).imp id ?_
      rintro ⟨a, ha, ht⟩
      exact ⟨a, ha, ht, rfl⟩

theorem Course.held (hc : s.Course place) {i : Nat} {p : Party mint} (hi : s.parties[i]? = some p)
    (hw : p.activity.isWaiting = true) :
    p.activity.held? = s.allocator? i >>= fun a => (place i).token?.map a.held := by
  have hs := hc i p hi
  rw [allocator?_of_party hi]
  obtain ⟨(⟨a, o⟩ | name) | held, act⟩ := p
  · cases act with
    | waiting ticket lapse g c held k p => exact (Place.call_eq hs.symm).2
    | _ => cases hw
  · cases act with
    | waiting ticket lapse g c held k p =>
      rcases hs with h | ⟨r, h⟩ | h <;> cases h
      rfl
    | _ => cases hw
  · cases act with
    | waiting ticket lapse g c held k p =>
      rcases hs with h | ⟨r, h⟩ | h <;> cases h
      rfl
    | _ => cases hw

theorem Course.gather (hc : s.Course place) {v : World} {more : List (Party mint)}
    {place' : Nat → Place} (hold : ∀ i, i < s.parties.length → place' i = place i)
    (hnew : ∀ (i : Nat) (p : Party mint), more[i]? = some p → p.Stands (place' (s.parties.length + i))) :
    (⟨v, s.parties ++ more, s.log⟩ : Crowd mint).Course place' := by
  intro i p hi
  simp only at hi
  by_cases h : i < s.parties.length
  · rw [List.getElem?_append_left h] at hi
    rw [hold i h]
    exact hc i p hi
  · rw [List.getElem?_append_right (Nat.le_of_not_lt h)] at hi
    have hp := hnew _ p hi
    rwa [Nat.add_sub_cancel' (Nat.le_of_not_lt h)] at hp

theorem Course.drop (hc : s.Course place) {i : Nat} {p : Party mint}
    (hi : s.parties[i]? = some p) :
    ∃ place', (s.act (.drop i)).Course place' ∧ s.Onward P (.drop i) place place' := by
  have hv : (p.activity.drop s.world).orphans = s.world.orphans ++ p.activity.held?.toList := by
    rw [Activity.drop_eq, World.orphan, (p.activity.forsake_quiet s.world).steady.orphans]
  refine hc.giveUp hi (by simp) (by simp) (act_drop hi) (fun a ha hw => .dropped rfl ?_)
    fun hw h hh => ?_
  · rw [act_drop hi, if_pos hw, Crowd.become, hv, hc.held hi hw, ha]
    rfl
  · rw [hv, List.mem_append, hc.held hi hw, Option.mem_toList] at hh
    refine hh.imp id fun hh => ?_
    obtain ⟨a, ha, ht⟩ := Option.bind_eq_some_iff.1 hh
    obtain ⟨token, htoken, rfl⟩ := Option.map_eq_some_iff.1 ht
    exact ⟨a, ha, htoken⟩

theorem Course.enter (hc : s.Course place) (a : Allocator) (o : Order) :
    (s.act (.join (.allocate a o))).Course (Function.update place s.parties.length o.place) ∧
      s.Onward P (.join (.allocate a o)) place
        (Function.update place s.parties.length o.place) := by
  refine ⟨?_, fun i a' ha' => ?_, fun i a' hn ha' => ?_, fun h hh => .inl hh⟩
  · refine hc.gather (fun i h => Function.update_of_ne (Nat.ne_of_lt h) _ _) fun i p hp => ?_
    obtain ⟨rfl, rfl⟩ : i = 0 ∧ _ = p := by
      simpa [List.getElem?_singleton] using hp
    rw [Nat.add_zero, Function.update_self]
    exact Order.flow_eq a o
  · obtain ⟨o', act, hi⟩ := allocator?_eq_some ha'
    have hlt := (List.getElem?_eq_some_iff.1 hi).1
    rw [Function.update_of_ne (Nat.ne_of_lt hlt)]
    exact .stayed (by simp)
  · obtain ⟨o', act, hi⟩ := allocator?_eq_some ha'
    have hlt := (List.getElem?_eq_some_iff.1 hi).1
    simp only [Crowd.act, List.length_append, List.length_singleton] at hlt
    obtain rfl : i = s.parties.length :=
      Nat.le_antisymm (Nat.le_of_lt_succ hlt) (List.getElem?_eq_none_iff.1 hn)
    have ha : a = a' := by
      simpa [allocator?, role?, Crowd.act, Trade.Role.allocator?] using ha'
    subst ha
    exact ⟨o, rfl, Function.update_self _ _ _⟩

theorem Course.join (hc : s.Course place) (j : Mint.Job) :
    ∃ place', (s.act (.join j)).Course place' ∧ s.Onward P (.join j) place place' := by
  obtain ⟨a, o⟩ | name := j
  · exact ⟨_, hc.enter a o⟩
  · refine ⟨place, ?_, onward_still (by simp) (by simp) fun h hh => hh⟩
    refine hc.gather (fun _ _ => rfl) fun i p hp => ?_
    obtain ⟨-, rfl⟩ : i = 0 ∧ _ = p := by
      simpa [List.getElem?_singleton] using hp
    exact .inl rfl

theorem Course.act (hc : s.Course place) (ho : s.Orderly P) (hP : ∀ length, P (.pause length) ())
    (m : Move mint) : ∃ place', (s.act m).Course place' ∧ s.Onward P m place place' := by
  have idle : (∀ i, s.allocator? i ≠ none → m ≠ .look i) →
      (∀ a o, m ≠ .join (.allocate a o)) → (s.act m).Course place →
      (∀ h ∈ (s.act m).world.orphans, h ∈ s.world.orphans) →
      ∃ place', (s.act m).Course place' ∧ s.Onward P m place place' :=
    fun hm hj hc' hleft => ⟨place, hc', onward_still hm hj hleft⟩
  cases m with
  | join j => exact hc.join j
  | look i =>
    cases hi : s.parties[i]? with
    | some p => exact hc.look ho hP hi
    | none =>
      have hact : s.act (.look i) = s := by simp only [Crowd.act, hi]
      refine idle ?_ (by simp) (by rwa [hact]) (by simp [hact])
      intro j hj he
      cases he
      simp [allocator?, role?, hi] at hj
  | drop i =>
    cases hi : s.parties[i]? with
    | some p => exact hc.drop hi
    | none =>
      have hact : s.act (.drop i) = s := by simp only [Crowd.act, hi]
      exact idle (by simp) (by simp) (by rwa [hact]) (by simp [hact])
  | forsake i =>
    cases hi : s.parties[i]? with
    | some p =>
      refine hc.giveUp hi (by simp) (by simp) (act_forsake hi) (fun _ _ _ => .forsaken rfl)
        fun _ h hh => .inl ?_
      rwa [(p.activity.forsake_quiet s.world).steady.orphans] at hh
    | none =>
      have hact : s.act (.forsake i) = s := by simp only [Crowd.act, hi]
      exact idle (by simp) (by simp) (by rwa [hact]) (by simp [hact])
  | adopt =>
    refine idle (by simp) (by simp) (hc.gather (fun _ _ => rfl) fun i p hp => ?_) ?_
    · obtain ⟨h, -, rfl⟩ := List.mem_map.1 (List.mem_of_getElem? hp)
      exact .inl rfl
    · simp [Crowd.act]
  | store c =>
    refine idle (by simp) (by simp) ?_ ?_ <;> simp only [Crowd.act] <;> split
    · exact hc
    · exact hc
    · exact fun _ h => h
    · exact fun _ h => h
  | _ => exact idle (by simp) (by simp) hc fun _ h => h

theorem Lawful.course {C : Crowd mint → Move mint → Prop}
    {I : Crowd mint → (Nat → Place) → Prop} (hP : ∀ length, P (.pause length) ())
    (hplans : ∀ s fs, C s (.plan fs) → fs.Within P)
    (hstep : ∀ s m place place', s.Orderly P → s.Course place → C s m →
      s.Onward P m place place' → I s place → I (s.act m) place')
    {w : World} (hw : w.Calm) (hplan : w.faults.Within P) (hI : I (around w) fun _ => .lost)
    {moves : List (Move mint)} (h : (around w).Lawful C moves) :
    ((around w).play moves).Orderly P ∧
      ∃ place, ((around w).play moves).Course place ∧ I ((around w).play moves) place := by
  refine h.preserves (I := fun s => s.Orderly P ∧ ∃ place, s.Course place ∧ I s place) ?_
    ⟨orderly_around hplan hw, _, course_around w _, hI⟩
  rintro s m hm ⟨ho, place, hc, hi⟩
  obtain ⟨place', hc', hon⟩ := hc.act ho hP m
  exact ⟨ho.act hP m fun fs he => hplans s fs (he ▸ hm), place', hc',
    hstep s m place place' ho hc hm hon hi⟩

theorem Onward.stray {m : Move mint} {place' : Nat → Place} (h : s.Onward P m place place')
    {held : Held} (hh : (s.act m).Stray held) :
    s.Stray held ∨
      ∃ i a, s.allocator? i = some a ∧ (place i).token? = some held.token ∧ place' i = .lost := by
  rcases hh with hh | ⟨i, hi⟩
  · exact (h.left held hh).imp .inl id
  · rcases role?_act s m i with he | ⟨-, ⟨j, -, he⟩ | ⟨k, hk, -, he⟩⟩
    · exact .inl (.inr ⟨i, he ▸ hi⟩)
    · rw [he] at hi
      cases hi
    · rw [he] at hi
      cases hi
      exact .inl (.inl hk)

theorem Fared.lost {m : Move mint} {i : Nat} {a : Allocator} {q : Place}
    (h : Fared P s m i a .lost q) : q = .lost := by
  cases h with
  | stayed => rfl
  | looked hm h => exact h.lost_of_lost
  | dropped => rfl
  | forsaken => rfl

theorem Fared.passage {i : Nat} {a : Allocator} {p q : Place} (h : Fared P s (.look i) i a p q) :
    ∃ orphans, Passage P a i s.world (s.Lapses i) p (s.did (.look i)) q orphans ∧
      (s.act (.look i)).world.orphans = s.world.orphans ++ orphans := by
  cases h with
  | stayed hm => exact absurd rfl hm
  | looked _ h ho => exact ⟨_, h, ho⟩
  | dropped hm _ => cases hm
  | forsaken hm => cases hm

theorem Onward.of_act {m : Move mint} {place' : Nat → Place} (h : s.Onward P m place place')
    {i : Nat} {a : Allocator} (ha : (s.act m).allocator? i = some a) :
    s.allocator? i = some a ∧ Fared P s m i a (place i) (place' i) ∨
      ∃ o : Order, place' i = o.place := by
  rcases allocator?_act s m i with he | ⟨hn, -⟩
  · rw [he] at ha
    exact .inl ⟨ha, h.fared i a ha⟩
  · obtain ⟨o, -, ho⟩ := h.begun i a hn ha
    exact .inr ⟨o, ho⟩

theorem Onward.token {m : Move mint} {place' : Nat → Place} (h : s.Onward P m place place')
    {i : Nat} {a : Allocator} {t : LockToken} (hP : ¬ P (.lock a.lockName false) (.ok t))
    (ha : (s.act m).allocator? i = some a) (ht : (place' i).token? = some t) :
    s.allocator? i = some a ∧ (m = .look i ∧ (∃ e ∈ s.did m, e.grant? = some (i, t)) ∨
      (place i).token? = some t ∧ (m = .look i → ∀ e ∈ s.did m, e.freed? = none)) := by
  rcases h.of_act ha with ⟨ha, hf⟩ | ⟨o, ho⟩
  · refine ⟨ha, ?_⟩
    generalize place i = p at hf ⊢
    generalize place' i = q at hf ht
    cases hf with
    | stayed hne => exact .inr ⟨ht, fun hm => absurd hm hne⟩
    | looked hm hpass _ =>
      rcases hpass.token ht with hg | hmade | ⟨hold, hfree⟩
      · exact .inl ⟨hm, hg⟩
      · exact absurd hmade hP
      · exact .inr ⟨hold, fun _ => hfree⟩
    | dropped => cases ht
    | forsaken => cases ht
  · rw [ho, Order.place_token] at ht
    cases ht

theorem Course.did_of_none (hc : s.Course place) (ho : s.Orderly P)
    (hP : ∀ length, P (.pause length) ()) {i : Nat} (hi : s.allocator? i = none) {d : ServedCall}
    (hd : s.did (.look i) = some d) :
    (∃ name, d.call = .lock name true) ∨ ∃ h, s.Stray h ∧ d.call = .unlock h.token := by
  rcases (did_eq_some hd).2 with ⟨j, p, hj, hp, hserved⟩ | ⟨-, ⟨c, hm, -⟩ | ⟨token, hm, -⟩⟩
  · cases hj
    have hs := hc i p hp
    have hat := ho.attended hP hp
    have he : s.role? i = some p.role := by simp [role?, hp]
    rw [allocator?_of_party hp] at hi
    obtain ⟨(⟨a, o⟩ | name) | held, act⟩ := p
    · cases hi
    · exact .inl ⟨name, (Activity.Single.look (i := i) hs hat).2.2 d hserved⟩
    · exact .inr ⟨held, .inr ⟨i, he⟩, (Activity.Single.look (i := i) hs hat).2.2 d hserved⟩
  · cases hm
  · cases hm

theorem Course.call_of_store (hc : s.Course place) {i : Nat} {p : Party mint}
    (hi : s.parties[i]? = some p) {g : Guard} {c : StoreCall} {held : Option Held}
    {k : g.Outcome (Call.store c).Answer → Flow p.role.Yield}
    (hr : p.activity.rest = .call g (.store c) held k) :
    ∃ a, s.allocator? i = some a ∧ (place i).call? a = some (.store c) := by
  have hs := hc i p hi
  rw [allocator?_of_party hi]
  obtain ⟨(⟨a, o⟩ | name) | h, act⟩ := p
  · exact ⟨a, rfl, (Place.call_eq (hs.symm.trans hr)).1⟩
  · rcases hs with hs | ⟨r, hs⟩ | hs <;> cases hs.symm.trans hr
  · rcases hs with hs | ⟨r, hs⟩ | hs <;> cases hs.symm.trans hr

end Crowd

end Registrar
