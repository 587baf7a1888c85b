import Registrar.Proofs.Counter
import Registrar.Proofs.Mint.Course
set_option autoImplicit false

namespace Registrar

def Call.counted? : (c : Call) → c.Answer → Option (String × Int)
  | .store c, a => c.counted? a
  | _, _ => none

/-- The counter that a served call took up, and to which number. -/
def ServedCall.counted? (d : ServedCall) : Option (String × Int) := d.call.counted? d.answer

theorem ServedCall.counted?_of_not_store {d : ServedCall} (h : ∀ c, d.call ≠ .store c) :
    d.counted? = none := by
  obtain ⟨who, c, answer, time⟩ := d
  cases c with
  | store c => exact absurd rfl (h c)
  | _ => rfl

theorem StoreCall.mem_writes_of_counted {c : StoreCall} {a : Except StoreError c.Answer}
    {key : String} {n : Int} (h : c.counted? a = some (key, n)) : key ∈ c.writes := by
  cases c with
  | incr k =>
    cases a with
    | ok v =>
      cases h
      exact List.mem_singleton_self _
    | error e => cases h
  | _ => cases h

def countless : Answers := fun c a => c.counted? a = none

def Identifier.count (id : Identifier) : Day × Int := (id.day, id.number)

namespace Allocator

def identifier? : Except AllocError Identifier → Option Identifier
  | .ok id => some id
  | .error (.releaseFailed id _) => some id
  | .error _ => none

theorem identifier?_settle (day : Day) (counted : Except AllocError Nat)
    (failure : Option ReleaseFailure) :
    identifier? (settle day counted failure) = identifier? (settle day counted none) := by
  cases counted <;> cases failure <;> rfl

end Allocator

namespace Place

def number? : Place → Option (Day × Int)
  | .timing _ day _ n | .renewing _ day _ n _ => some (day, n)
  | .releasing day _ counted =>
    (Allocator.identifier? (Allocator.settle day counted none)).map (·.count)
  | .ended r => (Allocator.identifier? r).map (·.count)
  | .reading _ | .opening _ _ _ | .queuing _ _ | .counting _ _ _ | .lost => none

end Place

theorem Allocator.identifier?_number {a : Allocator} {day day' : Day} {n n' : Int}
    (h : (identifier? (settle day (a.number day n) none)).map (·.count) = some (day', n')) :
    day' = day ∧ n' = n := by
  unfold number at h
  split at h
  · cases h
  · rename_i hn
    simp only [settle, identifier?, Identifier.count, Option.map_some, Option.some.injEq,
      Prod.mk.injEq] at h
    exact ⟨h.1.symm, by omega⟩

theorem Passage.number {P : Answers} {a : Allocator} {i : Nat} {w : World} {L : Prop} {p q : Place}
    {d : Option ServedCall} {orphans : List Held}
    (hp : Passage P a i w L p d q orphans) {day : Day} {n : Int}
    (hq : q.number? = some (day, n)) :
    p.number? = some (day, n) ∨
      (∃ ctx token, p = .counting ctx day token) ∧
        Told P i w d (.store (.incr (a.counterKey day))) (.ok n) := by
  cases hp with
  | still => exact .inl hq
  | counted hd =>
    cases hq
    exact .inr ⟨⟨_, _, rfl⟩, hd⟩
  | timed => exact .inl hq
  | renewed hd =>
    obtain ⟨rfl, rfl⟩ := Allocator.identifier?_number hq
    exact .inl rfl
  | released hd =>
    simp only [Place.number?, Allocator.identifier?_settle] at hq
    exact .inl hq
  | lapsed =>
    simp only [Place.number?, Allocator.identifier?_settle] at hq
    exact .inl hq
  | _ => cases hq

namespace Crowd

variable {P : Answers} {s : Crowd mint} {m : Move mint} {place place' : Nat → Place}

def result? (s : Crowd mint) (i : Nat) : Option (Except AllocError Identifier) :=
  match s.parties[i]? with
  | some ⟨.job (.allocate _ _), .done r⟩ => some r
  | _ => none

theorem Course.ended (hc : s.Course place) {i : Nat} {r : Except AllocError Identifier}
    (hr : s.result? i = some r) : ∃ a, s.allocator? i = some a ∧ place i = .ended r := by
  unfold result? at hr
  split at hr
  · rename_i a o r' hi
    cases hr
    refine ⟨a, allocator?_of_party hi, ?_⟩
    have hs : Flow.done r = (place i).flow a := hc i _ hi
    generalize place i = p at hs
    cases p <;> cases hs
    rfl
  · cases hr

def Numbered (s : Crowd mint) (place : Nat → Place) : Prop :=
  ∀ i a day n, s.allocator? i = some a → (place i).number? = some (day, n) →
    ∃ d ∈ s.log, d.who = some i ∧ d.counted? = some (a.counterKey day, n)

theorem numbered_around (w : World) (place : Nat → Place) : (around w).Numbered place := by
  intro i a day n ha
  simp [around, allocator?, role?] at ha

theorem Numbered.act (hn : s.Numbered place) (hon : s.Onward countless m place place') :
    (s.act m).Numbered place' := by
  intro i a day n ha hq
  rw [act_log]
  rcases hon.of_act ha with ⟨ha, hf⟩ | ⟨o, ho⟩
  · have hold : (place i).number? = some (day, n) →
        ∃ d ∈ (s.did m).toList ++ s.log, d.who = some i ∧
          d.counted? = some (a.counterKey day, n) := by
      intro hp
      obtain ⟨d, hd, h⟩ := hn i a day n ha hp
      exact ⟨d, List.mem_append_right _ hd, h⟩
    generalize place' i = q at hf hq
    generalize place i = p at hf hold
    cases hf with
    | stayed => exact hold hq
    | looked hm hp ho =>
      rcases hp.number hq with h | ⟨-, hd | ⟨-, hmade⟩⟩
      · exact hold h
      · exact ⟨_, List.mem_append_left _ (by rw [hd]; exact List.mem_singleton_self _), rfl, rfl⟩
      · cases hmade
    | dropped => cases hq
    | forsaken => cases hq
  · rw [ho] at hq
    cases o <;> cases hq

theorem Numbered.result (hn : s.Numbered place) (hc : s.Course place) {i : Nat} {a : Allocator}
    (ha : s.allocator? i = some a) {r : Except AllocError Identifier} (hr : s.result? i = some r)
    {id : Identifier} (hid : Allocator.identifier? r = some id) :
    ∃ d ∈ s.log, d.who = some i ∧ d.counted? = some (a.counterKey id.day, (id.number : Int)) := by
  obtain ⟨b, -, hplace⟩ := hc.ended hr
  refine hn i a id.day id.number ha ?_
  simp [hplace, Place.number?, hid, Identifier.count]

theorem Course.tended (hc : s.Course place) (ho : s.Orderly P)
    (hP : ∀ length, P (.pause length) ()) {key : String}
    (hkey : ∀ c, m = .store c → key ∉ c.writes) :
    (s.act m).world.store.entries = s.world.store.entries ∧
        (∀ d ∈ s.did m, ∀ c, d.call ≠ .store c) ∨
      ∃ who c a, s.did m = some ⟨who, .store c, a, s.now⟩ ∧ (s.act m).now = s.now ∧
        s.world.store.Tended s.now key (s.act m).world.store c a ∧
        (key ∈ c.writes → ∃ i b, who = some i ∧ m = .look i ∧ s.allocator? i = some b ∧
          (place i).call? b = some (.store c)) := by
  rcases act_store ho hP m with h | ⟨who, c, a, t, hd, hp, ht⟩
  · exact .inl h
  · have hnow : (s.act m).now = s.now := by
      rcases act_clock ho hP m with h | ⟨length, rfl, -⟩
      · exact congrArg Clock.now h
      · cases hd
    have hcall : key ∈ c.writes → ∃ i b, who = some i ∧ m = .look i ∧ s.allocator? i = some b ∧
        (place i).call? b = some (.store c) := by
      intro hmem
      rcases (did_eq_some hd).2 with ⟨i, p, rfl, hi, hserved⟩ | ⟨-, ⟨c', rfl, hcc⟩ | ⟨token, -, hu⟩⟩
      · obtain ⟨hw, -, g, held, k, hr⟩ := Activity.servedCall_eq_some hserved
        obtain ⟨b, hb, hcb⟩ := hc.call_of_store hi hr
        exact ⟨i, b, hw, rfl, hb, hcb⟩
      · cases hcc
        exact absurd hmem (hkey c rfl)
      · cases hu
    refine .inr ⟨who, c, a, hd, hnow, ?_, hcall⟩
    rw [ht]
    refine Store.perform_tended hp fun hmem => ?_
    obtain ⟨i, b, -, -, -, hcb⟩ := hcall hmem
    generalize place i = p at hcb
    cases p with
    | counting ctx day token =>
      cases hcb
      exact .inl (congrArg _ (List.mem_singleton.1 hmem).symm)
    | renewing ctx day token n ttl =>
      cases hcb
      exact .inr ⟨ttl, by rw [List.mem_singleton.1 hmem]⟩
    | _ => cases hcb

end Crowd

end Registrar
