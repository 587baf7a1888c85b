import Mathlib.Data.List.Nodup
import Mathlib.Data.List.Perm.Subperm
import Mathlib.Data.Option.Basic
import Registrar.Proofs.Mint.Numbers
/-!
Allocation without gaps. While a counter lives and only allocations write it, the numbers to which
they take it up follow one another, each allocation counts once at most, and no number is handed out
but by the allocation that counted it.
-/
set_option autoImplicit false

namespace Registrar

def countdown (c : Int) : Nat → List Int
  | 0 => []
  | k + 1 => (c + (k + 1)) :: countdown c k

theorem mem_countdown {c n : Int} {k : Nat} : n ∈ countdown c k ↔ c < n ∧ n ≤ c + k := by
  induction k with
  | zero => simp [countdown]
  | succ k ih =>
    rw [countdown, List.mem_cons, ih]
    omega

theorem countdown_nodup (c : Int) (k : Nat) : (countdown c k).Nodup := by
  induction k with
  | zero => exact List.nodup_nil
  | succ k ih =>
    refine List.nodup_cons.2 ⟨fun h => ?_, ih⟩
    have hm := mem_countdown.1 h
    omega

/-- By whom a counter was taken up, and to which numbers, the last first. -/
def counts (key : String) (log : List ServedCall) : List (Option Nat × Int) :=
  log.filterMap fun d => d.counted?.bind fun r => if r.1 = key then some (d.who, r.2) else none

theorem mem_counts {key : String} {log : List ServedCall} {e : Option Nat × Int} :
    e ∈ counts key log ↔ ∃ d ∈ log, d.who = e.1 ∧ d.counted? = some (key, e.2) := by
  simp only [counts, List.mem_filterMap, Option.bind_eq_some_iff]
  constructor
  · rintro ⟨d, hd, ⟨k, n⟩, hc, he⟩
    split at he
    · rename_i hk
      cases he
      simp only at hk
      exact ⟨d, hd, rfl, hk ▸ hc⟩
    · cases he
  · rintro ⟨d, hd, hw, hc⟩
    exact ⟨d, hd, _, hc, by simp [hw]⟩

theorem counts_cons_of_counted {key : String} {d : ServedCall} {n : Int}
    (h : d.counted? = some (key, n)) (log : List ServedCall) :
    counts key (d :: log) = (d.who, n) :: counts key log := by
  simp [counts, h]

theorem counts_cons_of_not {key : String} {log : List ServedCall} {d : ServedCall}
    (h : ∀ n, d.counted? ≠ some (key, n)) : counts key (d :: log) = counts key log := by
  rw [counts, List.filterMap_cons_none, counts]
  cases hc : d.counted? with
  | none => rfl
  | some r =>
    have hk : r.1 ≠ key := fun hk => h r.2 (by rw [hc, ← hk])
    simp [hk]

/-- The day that an order is for, unless it is for the day that it comes to. -/
def Order.day? : Order → Option Day
  | .on _ day | .request _ _ day => some day
  | .today _ => none

def Trade.Role.takes (key : String) : mint.Role → Bool
  | .job (.allocate a o) => o.day?.any fun day => a.counterKey day == key
  | .job (.lock _) | .release _ => false

namespace Place

def early : Place → Bool
  | .reading _ | .opening _ _ _ | .queuing _ _ | .counting _ _ _ => true
  | .timing _ _ _ _ | .renewing _ _ _ _ _ | .releasing _ _ _ | .ended _ | .lost => false

def For (day : Day) : Place → Prop
  | .reading _ => False
  | .opening _ _ d | .queuing _ d | .counting _ d _ => d = day
  | p => ∀ d n, p.number? = some (d, n) → d = day

theorem For.number {p : Place} {day d : Day} {n : Int} (h : p.For day)
    (hn : p.number? = some (d, n)) : d = day := by
  cases p with
  | reading ctx => exact h.elim
  | opening root timeout d => cases hn
  | queuing ctx d => cases hn
  | counting ctx d token => cases hn
  | timing | renewing | releasing | ended | lost => exact h d n hn

end Place

theorem Order.place_for {o : Order} {day : Day} (h : o.day? = some day) : o.place.For day := by
  cases o <;> cases h <;> rfl

namespace Passage

variable {P : Answers} {a : Allocator} {i : Nat} {w : World} {L : Prop} {p q : Place}
    {d : Option ServedCall}
  {orphans : List Held}

theorem late (hp : Passage P a i w L p d q orphans) (h : p.early = false) : q.early = false := by
  cases hp with
  | still | lost | crashed => first | exact h | rfl
  | _ => first | rfl | cases h

theorem late_of_count (hp : Passage P a i w L p d q orphans) {e : ServedCall} (he : e ∈ d)
    {r : String × Int} (hr : e.counted? = some r) :
    (∃ ctx day token, p = .counting ctx day token ∧ r.1 = a.counterKey day) ∧ q.early = false := by
  cases hp with
  | counted hd =>
    rcases hd with rfl | ⟨rfl, -⟩
    · cases he
      cases hr
      exact ⟨⟨_, _, _, rfl, rfl⟩, rfl⟩
    · cases he
  | locked hd | notLocked hd | notCounted hd | renewed hd | notRenewed hd | released hd =>
    rcases hd with rfl | ⟨rfl, -⟩
    · cases he
      cases hr
    · cases he
  | _ => cases he

theorem onDay (hp : Passage P a i w L p d q orphans) {day : Day} (h : p.For day) : q.For day := by
  have hnum : ∀ d' n, q.number? = some (d', n) → d' = day := by
    intro d' n hq
    rcases hp.number hq with hold | ⟨⟨ctx, token, rfl⟩, -⟩
    · exact h.number hold
    · exact h
  cases hp with
  | still => exact h
  | read => exact h.elim
  | opened | locked => exact h
  | _ => exact hnum

end Passage

namespace Crowd

variable {s : Crowd mint} {m : Move mint} {place place' : Nat → Place} {key : String} {c : Int}

theorem Fared.late {P : Answers} {i : Nat} {a : Allocator} {p q : Place} (h : Fared P s m i a p q)
    (hp : p.early = false) : q.early = false := by
  cases h with
  | stayed => exact hp
  | looked hm h ho => exact h.late hp
  | dropped => rfl
  | forsaken => rfl

theorem Fared.onDay {P : Answers} {i : Nat} {a : Allocator} {p q : Place} (h : Fared P s m i a p q)
    {day : Day} (hp : p.For day) : q.For day := by
  cases h with
  | stayed => exact hp
  | looked hm h ho => exact h.onDay hp
  | dropped => exact fun d n hn => nomatch hn
  | forsaken => exact fun d n hn => nomatch hn

/-- Nobody but allocations writes the counter, those that come for the day that it will be have
other counters, and no counts are made up. -/
def Reserved (key : String) : Move mint → Prop
  | .join (.allocate a o) => o.day? = none → ∀ day, a.counterKey day ≠ key
  | .store call => key ∉ call.writes
  | .plan fs => fs.Within countless
  | _ => True

def Spares (key : String) (s : Crowd mint) (m : Move mint) : Prop :=
  (s.world.store.find? s.now key).isSome → ((s.act m).world.store.find? (s.act m).now key).isSome

instance (key : String) (s : Crowd mint) (m : Move mint) : Decidable (s.Spares key m) :=
  inferInstanceAs (Decidable (_ → _))

def Counting (key : String) (s : Crowd mint) (m : Move mint) : Prop :=
  Reserved key m ∧ s.Spares key m

/-- What the counts come to: they go up by ones, and each is an allocation's own and only one. -/
structure Counted (key : String) (c : Int) (s : Crowd mint) (place : Nat → Place) : Prop where
  value : s.world.store.count? s.now key = some (c + (counts key s.log).length)
  numbers : (counts key s.log).map (·.2) = countdown c (counts key s.log).length
  once : ((counts key s.log).map (·.1)).Nodup
  taken : ∀ e ∈ counts key s.log, ∃ i a, e.1 = some i ∧ s.allocator? i = some a ∧
    (place i).early = false ∧ ∀ f, s.role? i = some f → f.takes key = true
  dated : ∀ i a o, s.role? i = some (.job (.allocate a o)) →
    (∀ day, o.day? = some day → (place i).For day) ∧
      (o.day? = none → ∀ day, a.counterKey day ≠ key)

theorem Course.count_or_still (hc : s.Course place) (ho : s.Orderly countless)
    (hm : s.Counting key m) :
    counts key (s.act m).log = counts key s.log ∧
        (s.act m).world.store.count? (s.act m).now key = s.world.store.count? s.now key ∨
      ∃ i a d v, m = .look i ∧ s.did m = some d ∧ d.who = some i ∧ d.counted? = some (key, v + 1) ∧
        s.allocator? i = some a ∧
        counts key (s.act m).log = (some i, v + 1) :: counts key s.log ∧
        s.world.store.count? s.now key = some v ∧
        (s.act m).world.store.count? (s.act m).now key = some (v + 1) := by
  have hkey : ∀ call, m = .store call → key ∉ call.writes := by
    rintro call rfl
    exact hm.1
  rcases hc.tended ho (fun _ => rfl) hkey with ⟨he, hd⟩ | ⟨who, call, a, hd, hnow, ht, hcall⟩
  · refine .inl ⟨?_, ?_⟩
    · rw [act_log]
      cases hdid : s.did m with
      | none => rfl
      | some d =>
        have hnot := ServedCall.counted?_of_not_store (hd d hdid)
        exact counts_cons_of_not (by simp [hnot])
    · have hf : (s.act m).world.store.find? s.now key = s.world.store.find? s.now key :=
        Store.find?_congr (congrArg (·.get? key) he)
      have hlater := Store.count?_later (act_now_le ho (fun _ => rfl) m)
        fun h => hm.2 (by rwa [hf] at h)
      rw [hlater]
      exact Store.count?_congr hf
  · have hlive : (s.world.store.find? s.now key).isSome →
        ((s.act m).world.store.find? (s.act m).now key).isSome := hm.2
    rw [hnow] at hlive ⊢
    rw [act_log, hd]
    rcases ht.count? hlive with ⟨hn, hv⟩ | ⟨v, hv, hn, hv'⟩
    · exact .inl ⟨counts_cons_of_not hn, hv⟩
    · obtain ⟨i, b, rfl, hmi, hb, -⟩ := hcall (StoreCall.mem_writes_of_counted hn)
      have hcd : (⟨some i, .store call, a, s.now⟩ : ServedCall).counted? = some (key, v + 1) := hn
      have hcons := counts_cons_of_counted hcd
      exact .inr ⟨i, b, _, v, hmi, rfl, rfl, hcd, hb, hcons s.log, hv, hv'⟩

namespace Counted

theorem value_act (hk : s.Counted key c place) (ho : s.Orderly countless) (hc : s.Course place)
    (hm : s.Counting key m) : (s.act m).world.store.count? (s.act m).now key =
      some (c + (counts key (s.act m).log).length) := by
  rcases hc.count_or_still ho hm with ⟨hl, hv⟩ | ⟨i, a, d, v, -, -, -, -, -, hl, hv, hv'⟩
  · rw [hl, hv]
    exact hk.value
  · have hcv := hk.value
    rw [hv, Option.some.injEq] at hcv
    rw [hl, hv', List.length_cons, Option.some.injEq]
    omega

theorem numbers_act (hk : s.Counted key c place) (ho : s.Orderly countless) (hc : s.Course place)
    (hm : s.Counting key m) : (counts key (s.act m).log).map (·.2) =
      countdown c (counts key (s.act m).log).length := by
  rcases hc.count_or_still ho hm with ⟨hl, -⟩ | ⟨i, a, d, v, -, -, -, -, -, hl, hv, -⟩
  · rw [hl]
    exact hk.numbers
  · have hcv := hk.value
    rw [hv, Option.some.injEq] at hcv
    rw [hl, List.map_cons, List.length_cons, countdown, hk.numbers]
    congr 1
    omega

theorem dated_act (hk : s.Counted key c place) (hm : s.Counting key m)
    (hon : s.Onward countless m place place') :
    ∀ i a o, (s.act m).role? i = some (.job (.allocate a o)) →
      (∀ day, o.day? = some day → (place' i).For day) ∧
        (o.day? = none → ∀ day, a.counterKey day ≠ key) := by
  intro i a o he
  rcases role?_act s m i with h | ⟨hn, ⟨j, rfl, h⟩ | ⟨held, -, -, h⟩⟩
  · rw [h] at he
    obtain ⟨hfor, hnone⟩ := hk.dated i a o he
    refine ⟨fun day hday => ?_, hnone⟩
    have ha : s.allocator? i = some a := by simp [allocator?, he, Trade.Role.allocator?]
    exact (hon.fared i a ha).onDay (hfor day hday)
  · rw [h] at he
    cases he
    have ha : (s.act (.join (.allocate a o))).allocator? i = some a := by
      simp [allocator?, h, Trade.Role.allocator?]
    obtain ⟨o', ho', hp⟩ := hon.begun i a hn ha
    cases ho'
    refine ⟨fun day hday => ?_, hm.1⟩
    rw [hp]
    exact Order.place_for hday
  · rw [h] at he
    cases he

theorem counting (hk : s.Counted key c place) (hon : s.Onward countless m place place') {i : Nat}
    {a : Allocator} {d : ServedCall} {v : Int} (hm : m = .look i) (hd : s.did m = some d)
    (hcd : d.counted? = some (key, v)) (ha : s.allocator? i = some a) :
    (place i).early = true ∧ (place' i).early = false ∧
      ∀ f, s.role? i = some f → f.takes key = true := by
  subst hm
  obtain ⟨orphans, hp, -⟩ := (hon.fared i a ha).passage
  obtain ⟨⟨ctx, day, token, hplace, hkey⟩, hlate⟩ := hp.late_of_count hd hcd
  refine ⟨by rw [hplace]; rfl, hlate, fun f hf => ?_⟩
  obtain ⟨o, he⟩ := role?_of_allocator ha
  rw [he, Option.some.injEq] at hf
  subst hf
  obtain ⟨hfor, hnone⟩ := hk.dated i a o he
  cases ho : o.day? with
  | none => exact absurd hkey.symm (hnone ho day)
  | some day' =>
    have hday := hfor day' ho
    rw [hplace] at hday
    have hdd : day = day' := hday
    simp [Trade.Role.takes, ho, ← hdd, ← hkey]

theorem taken_act (hk : s.Counted key c place) (ho : s.Orderly countless) (hc : s.Course place)
    (hm : s.Counting key m) (hon : s.Onward countless m place place') :
    ∀ e ∈ counts key (s.act m).log, ∃ i a, e.1 = some i ∧ (s.act m).allocator? i = some a ∧
      (place' i).early = false ∧ ∀ f, (s.act m).role? i = some f → f.takes key = true := by
  intro e he
  have hold : ∃ i a, e.1 = some i ∧ s.allocator? i = some a ∧ (place' i).early = false ∧
      ∀ f, s.role? i = some f → f.takes key = true := by
    rcases hc.count_or_still ho hm with ⟨hl, -⟩ | ⟨i, a, d, v, hmi, hd, -, hcd, ha, hl, -, -⟩
    · rw [hl] at he
      obtain ⟨i, a, hi, ha, hlate, htakes⟩ := hk.taken e he
      exact ⟨i, a, hi, ha, (hon.fared i a ha).late hlate, htakes⟩
    · rw [hl] at he
      rcases List.mem_cons.1 he with rfl | he
      · obtain ⟨-, hlate, htakes⟩ := hk.counting hon hmi hd hcd ha
        exact ⟨i, a, rfl, ha, hlate, htakes⟩
      · obtain ⟨j, b, hj, hb, hlate, htakes⟩ := hk.taken e he
        exact ⟨j, b, hj, hb, (hon.fared j b hb).late hlate, htakes⟩
  obtain ⟨i, a, hi, ha, hlate, htakes⟩ := hold
  obtain ⟨o, he'⟩ := role?_of_allocator ha
  refine ⟨i, a, hi, allocator?_of_act ha, hlate, ?_⟩
  rw [role?_of_act (by simp [he'])]
  exact htakes

theorem once_act (hk : s.Counted key c place) (ho : s.Orderly countless) (hc : s.Course place)
    (hm : s.Counting key m) (hon : s.Onward countless m place place') :
    ((counts key (s.act m).log).map (·.1)).Nodup := by
  rcases hc.count_or_still ho hm with ⟨hl, -⟩ | ⟨i, a, d, v, hmi, hd, -, hcd, ha, hl, -, -⟩
  · rw [hl]
    exact hk.once
  · rw [hl, List.map_cons]
    refine List.nodup_cons.2 ⟨fun hmem => ?_, hk.once⟩
    obtain ⟨e, he, hei⟩ := List.mem_map.1 hmem
    obtain ⟨j, b, hj, -, hlate, -⟩ := hk.taken e he
    obtain rfl : j = i := Option.some.inj (hj.symm.trans hei)
    have hearly := (hk.counting hon hmi hd hcd ha).1
    rw [hlate] at hearly
    cases hearly

theorem act (hk : s.Counted key c place) (ho : s.Orderly countless) (hc : s.Course place)
    (hm : s.Counting key m) (hon : s.Onward countless m place place') :
    (s.act m).Counted key c place' where
  value := hk.value_act ho hc hm
  numbers := hk.numbers_act ho hc hm
  once := hk.once_act ho hc hm hon
  taken := hk.taken_act ho hc hm hon
  dated := hk.dated_act hm hon

end Counted

theorem counted_around {w : World} (h : w.store.count? w.now key = some c) :
    (around w).Counted key c place where
  value := h.trans (congrArg some (Int.add_zero c).symm)
  numbers := rfl
  once := List.nodup_nil
  taken := fun e he => nomatch he
  dated := by simp [around, role?]

/-- Those who came to take the counter up. -/
def takers (s : Crowd mint) (key : String) : List Nat :=
  (List.range s.parties.length).filter fun i => (s.role? i).any (·.takes key)

/-- The number handed to one who came for the counter, be it confirmed or not. -/
def handed? (s : Crowd mint) (key : String) (i : Nat) : Option Nat :=
  if i ∈ s.takers key then (s.result? i >>= Allocator.identifier?).map (·.number) else none

theorem mem_takers {i : Nat} : i ∈ s.takers key ↔ ∃ f, s.role? i = some f ∧ f.takes key = true := by
  simp only [takers, List.mem_filter, List.mem_range, Option.any_eq_true]
  constructor
  · exact And.right
  · rintro ⟨f, hf, ht⟩
    obtain ⟨p, hp, -⟩ := Option.map_eq_some_iff.1 hf
    exact ⟨(List.getElem?_eq_some_iff.1 hp).1, f, hf, ht⟩

theorem Counted.handed (hk : s.Counted key c place) (hc : s.Course place) (hn : s.Numbered place)
    {i n : Nat} (h : s.handed? key i = some n) : (some i, (n : Int)) ∈ counts key s.log := by
  unfold handed? at h
  split at h
  · rename_i hi
    obtain ⟨id, hid, rfl⟩ := Option.map_eq_some_iff.1 h
    obtain ⟨r, hr, hid⟩ := Option.bind_eq_some_iff.1 hid
    obtain ⟨a, ha, hplace⟩ := hc.ended hr
    have hnum : (place i).number? = some (id.day, (id.number : Int)) := by
      simp [hplace, Place.number?, hid, Identifier.count]
    obtain ⟨d, hd, hw, hcd⟩ := hn.result hc ha hr hid
    refine mem_counts.2 ⟨d, hd, hw, ?_⟩
    obtain ⟨f, hf, ht⟩ := mem_takers.1 hi
    obtain ⟨o, he⟩ := role?_of_allocator ha
    rw [he, Option.some.injEq] at hf
    subst hf
    obtain ⟨day, hday, hkey⟩ : ∃ day, o.day? = some day ∧ a.counterKey day = key := by
      simpa [Trade.Role.takes, Option.any_eq_true] using ht
    rw [hcd, ((hk.dated i a o he).1 day hday).number hnum, hkey]
  · cases h

namespace Counted

theorem bounds (hk : s.Counted key c place) {e : Option Nat × Int} (he : e ∈ counts key s.log) :
    c < e.2 ∧ e.2 ≤ c + (counts key s.log).length := by
  have hmem : e.2 ∈ (counts key s.log).map (·.2) := List.mem_map_of_mem he
  rw [hk.numbers] at hmem
  exact mem_countdown.1 hmem

theorem eq_of_number (hk : s.Counted key c place) {e f : Option Nat × Int}
    (he : e ∈ counts key s.log) (hf : f ∈ counts key s.log) (h : e.2 = f.2) : e = f := by
  have hnd : ((counts key s.log).map (·.2)).Nodup := by
    rw [hk.numbers]
    exact countdown_nodup c _
  exact List.inj_on_of_nodup_map hnd he hf h

theorem eq_of_who (hk : s.Counted key c place) {e f : Option Nat × Int}
    (he : e ∈ counts key s.log) (hf : f ∈ counts key s.log) (h : e.1 = f.1) : e = f :=
  List.inj_on_of_nodup_map hk.once he hf h

theorem who_mem (hk : s.Counted key c place) {e : Option Nat × Int} (he : e ∈ counts key s.log) :
    ∃ i ∈ s.takers key, e.1 = some i := by
  obtain ⟨i, a, hi, ha, -, htakes⟩ := hk.taken e he
  obtain ⟨o, hf⟩ := role?_of_allocator ha
  exact ⟨i, mem_takers.2 ⟨_, hf, htakes _ hf⟩, hi⟩

theorem length_le (hk : s.Counted key c place) :
    (counts key s.log).length ≤ (s.takers key).length := by
  have hsub : (counts key s.log).map (·.1) ⊆ (s.takers key).map some := by
    intro who hwho
    obtain ⟨e, he, rfl⟩ := List.mem_map.1 hwho
    obtain ⟨i, hi, hei⟩ := hk.who_mem he
    rw [hei]
    exact List.mem_map_of_mem hi
  have hle := (List.subperm_of_subset hk.once hsub).length_le
  simpa using hle

theorem le_length (hk : s.Counted key c place) (hc : s.Course place) (hn : s.Numbered place)
    (hall : ∀ i ∈ s.takers key, ∃ n, s.handed? key i = some n) :
    (s.takers key).length ≤ (counts key s.log).length := by
  have hnd : ((s.takers key).map some).Nodup :=
    (List.nodup_range.filter _).map (Option.some_injective _)
  have hsub : (s.takers key).map some ⊆ (counts key s.log).map (·.1) := by
    intro who hwho
    obtain ⟨i, hi, rfl⟩ := List.mem_map.1 hwho
    obtain ⟨n, hin⟩ := hall i hi
    exact List.mem_map_of_mem (hk.handed hc hn hin)
  have hle := (List.subperm_of_subset hnd hsub).length_le
  simpa using hle

end Counted

/-- While a counter lives and only allocations write it, the numbers that are handed out, confirmed
or not, are distinct and among those between the first value of the counter and its last; no more
were counted than came; what one has counted is handed to nobody else, whatever became of it; and if
all succeed, the numbers are all those in between, one for each. -/
theorem allocation_gap_free {w : World} (hw : w.Calm) (hplan : w.faults.Within countless)
    (hcount : w.store.count? w.now key = some c) {moves : List (Move mint)}
    (h : (around w).Lawful (Counting key) moves) (hs : s = (around w).play moves) :
    ∃ v, s.world.store.count? s.now key = some v ∧ c ≤ v ∧ v ≤ c + (s.takers key).length ∧
      (∀ i n, s.handed? key i = some n → c < n ∧ n ≤ v) ∧
      (∀ i j n, s.handed? key i = some n → s.handed? key j = some n → i = j) ∧
      (∀ d ∈ s.log, ∀ n : Nat, d.counted? = some (key, (n : Int)) → ∀ i, s.handed? key i = some n →
        d.who = some i) ∧
      ((∀ i ∈ s.takers key, ∃ id, s.result? i = some (.ok id)) →
        v = c + (s.takers key).length ∧
          ∀ n : Int, c < n → n ≤ v → ∃ i id, i ∈ s.takers key ∧ s.result? i = some (.ok id) ∧
            (id.number : Int) = n) := by
  have hrun := h.course (I := fun s place => s.Numbered place ∧ s.Counted key c place)
    (fun _ => rfl) (fun _ _ hm => hm.1)
    (fun s m place place' ho hc hm hon hi => ⟨hi.1.act hon, hi.2.act ho hc hm hon⟩) hw hplan
    ⟨numbered_around w _, counted_around hcount⟩
  rw [← hs] at hrun
  obtain ⟨-, place, hc, hn, hk⟩ := hrun
  have hlen := hk.length_le
  refine ⟨_, hk.value, by omega, by omega, ?_, ?_, ?_, ?_⟩
  · intro i n hi
    exact hk.bounds (hk.handed hc hn hi)
  · intro i j n hi hj
    have he := hk.eq_of_number (hk.handed hc hn hi) (hk.handed hc hn hj) rfl
    simpa using he
  · intro d hd n hcd i hi
    have hmem : (d.who, (n : Int)) ∈ counts key s.log := mem_counts.2 ⟨d, hd, rfl, hcd⟩
    have he := hk.eq_of_number hmem (hk.handed hc hn hi) rfl
    simpa using he
  · intro hall
    have hhanded : ∀ i ∈ s.takers key, ∀ id, s.result? i = some (.ok id) →
        s.handed? key i = some id.number := by
      intro i hi id hid
      simp [handed?, hi, hid, Allocator.identifier?]
    have hle := hk.le_length hc hn fun i hi => by
      obtain ⟨id, hid⟩ := hall i hi
      exact ⟨_, hhanded i hi id hid⟩
    refine ⟨by omega, fun n hlo hhi => ?_⟩
    have hmem : n ∈ (counts key s.log).map (·.2) := by
      rw [hk.numbers]
      exact mem_countdown.2 ⟨hlo, hhi⟩
    obtain ⟨e, he, rfl⟩ := List.mem_map.1 hmem
    obtain ⟨i, hi, hei⟩ := hk.who_mem he
    obtain ⟨id, hid⟩ := hall i hi
    have hown := hk.eq_of_who he (hk.handed hc hn (hhanded i hi id hid)) hei
    exact ⟨i, id, hi, hid, by rw [hown]⟩

/-- Of two allocations for one day, the second queues while the first counts. -/
def inTurn : List (Move mint) :=
  [.join .newYear, .join .newYear, .look 0, .look 0, .look 1, .look 1] ++
    List.replicate 8 (.look 0) ++ List.replicate 9 (.look 1)

theorem allocation_gap_free_inTurn :
    ((around .newYear).play inTurn).takers "user20200101" = [0, 1] ∧
    ∀ n : Int, 0 < n → n ≤ 2 →
      ∃ i id, ((around .newYear).play inTurn).result? i = some (.ok id) ∧ (id.number : Int) = n := by
  have hlaw : (around .newYear).Lawful (Counting "user20200101") inTurn := by
    have hreserved : (around .newYear).Lawful (fun _ => Reserved "user20200101") inTurn := by
      simp [inTurn, Lawful, Reserved, Mint.Job.newYear, Order.day?, List.replicate]
    have hspares : (around .newYear).Lawful (Spares "user20200101") inTurn := by
      decide +kernel
    exact hreserved.both hspares
  have htakers : ((around .newYear).play inTurn).takers "user20200101" = [0, 1] := by
    decide +kernel
  obtain ⟨v, -, -, -, -, -, -, hall⟩ := allocation_gap_free (c := 0) World.newYear_calm
    (Faults.within_none _) rfl hlaw rfl
  rw [htakers] at hall
  obtain ⟨rfl, hnumbers⟩ := hall (by simpa using ⟨⟨_, rfl⟩, ⟨_, rfl⟩⟩)
  refine ⟨htakers, fun n hlo hhi => ?_⟩
  obtain ⟨i, id, -, hid, hn⟩ := hnumbers n hlo hhi
  exact ⟨i, id, hid, hn⟩

end Crowd

end Registrar
