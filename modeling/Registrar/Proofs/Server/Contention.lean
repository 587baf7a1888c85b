import Mathlib.Algebra.BigOperators.Group.List.Basic
import Mathlib.Algebra.GroupWithZero.Nat
import Registrar.Proofs.Crowd.Latch
import Registrar.Proofs.Mint.Block
import Registrar.Proofs.Server.Unhindered
/-!
Requests that contend for the lock of one counter while no time passes. They succeed in whatever
order they are looked at, and come to an end if each of them is looked at often enough. Main
statement: `Crowd.Contending.settles`.
-/
set_option autoImplicit false

namespace Registrar

theorem Activity.Patient.within {α : Type} {now : Tick} {act : Activity α} (h : act.Patient now)
    (P : Answers) : act.Within P := by
  cases h with
  | fresh | done => trivial
  | called | queued =>
    intro a ha
    cases ha

theorem Activity.QueuesFor.unique {α : Type} {act : Activity α} {name other : String} {t u : Nat}
    (h : act.QueuesFor name t) (k : act.QueuesFor other u) : name = other ∧ t = u := by
  cases act with
  | waiting ticket lapse g c held f p =>
    obtain ⟨rfl, ⟨direct, rfl⟩, -⟩ := h
    obtain ⟨rfl, ⟨direct', hc⟩, -⟩ := k
    cases hc
    exact ⟨rfl, rfl⟩
  | _ => exact h.elim

namespace Crowd

section

variable {T : Trade} {s : Crowd T}

def toGo (s : Crowd T) : Nat := (s.parties.map fun p => p.activity.toGo).sum

theorem toGo_le (s : Crowd T) : s.toGo ≤ 12 * s.parties.length := by
  unfold toGo
  induction s.parties with
  | nil => exact Nat.le_refl 0
  | cons p parties ih =>
    have hp := p.activity.toGo_le
    rw [List.map_cons, List.sum_cons, List.length_cons]
    omega

theorem toGo_look {i : Nat} {p : Party T} (hi : s.parties[i]? = some p)
    (h : (p.activity.look s.world).2.toGo < p.activity.toGo) :
    (s.act (.look i)).toGo < s.toGo := by
  obtain ⟨hlt, rfl⟩ := List.getElem?_eq_some_iff.1 hi
  have hset : (s.act (.look i)).parties =
      s.parties.set i ⟨s.parties[i].role, (s.parties[i].activity.look s.world).2⟩ := by
    rw [act_look hi]
    rfl
  have hself : s.parties = s.parties.set i s.parties[i] := (List.set_getElem_self hlt).symm
  unfold toGo
  rw [hset]
  conv_rhs => rw [hself]
  simp only [List.map_set, List.sum_set, List.length_map, hlt, if_true]
  exact Nat.add_lt_add_right (Nat.add_lt_add_left h _) _

theorem look_still {i : Nat} {p : Party T} (hi : s.parties[i]? = some p)
    (h : p.activity.look s.world = (s.world, p.activity))
    (hd : p.activity.servedCall i s.world = none) : s.act (.look i) = s := by
  obtain ⟨hlt, hp⟩ := List.getElem?_eq_some_iff.1 hi
  have hsame : s.parties.set i p = s.parties := hp ▸ List.set_getElem_self hlt
  rw [act_look hi, hd, h]
  simp only [become, note, Option.toList_none, List.nil_append, hsame]

/-- Where no faults are planned, and those who wait have met with none, no answers are made up. -/
theorem Orderly.sincere (ho : s.Orderly anything) (hf : s.world.faults = .none)
    (hpatient : ∀ (i : Nat) (p : Party T), s.parties[i]? = some p → p.activity.Patient s.now)
    (P : Answers) : s.Orderly P where
  plan := hf ▸ Faults.within_none P
  within i p hi := (hpatient i p hi).within P
  fresh := ho.fresh
  apart := ho.apart
  nodup := ho.nodup
  waits := ho.waits

theorem length_le_act (s : Crowd T) (m : Move T) : s.parties.length ≤ (s.act m).parties.length := by
  refine Nat.le_of_not_lt fun hlt => ?_
  have hi : s.parties[(s.act m).parties.length]? = some s.parties[(s.act m).parties.length] :=
    List.getElem?_eq_getElem hlt
  rcases party_act hi m with h | ⟨-, h⟩ | ⟨-, -, h⟩ <;>
    exact Nat.lt_irrefl _ (List.getElem?_eq_some_iff.1 h).1

theorem length_le_play (s : Crowd T) (moves : List (Move T)) :
    s.parties.length ≤ (s.play moves).parties.length := by
  induction moves generalizing s with
  | nil => exact Nat.le_refl _
  | cons m moves ih => exact Nat.le_trans (s.length_le_act m) (ih (s.act m))

theorem party_play {i : Nat} {p : Party T} (hi : s.parties[i]? = some p)
    (hp : p.activity.inFlight = false) (moves : List (Move T)) :
    (s.play moves).parties[i]? = some p := by
  induction moves generalizing s with
  | nil => exact hi
  | cons m moves ih => exact ih (party_ended hi hp m)

theorem length_look (s : Crowd T) (i : Nat) :
    (s.act (.look i)).parties.length = s.parties.length := by
  cases hi : s.parties[i]? with
  | none => simp only [act, hi]
  | some p =>
    rw [act_look hi]
    exact List.length_set ..

theorem length_looks (s : Crowd T) (is : List Nat) :
    (s.play (is.map .look)).parties.length = s.parties.length := by
  induction is generalizing s with
  | nil => rfl
  | cons i is ih => exact (ih (s.act (.look i))).trans (s.length_look i)

end

variable {a : Allocator} {root : Context} {timeout : Span} {day : Day} {c i : Nat} {w : World}
  {s : Crowd mint} {m : Move mint} {place : Nat → Place} {key : String}

theorem Counted.lt_takers {c : Int} (hk : s.Counted key c place) (hi : i ∈ s.takers key)
    (hearly : (place i).early = true) : (counts key s.log).length < (s.takers key).length := by
  have hsub : (counts key s.log).map (·.1) ⊆ ((s.takers key).erase i).map some := by
    intro who hwho
    obtain ⟨e, he, rfl⟩ := List.mem_map.1 hwho
    obtain ⟨j, hj, hej⟩ := hk.who_mem he
    obtain ⟨k, b, hk, -, hlate, -⟩ := hk.taken e he
    obtain rfl : j = k := Option.some.inj (hej.symm.trans hk)
    have hne : j ≠ i := by
      rintro rfl
      rw [hlate] at hearly
      cases hearly
    rw [hej]
    exact List.mem_map_of_mem ((List.mem_erase_of_ne hne).2 hj)
  have hle := (List.subperm_of_subset hk.once hsub).length_le
  rw [List.length_map, List.length_map, List.length_erase_of_mem hi] at hle
  have hpos := List.length_pos_of_mem hi
  omega

/-- The moves of a batch of requests while no time passes: they come, and are looked at in any
order. -/
def Rushing (a : Allocator) (o : Order) : Move mint → Prop
  | .join (.allocate b p) => b = a ∧ p = o
  | .look _ | .adopt => True
  | _ => False

theorem ending?_play {r : Ending (Except AllocError Identifier)} (h : s.ending? i = some r)
    (moves : List (Move mint)) : (s.play moves).ending? i = some r := by
  unfold ending? at h
  split at h
  · rename_i b o r' hi
    simp only [ending?, party_play hi rfl, h]
  · rename_i b o hi
    simp only [ending?, party_play hi rfl, h]
  · cases h

/-- How requests stand that contend for the lock of one counter, with nothing else in their way. -/
structure Contending (a : Allocator) (root : Context) (timeout : Span) (day : Day) (c : Nat)
    (w : World) (s : Crowd mint) (place : Nat → Place) : Prop where
  latched : s.Latched
  course : s.Course place
  numbered : s.Numbered place
  counted : s.Counted (a.counterKey day) c place
  exclusive : s.Exclusive place
  attributed : s.Attributed place
  unhindered : s.world.Unhindered a root timeout
  orphans : s.world.orphans = []
  others : ∀ key, key ≠ a.counterKey day →
    s.world.store.entries.get? key = w.store.entries.get? key
  present : ∀ (i : Nat) (p : Party mint), s.parties[i]? = some p →
    p.role = .job (.allocate a (.request root timeout day)) ∧
      (place i).Smooth a root timeout day s.world ∧ p.activity.Patient s.now

namespace Contending

variable (h : s.Contending a root timeout day c w place)
include h

theorem orderly (P : Answers) : s.Orderly P :=
  h.latched.orderly.sincere h.unhindered.rooted.healthy.faults
    (fun i p hi => (h.present i p hi).2.2) P

theorem role (hi : i < s.parties.length) :
    s.role? i = some (.job (.allocate a (.request root timeout day))) := by
  have hp : s.parties[i]? = some s.parties[i] := List.getElem?_eq_getElem hi
  rw [role?, hp, Option.map_some, (h.present i _ hp).1]

theorem taker (hi : i < s.parties.length) : i ∈ s.takers (a.counterKey day) :=
  mem_takers.2 ⟨_, h.role hi, by simp [Trade.Role.takes, Order.day?]⟩

theorem takers_eq : s.takers (a.counterKey day) = List.range s.parties.length := by
  refine List.filter_eq_self.2 fun i hi => ?_
  exact (List.mem_filter.1 (h.taker (List.mem_range.1 hi))).2

theorem allocator (hi : i < s.parties.length) : s.allocator? i = some a := by
  rw [allocator?, h.role hi]
  rfl

theorem counting (hi : i < s.parties.length)
    (hmax : ((c + s.parties.length : Nat) : Int) ≤ Numeral.maxInt64)
    (hearly : (place i).early = true) : ∃ n : Nat,
      s.world.store.count? s.now (a.counterKey day) = some (n : Int) ∧
        (n : Int) < Numeral.maxInt64 := by
  have hlt := h.counted.lt_takers (h.taker hi) hearly
  rw [h.takers_eq, List.length_range] at hlt
  refine ⟨c + (counts (a.counterKey day) s.log).length, h.counted.value, ?_⟩
  omega

theorem proceeds {act : Activity (Except AllocError Identifier)}
    (hi : s.parties[i]? = some ⟨.job (.allocate a (.request root timeout day)), act⟩)
    (hmax : ((c + s.parties.length : Nat) : Int) ≤ Numeral.maxInt64) :
    ∃ q, Place.Proceeds a root timeout day i s.world act (place i) q := by
  have hlt := (List.getElem?_eq_some_iff.1 hi).1
  obtain ⟨-, hsmooth, hpatient⟩ := h.present i _ hi
  refine Place.proceeds h.unhindered (h.course i _ hi) hsmooth hpatient
    ((h.orderly anything).attended (fun _ => trivial) hi) (h.counting hlt hmax) fun token ht => ?_
  exact h.exclusive.held _ (h.exclusive.inside i a token (h.allocator hlt) ht)

/-- What one move makes of a crowd in contention, if it takes everybody a step on or leaves them
where they are, and the counter stays alive. -/
theorem act {place' : Nat → Place} (hc : (s.act m).Course place')
    (hon : ∀ P, s.Onward P m place place') (hm : Rushing a (.request root timeout day) m)
    (hreleases : s.Releases m) (hspares : s.Spares (a.counterKey day) m)
    (hunhindered : (s.act m).world.Unhindered a root timeout)
    (horphans : (s.act m).world.orphans = [])
    (hothers : ∀ key, key ≠ a.counterKey day →
      (s.act m).world.store.entries.get? key = s.world.store.entries.get? key)
    (hpresent : ∀ (i : Nat) (p : Party mint), (s.act m).parties[i]? = some p →
      p.role = .job (.allocate a (.request root timeout day)) ∧
        (place' i).Smooth a root timeout day (s.act m).world ∧ p.activity.Patient (s.act m).now) :
    (s.act m).Contending a root timeout day c w place' := by
  have hreserved : Reserved (a.counterKey day) m ∧ s.Honest m ∧ ∀ fs, m ≠ .plan fs := by
    cases m with
    | join j =>
      cases j with
      | allocate b o =>
        obtain ⟨rfl, rfl⟩ := hm
        refine ⟨fun hnone => ?_, trivial, fun _ he => nomatch he⟩
        cases hnone
      | lock name => exact hm.elim
    | look j => exact ⟨trivial, trivial, fun _ he => nomatch he⟩
    | adopt => exact ⟨trivial, trivial, fun _ he => nomatch he⟩
    | _ => exact hm.elim
  exact {
    latched := h.latched.act m
    course := hc
    numbered := h.numbered.act (hon countless)
    counted := h.counted.act (h.orderly countless) h.course ⟨hreserved.1, hspares⟩ (hon countless)
    exclusive := h.exclusive.act (h.orderly grantless) h.course hreserved.2.1 (hon grantless)
    attributed := h.attributed.act (h.orderly genuine) h.course
      ⟨fun fs he => absurd he (hreserved.2.2 fs), hreleases⟩ (hon genuine)
    unhindered := hunhindered
    orphans := horphans
    others := fun key hkey => (hothers key hkey).trans (h.others key hkey)
    present := hpresent }

theorem look {act : Activity (Except AllocError Identifier)}
    (hi : s.parties[i]? = some ⟨.job (.allocate a (.request root timeout day)), act⟩) {q : Place}
    (hmax : ((c + s.parties.length : Nat) : Int) ≤ Numeral.maxInt64)
    (hq : Place.Proceeds a root timeout day i s.world act (place i) q) :
    (s.act (.look i)).Contending a root timeout day c w (Function.update place i q) := by
  have hlt := (List.getElem?_eq_some_iff.1 hi).1
  have hworld : (s.act (.look i)).world = (act.look s.world).1 := by
    rw [act_look hi]
    rfl
  have hnow : (s.act (.look i)).now = s.now := by
    rw [Crowd.now, hworld]
    exact hq.keeps.now
  have hpassed : ∀ P, (s.act (.look i)).Course (Function.update place i q) ∧
      s.Onward P (.look i) place (Function.update place i q) := by
    intro P
    refine h.course.passed hi q (hq.orphans.trans (List.append_nil _).symm) hq.rest
      (fun b hb => ?_) fun _ => rfl
    obtain rfl : a = b := Option.some.inj ((h.allocator hlt).symm.trans hb)
    exact hq.passage P (s.Lapses i)
  obtain ⟨hothers, hlives⟩ := Place.tends h.unhindered (h.present i _ hi).2.1
    ((h.orderly anything).attended (fun _ => trivial) hi) (hq.passage anything True)
    (h.counting hlt hmax)
  refine h.act (hpassed anything).1 (fun P => (hpassed P).2) trivial ?_ (fun hlive => ?_) ?_ ?_ ?_
    fun j p hj => ?_
  · intro hl
    rw [Lapses, hi] at hl
    exact Bool.false_ne_true (hq.lapses.symm.trans hl)
  · rw [hnow, hworld]
    exact hlives hlive
  · rw [hworld]
    exact h.unhindered.keeps hq.keeps
  · rw [hworld, hq.orphans, h.orphans]
  · rw [hworld]
    exact hothers
  · rw [hworld, hnow]
    rw [act_look hi] at hj
    rcases party_become (w := (act.look s.world).1) hi hj with ⟨rfl, rfl⟩ | ⟨hji, hj⟩
    · rw [Function.update_self]
      exact ⟨rfl, hq.smooth, hq.patient⟩
    · rw [Function.update_of_ne hji]
      obtain ⟨hrole, hsmooth, hpatient⟩ := h.present j p hj
      exact ⟨hrole, hsmooth.keeps hq.keeps, hpatient⟩

theorem enter : (s.act (.join (.allocate a (.request root timeout day)))).Contending a root timeout
    day c w (Function.update place s.parties.length (.opening root timeout day)) := by
  refine h.act (h.course.enter (P := anything) a (.request root timeout day)).1
    (fun P => (h.course.enter (P := P) a (.request root timeout day)).2) ⟨rfl, rfl⟩ trivial id
    h.unhindered h.orphans (fun _ _ => rfl) fun i p hi => ?_
  simp only [Crowd.act] at hi
  by_cases hlt : i < s.parties.length
  · rw [List.getElem?_append_left hlt] at hi
    rw [Function.update_of_ne (Nat.ne_of_lt hlt)]
    exact h.present i p hi
  · rw [List.getElem?_append_right (Nat.le_of_not_lt hlt)] at hi
    obtain ⟨hzero, rfl⟩ : i - s.parties.length = 0 ∧ _ = p := by
      simpa [List.getElem?_singleton] using hi
    obtain rfl : i = s.parties.length := by omega
    rw [Function.update_self]
    exact ⟨rfl, .opening, .fresh _⟩

theorem adopt : s.act .adopt = s := by
  have horphans := h.orphans
  obtain ⟨⟨clock, store, locks, signals, faults, ids, minted, tickets, journal, holders, orphans⟩,
    parties, log⟩ := s
  obtain rfl : orphans = [] := horphans
  simp only [Crowd.act, List.map_nil, List.append_nil]

theorem step (hm : Rushing a (.request root timeout day) m)
    (hmax : ((c + s.parties.length : Nat) : Int) ≤ Numeral.maxInt64) :
    ∃ place', (s.act m).Contending a root timeout day c w place' := by
  cases m with
  | join j =>
    cases j with
    | allocate b o =>
      obtain ⟨rfl, rfl⟩ := hm
      exact ⟨_, h.enter⟩
    | lock name => exact hm.elim
  | look i =>
    cases hi : s.parties[i]? with
    | none => exact ⟨place, by simpa only [Crowd.act, hi] using h⟩
    | some p =>
      obtain ⟨role, act⟩ := p
      obtain rfl := (h.present i _ hi).1
      obtain ⟨q, hq⟩ := h.proceeds hi hmax
      exact ⟨_, h.look hi hmax hq⟩
  | adopt => exact ⟨place, h.adopt.symm ▸ h⟩
  | _ => exact hm.elim

theorem play {moves : List (Move mint)}
    (hmoves : ∀ m ∈ moves, Rushing a (.request root timeout day) m)
    (hmax : ((c + (s.play moves).parties.length : Nat) : Int) ≤ Numeral.maxInt64) :
    ∃ place', (s.play moves).Contending a root timeout day c w place' := by
  induction moves generalizing s place with
  | nil => exact ⟨place, h⟩
  | cons m moves ih =>
    have hle := s.length_le_play (m :: moves)
    obtain ⟨place', h'⟩ := h.step (hmoves m List.mem_cons_self) (by omega)
    exact ih h' (fun n hn => hmoves n (List.mem_cons_of_mem m hn)) hmax

theorem ending {r : Ending (Except AllocError Identifier)} (hr : s.ending? i = some r) :
    ∃ n, r = .finished (.ok ⟨day, n⟩) ∧ s.result? i = some (.ok ⟨day, n⟩) := by
  unfold ending? at hr
  split at hr
  · rename_i b o r' hi
    cases hr
    have hrest : Flow.done r' = (place i).flow b := h.course i _ hi
    have hsmooth := (h.present i _ hi).2.1
    generalize place i = p at hrest hsmooth
    cases hsmooth with
    | @ended n =>
      cases hrest
      exact ⟨n, rfl, by simp only [result?, hi]⟩
    | _ => cases hrest
  · rename_i b o hi
    cases (h.present i _ hi).2.2
  · cases hr

/-- A look either brings the crowd a step nearer to its end or changes nothing. -/
theorem nearer (hmax : ((c + s.parties.length : Nat) : Int) ≤ Numeral.maxInt64) (i : Nat) :
    (s.act (.look i)).toGo < s.toGo ∨
      s.act (.look i) = s ∧ ∀ p, s.parties[i]? = some p → p.activity.Stuck s.world := by
  cases hi : s.parties[i]? with
  | none => exact .inr ⟨by simp only [Crowd.act, hi], fun p hp => by cases hp⟩
  | some p =>
    obtain ⟨role, act⟩ := p
    obtain rfl := (h.present i _ hi).1
    obtain ⟨q, hq⟩ := h.proceeds hi hmax
    rcases hq.nearer with hlt | ⟨hstuck, hlook, hd⟩
    · exact .inl (toGo_look hi hlt)
    · refine .inr ⟨look_still hi hlook hd, fun p hp => ?_⟩
      cases hp
      exact hstuck

/-- Whoever is in line is not stuck unless somebody else can go on: the one whom the lock is offered
to, or the one who has it. -/
theorem not_queued (hstuck : ∀ (i : Nat) (p : Party mint), s.parties[i]? = some p →
    p.activity.Stuck s.world) {p : Party mint} (hi : s.parties[i]? = some p) (name : String)
    (ticket : Nat) : ¬ p.activity.QueuesFor name ticket := by
  intro hq
  cases hs : (s.world.locks.find name).seat with
  | free =>
    have hline := h.latched.queued i p name ticket hi hq
    rw [h.latched.tight name hs] at hline
    cases hline
  | offered t =>
    obtain ⟨j, r, hj, hr⟩ := h.latched.orderly.waits name t (Lock.mem_line_of_offered hs)
    rcases hstuck j r hj with hover | ⟨other, u, hu, hne⟩
    · obtain ⟨e, act⟩ := r
      cases act with
      | waiting => cases hover
      | _ => exact hr.elim
    · obtain ⟨rfl, rfl⟩ := hr.unique hu
      exact hne hs
  | held holder =>
    rcases h.attributed.held ⟨name, holder⟩ hs with
      ⟨j, b, hb, ht⟩ | (⟨k, hk, -⟩ | ⟨j, k, act, hj, -⟩) | ⟨j, act, hj, -⟩
    · obtain ⟨o, act, hj⟩ := allocator?_eq_some hb
      have hrest : act.rest = (place j).flow b := h.course j _ hj
      generalize place j = r at hrest ht
      rcases hstuck j _ hj with hover | ⟨other, u, hu, -⟩
      · cases act with
        | done x => cases r <;> cases ht <;> cases hrest
        | crashed => cases r <;> cases ht <;> cases hrest
        | _ => cases hover
      · cases act with
        | waiting t lapse g call held k p =>
          obtain ⟨-, ⟨direct, rfl⟩, -⟩ := hu
          have hcall := (Place.call_eq hrest.symm).1
          cases r <;> cases ht <;> cases hcall
        | _ => exact hu.elim
    · rw [h.orphans] at hk
      cases hk
    · cases (h.present j _ hj).1
    · cases (h.present j _ hj).1

theorem ended_of_stuck (hstuck : ∀ (i : Nat) (p : Party mint), s.parties[i]? = some p →
    p.activity.Stuck s.world) (hi : i < s.parties.length) : (s.ending? i).isSome = true := by
  have hp : s.parties[i]? = some s.parties[i] := List.getElem?_eq_getElem hi
  generalize s.parties[i] = p at hp
  have hover : p.activity.inFlight = false := by
    rcases hstuck i p hp with hover | ⟨name, t, hq, -⟩
    · exact hover
    · exact absurd hq (h.not_queued hstuck hp name t)
  obtain ⟨role, act⟩ := p
  obtain rfl := (h.present i _ hp).1
  cases act with
  | done r => simp only [ending?, hp, Option.isSome_some]
  | crashed => simp only [ending?, hp, Option.isSome_some]
  | _ => cases hover

theorem looks (hmax : ((c + s.parties.length : Nat) : Int) ≤ Numeral.maxInt64) (is : List Nat) :
    (∃ place', (s.play (is.map .look)).Contending a root timeout day c w place') ∧
    ((s.play (is.map .look)).toGo < s.toGo ∨ s.play (is.map .look) = s ∧
      ∀ i ∈ is, ∀ p, s.parties[i]? = some p → p.activity.Stuck s.world) := by
  induction is generalizing s place with
  | nil => exact ⟨⟨place, h⟩, .inr ⟨rfl, fun i hi => by cases hi⟩⟩
  | cons i is ih =>
    obtain ⟨place', h'⟩ := h.step (m := .look i) trivial hmax
    obtain ⟨hcontending, hrest⟩ := ih h' (by rwa [length_look])
    refine ⟨hcontending, ?_⟩
    simp only [List.map_cons, Crowd.play]
    rcases h.nearer hmax i with hlt | ⟨hsame, hstuck⟩
    · rcases hrest with hless | ⟨hstill, -⟩
      · exact .inl (Nat.lt_trans hless hlt)
      · exact .inl (hstill.symm ▸ hlt)
    · rw [hsame] at hrest ⊢
      refine hrest.imp id (And.imp id fun hall j hj => ?_)
      rcases List.mem_cons.1 hj with rfl | hj
      · exact hstuck
      · exact hall j hj

/-- As long as somebody is not done, each round of looks at everybody brings the crowd nearer to its
end. -/
theorem ends (hmax : ((c + s.parties.length : Nat) : Int) ≤ Numeral.maxInt64)
    {rounds : List (List Nat)} (hfair : ∀ round ∈ rounds, ∀ i < s.parties.length, i ∈ round)
    (hlen : s.toGo ≤ rounds.length) (hi : i < s.parties.length) :
    ((s.play (rounds.flatten.map .look)).ending? i).isSome = true := by
  induction rounds generalizing s place with
  | nil =>
    refine h.ended_of_stuck (fun j p hj => ?_) hi
    rcases h.nearer hmax j with hlt | ⟨-, hstuck⟩
    · exact absurd (Nat.lt_of_lt_of_le hlt hlen) (Nat.not_lt_zero _)
    · exact hstuck p hj
  | cons round rounds ih =>
    rw [List.flatten_cons, List.map_append, play_append]
    have hlength := s.length_looks round
    obtain ⟨⟨place', h'⟩, hnext⟩ := h.looks hmax round
    rcases hnext with hlt | ⟨hsame, hstuck⟩
    · refine ih h' (by rwa [hlength]) (fun r hr => ?_) ?_ (by rwa [hlength])
      · rw [hlength]
        exact hfair r (List.mem_cons_of_mem round hr)
      · exact Nat.le_of_lt_succ (Nat.lt_of_lt_of_le hlt hlen)
    · have hended : (s.ending? i).isSome = true := by
        refine h.ended_of_stuck (fun j p hj => ?_) hi
        have hlt := (List.getElem?_eq_some_iff.1 hj).1
        exact hstuck j (hfair round List.mem_cons_self j hlt) p hj
      obtain ⟨r, hr⟩ := Option.isSome_iff_exists.1 hended
      rw [hsame, ending?_play hr]
      rfl

end Contending

namespace Contending

section

variable (h : s.Contending a root timeout day c w place)
  (hall : ∀ i < s.parties.length, (s.ending? i).isSome = true)
include h hall

theorem result (hi : i < s.parties.length) : ∃ n, s.result? i = some (.ok ⟨day, n⟩) := by
  obtain ⟨r, hr⟩ := Option.isSome_iff_exists.1 (hall i hi)
  obtain ⟨n, -, hn⟩ := h.ending hr
  exact ⟨n, hn⟩

theorem gather : Server.gather ((List.range s.parties.length).filterMap s.ending?) =
    some (s.issued (a.counterKey day)) := by
  rw [issued, h.takers_eq]
  have hrange : ∀ i ∈ List.range s.parties.length, i < s.parties.length := fun i => List.mem_range.1
  generalize List.range s.parties.length = is at hrange
  induction is with
  | nil => rfl
  | cons i is ih =>
    obtain ⟨r, hr⟩ := Option.isSome_iff_exists.1 (hall i (hrange i List.mem_cons_self))
    obtain ⟨n, rfl, hn⟩ := h.ending hr
    have hrest := ih fun j hj => hrange j (List.mem_cons_of_mem i hj)
    rw [List.filterMap_cons_some hr, Server.gather, hrest,
      List.filterMap_cons_some (b := ⟨day, n⟩) (by rw [hn]; rfl)]
    rfl

theorem block : Identifier.sort (s.issued (a.counterKey day)) =
    Identifier.block day c s.parties.length := by
  have hlt : ∀ i ∈ s.takers (a.counterKey day), i < s.parties.length := by
    intro i hi
    rwa [h.takers_eq, List.mem_range] at hi
  have hsort := h.counted.sort_issued h.course h.numbered
    (fun i hi => ⟨a, _, h.role (hlt i hi), rfl⟩) fun i hi => by
      obtain ⟨n, hn⟩ := h.result hall (hlt i hi)
      exact ⟨_, hn⟩
  rwa [h.takers_eq, List.length_range] at hsort

theorem value : s.world.store.count? s.now (a.counterKey day) =
    some ((c + s.parties.length : Nat) : Int) := by
  have hle := h.counted.length_le
  have hge := h.counted.le_length h.course h.numbered fun i hi => by
    have hlt := hi
    rw [h.takers_eq, List.mem_range] at hlt
    obtain ⟨n, hn⟩ := h.result hall hlt
    exact ⟨n, by simp [handed?, hi, hn, Allocator.identifier?]⟩
  have hvalue := h.counted.value
  rw [h.takers_eq, List.length_range] at hle hge
  rwa [Nat.le_antisymm hle hge] at hvalue

theorem idle (name : String) : s.world.locks.find name = .idle := by
  have hover : ∀ p ∈ s.parties, p.activity.inFlight = false ∧ p.role.isDirect = false := by
    intro p hp
    obtain ⟨i, hi⟩ := List.mem_iff_getElem?.1 hp
    obtain ⟨r, hr⟩ := Option.isSome_iff_exists.1 (hall i (List.getElem?_eq_some_iff.1 hi).1)
    unfold ending? at hr
    split at hr
    · rename_i hj
      cases hi.symm.trans hj
      exact ⟨rfl, rfl⟩
    · rename_i hj
      cases hi.symm.trans hj
      exact ⟨rfl, rfl⟩
    · cases hr
  have hfree : (s.world.locks.find name).seat = .free := by
    have hnot : s.world.locks.isHeld name = false := Bool.eq_false_iff.2 fun hh =>
      not_inUse hover h.orphans name (h.attributed.inUse (h.orderly anything) h.course hh)
    simpa [Locks.isHeld] using hnot
  have hline := h.latched.tight name hfree
  generalize s.world.locks.find name = l at hfree hline
  obtain ⟨seat, queue⟩ := l
  obtain rfl : seat = .free := hfree
  obtain rfl : queue = [] := hline
  rfl

end

end Contending

end Crowd

end Registrar
