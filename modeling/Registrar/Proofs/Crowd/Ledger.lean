import Registrar.Proofs.Counter
import Registrar.Proofs.Crowd.Served
set_option autoImplicit false

namespace Registrar

namespace StoreCall

/-- The keys whose entries a call may change without writing them anew. -/
def adjusts : StoreCall → List String
  | .incr key | .expire key _ => [key]
  | .set _ _ _ | .get _ | .del _ => []

/-- What has become of the entry under a key: that it was written, or that it was removed. -/
def mark? (key : String) (time : Tick) :
    (c : StoreCall) → Except StoreError c.Answer → Option (Option Entry)
  | .set k value ttl, .ok true => if key = k then some (some ⟨value, some (time + ttl)⟩) else none
  | .del keys, .ok _ => if key ∈ keys then some none else none
  | _, _ => none

def removed : (c : StoreCall) → Except StoreError c.Answer → Nat
  | .del _, .ok n => n
  | _, _ => 0

def Agrees (key : String) (e : Option Entry) :
    (c : StoreCall) → Except StoreError c.Answer → Prop
  | .get k, .ok value => key = k → value = e.map (·.value)
  | .del keys, .ok n => keys = [key] → removed (.del keys) (.ok n) = if e.isSome then 1 else 0
  | _, _ => True

def takes (key : String) (c : StoreCall) (a : Except StoreError c.Answer) : Bool :=
  c = .del [key] ∧ c.removed a = 1

theorem mark?_of_takes {key : String} {time : Tick} {c : StoreCall}
    {a : Except StoreError c.Answer} (h : c.takes key a = true) : c.mark? key time a = some none := by
  obtain ⟨rfl, hr⟩ := of_decide_eq_true h
  cases a with
  | ok n => simp [mark?]
  | error e => cases hr

theorem Agrees.of_takes {key : String} {e : Option Entry} {c : StoreCall}
    {a : Except StoreError c.Answer} (h : c.Agrees key e a) (ht : c.takes key a = true) :
    e.isSome = true := by
  obtain ⟨rfl, hr⟩ := of_decide_eq_true ht
  cases a with
  | ok n =>
    have hn := hr.symm.trans (h rfl)
    cases hs : e.isSome with
    | true => rfl
    | false =>
      rw [hs] at hn
      cases hn
  | error e => cases hr

end StoreCall

namespace Store

variable {s t : Store} {now : Tick} {key : String}

theorem get?_del_of_mem {keys : List String} (h : key ∈ keys) :
    (s.del now keys).2.entries.get? key = none := by
  induction keys generalizing s with
  | nil => cases h
  | cons k keys ih =>
    rw [del]
    by_cases hk : key ∈ keys
    · exact ih hk
    · obtain rfl := (List.mem_cons.1 h).resolve_right hk
      exact (get?_del_of_not_mem hk).trans (Table.get?_erase_self _ _)

theorem set_marked {k value : String} {ttl : Span} {a : Bool}
    (h : s.set now k value ttl = some (a, t)) :
    t.entries.get? key =
      ((StoreCall.set k value ttl).mark? key now (.ok a)).getD (s.entries.get? key) := by
  unfold set at h
  split at h
  · obtain ⟨dies, hd, hput⟩ := Option.map_eq_some_iff.1 h
    obtain ⟨rfl, rfl⟩ := Prod.mk.injEq .. ▸ hput
    obtain rfl := Tick.eq_of_after? hd
    by_cases hk : key = k
    · subst hk
      simp [StoreCall.mark?, get?_put_self]
    · simp [StoreCall.mark?, hk, get?_put_of_ne]
  · cases h
    rfl

theorem get_marked {k : String} {a : Option String} (h : s.get now k = (a, t)) :
    t.entries.get? key = s.entries.get? key ∨
      t.entries.get? key = none ∧ s.find? now key = none := by
  have htended : s.Tended now key t (.get k) (.ok a) := get_tended h
  cases htended with
  | kept ht _ => exact .inl ht
  | cleared hs ht _ => exact .inr ⟨ht, hs⟩

theorem perform_marked {c : StoreCall} {a : Except StoreError c.Answer}
    (h : s.perform now c = some (a, t)) (hc : key ∉ c.adjusts) :
    t.entries.get? key = (c.mark? key now a).getD (s.entries.get? key) ∨
      c.mark? key now a = none ∧ t.entries.get? key = none ∧ s.find? now key = none := by
  have outage : (.error Store.outage, s) = (a, t) →
      t.entries.get? key = (c.mark? key now a).getD (s.entries.get? key) := by
    intro he
    cases he
    cases c <;> rfl
  cases c with
  | set k value ttl =>
    simp only [perform] at h
    split at h
    · obtain ⟨⟨b, t'⟩, hset, hr⟩ := Option.map_eq_some_iff.1 h
      cases hr
      exact .inl (set_marked hset)
    · exact .inl (outage (Option.some.inj h))
  | get k =>
    simp only [perform] at h
    split at h
    · cases h
      exact (get_marked rfl).imp id fun hn => ⟨rfl, hn⟩
    · exact .inl (outage (Option.some.inj h))
  | del keys =>
    simp only [perform] at h
    split at h
    · cases h
      by_cases hk : key ∈ keys
      · simp [StoreCall.mark?, hk, get?_del_of_mem]
      · simp [StoreCall.mark?, hk, get?_del_of_not_mem]
    · exact .inl (outage (Option.some.inj h))
  | incr k =>
    have hk : key ≠ k := fun hk => hc (by simp [StoreCall.adjusts, hk])
    have hw : key ∉ (StoreCall.incr k).writes := by simp [StoreCall.writes, hk]
    rcases perform_tended h fun hmem => absurd hmem hw with ht | ⟨hs, ht⟩ | _ | _
    · exact .inl ht
    · exact .inr ⟨rfl, ht, hs⟩
    · exact absurd rfl hk
  | expire k ttl =>
    have hk : key ≠ k := fun hk => hc (by simp [StoreCall.adjusts, hk])
    have hw : key ∉ (StoreCall.expire k ttl).writes := by simp [StoreCall.writes, hk]
    rcases perform_tended h fun hmem => absurd hmem hw with ht | ⟨hs, ht⟩ | _ | _
    · exact .inl ht
    · exact .inr ⟨rfl, ht, hs⟩
    · exact absurd rfl hk

theorem get_agrees (s : Store) (now : Tick) (key : String) :
    (s.get now key).1 = (s.find? now key).map (·.value) := by
  unfold get find?
  cases s.entries.get? key with
  | none => rfl
  | some e => cases hl : e.live now <;> simp [Option.filter, hl]

theorem del_agrees (s : Store) (now : Tick) (key : String) :
    (s.del now [key]).1 = if (s.find? now key).isSome then 1 else 0 := by
  simp [del]

theorem perform_agrees {c : StoreCall} {a : Except StoreError c.Answer}
    (h : s.perform now c = some (a, t)) : c.Agrees key (s.find? now key) a := by
  have outage : (.error Store.outage, s) = (a, t) → c.Agrees key (s.find? now key) a := by
    intro he
    cases he
    cases c <;> exact trivial
  cases c with
  | get k =>
    simp only [perform] at h
    split at h
    · cases h
      intro hk
      subst hk
      exact get_agrees s now key
    · exact outage (Option.some.inj h)
  | del keys =>
    simp only [perform] at h
    split at h
    · cases h
      intro hk
      subst hk
      exact del_agrees s now key
    · exact outage (Option.some.inj h)
  | set k value ttl => cases a <;> exact trivial
  | incr k => cases a <;> exact trivial
  | expire k ttl => cases a <;> exact trivial

end Store

namespace Call

def mark? (key : String) (time : Tick) : (c : Call) → c.Answer → Option (Option Entry)
  | .store c, a => c.mark? key time a
  | _, _ => none

def Agrees (key : String) (e : Option Entry) : (c : Call) → c.Answer → Prop
  | .store c, a => c.Agrees key e a
  | _, _ => True

def takes (key : String) : (c : Call) → c.Answer → Bool
  | .store c, a => c.takes key a
  | _, _ => false

end Call

namespace ServedCall

def mark? (key : String) (d : ServedCall) : Option (Option Entry) :=
  d.call.mark? key d.time d.answer

def Agrees (key : String) (e : Option Entry) (d : ServedCall) : Prop := d.call.Agrees key e d.answer

def puts (key : String) (d : ServedCall) : Bool := (d.mark? key).join.isSome

def takes (key : String) (d : ServedCall) : Bool := d.call.takes key d.answer

theorem mark?_of_not_store {key : String} {d : ServedCall} (h : ∀ c, d.call ≠ .store c) :
    d.mark? key = none := by
  obtain ⟨who, c, answer, time⟩ := d
  cases c with
  | store c => exact absurd rfl (h c)
  | _ => rfl

theorem agrees_of_not_store {key : String} {e : Option Entry} {d : ServedCall}
    (h : ∀ c, d.call ≠ .store c) : d.Agrees key e := by
  obtain ⟨who, c, answer, time⟩ := d
  cases c with
  | store c => exact absurd rfl (h c)
  | _ => trivial

theorem mark?_of_takes {key : String} {d : ServedCall} (h : d.takes key = true) :
    d.mark? key = some none := by
  obtain ⟨who, c, answer, time⟩ := d
  cases c with
  | store c => exact StoreCall.mark?_of_takes h
  | _ => cases h

def Removes (key : String) (d : ServedCall) : Prop := d.mark? key = some none

instance (key : String) (d : ServedCall) : Decidable (d.Removes key) :=
  inferInstanceAs (Decidable (_ = _))

theorem Removes.call {key : String} {d : ServedCall} (h : d.Removes key) :
    ∃ keys, d.call = .store (.del keys) ∧ key ∈ keys := by
  obtain ⟨who, c, answer, time⟩ := d
  cases c with
  | store c =>
    cases c with
    | set k value ttl =>
      rcases answer with e | _ | _
      · cases h
      · cases h
      · by_cases hk : key = k <;> simp [Removes, mark?, Call.mark?, StoreCall.mark?, hk] at h
    | del keys =>
      cases answer with
      | error e => cases h
      | ok n =>
        by_cases hk : key ∈ keys
        · exact ⟨keys, rfl, hk⟩
        · simp [Removes, mark?, Call.mark?, StoreCall.mark?, hk] at h
    | _ => cases h
  | _ => cases h

theorem Agrees.of_takes {key : String} {e : Option Entry} {d : ServedCall} (h : d.Agrees key e)
    (ht : d.takes key = true) : e.isSome = true := by
  obtain ⟨who, c, answer, time⟩ := d
  cases c with
  | store c => exact StoreCall.Agrees.of_takes h ht
  | _ => cases ht

end ServedCall

def replay (key : String) : List ServedCall → Option Entry
  | [] => none
  | d :: log => (d.mark? key).getD (replay key log)

/-- Each answer in a log is what the log before it calls for. -/
def Honest (key : String) : List ServedCall → Prop
  | [] => True
  | d :: log => d.Agrees key ((replay key log).filter (Entry.live d.time)) ∧ Honest key log

section

variable {key : String} {log : List ServedCall}

theorem Honest.agrees {later earlier : List ServedCall} {d : ServedCall}
    (h : Honest key (later ++ d :: earlier)) :
    d.Agrees key ((replay key earlier).filter (Entry.live d.time)) := by
  induction later with
  | nil => exact h.1
  | cons e later ih => exact ih h.2

theorem replay_append {later earlier : List ServedCall} (h : ∀ d ∈ later, d.mark? key = none) :
    replay key (later ++ earlier) = replay key earlier := by
  induction later with
  | nil => rfl
  | cons d later ih =>
    simp only [List.mem_cons, forall_eq_or_imp] at h
    rw [List.cons_append, replay, h.1]
    exact ih h.2

theorem exists_put {e : Entry} (h : replay key log = some e) :
    ∃ d ∈ log, d.mark? key = some (some e) := by
  induction log with
  | nil => cases h
  | cons d log ih =>
    rw [replay] at h
    cases hd : d.mark? key with
    | none =>
      rw [hd] at h
      obtain ⟨x, hx, hm⟩ := ih h
      exact ⟨x, List.mem_cons_of_mem _ hx, hm⟩
    | some mark =>
      rw [hd] at h
      exact ⟨d, List.mem_cons_self, hd.trans (congrArg some h)⟩

theorem exists_removal (hput : ∃ d ∈ log, d.puts key = true) (hn : replay key log = none) :
    ∃ later d earlier, log = later ++ d :: earlier ∧ d.mark? key = some none ∧
      (replay key earlier).isSome = true := by
  induction log with
  | nil =>
    obtain ⟨d, hd, -⟩ := hput
    cases hd
  | cons d log ih =>
    have further : replay key log = none → (∃ x ∈ log, x.puts key = true) →
        ∃ later x earlier, d :: log = later ++ x :: earlier ∧ x.mark? key = some none ∧
          (replay key earlier).isSome = true := by
      intro hn hput
      obtain ⟨later, x, earlier, rfl, hx⟩ := ih hput hn
      exact ⟨d :: later, x, earlier, rfl, hx⟩
    have hrest : d.puts key = false → ∃ x ∈ log, x.puts key = true := by
      intro hd
      obtain ⟨x, hx, hp⟩ := hput
      rcases List.mem_cons.1 hx with rfl | hx
      · exact absurd hp (by simp [hd])
      · exact ⟨x, hx, hp⟩
    rw [replay] at hn
    cases hd : d.mark? key with
    | none =>
      rw [hd] at hn
      exact further hn (hrest (by simp [ServedCall.puts, hd]))
    | some mark =>
      rw [hd] at hn
      obtain rfl : mark = none := hn
      cases hr : replay key log with
      | none => exact further hr (hrest (by simp [ServedCall.puts, hd]))
      | some e => exact ⟨[], d, log, rfl, hd, by simp [hr]⟩

theorem Honest.takes_le (h : Honest key log) :
    log.countP (ServedCall.takes key) + (replay key log).toList.length ≤
      log.countP (ServedCall.puts key) := by
  induction log with
  | nil => simp [replay]
  | cons d log ih =>
    have hih := ih h.2
    rw [List.countP_cons, List.countP_cons, replay]
    cases ht : d.takes key with
    | true =>
      have hmark := ServedCall.mark?_of_takes ht
      have hlive := ServedCall.Agrees.of_takes h.1 ht
      obtain ⟨e, he⟩ := Option.isSome_iff_exists.1 hlive
      have hthere := (Option.filter_eq_some_iff.1 he).1
      simp only [hthere, Option.toList_some, List.length_singleton] at hih
      simp [ServedCall.puts, hmark]
      omega
    | false =>
      cases hd : d.mark? key with
      | none =>
        simp [ServedCall.puts, hd]
        exact hih
      | some mark =>
        cases mark <;> simp [ServedCall.puts, hd] <;> omega

end

namespace Crowd

variable {T : Trade} {P : Answers} {s : Crowd T} {m : Move T} {key : String}

/-- What a reader finds under a key is what the log says, and so is each answer. A dead entry may
have been cleared away. -/
structure Ledger (key : String) (s : Crowd T) : Prop where
  entry : s.world.store.entries.get? key = replay key s.log ∨
    s.world.store.entries.get? key = none ∧
      (replay key s.log).filter (Entry.live s.now) = none
  honest : Honest key s.log

theorem ledger_around {w : World} (h : w.store.entries.get? key = none) :
    (around w : Crowd T).Ledger key where
  entry := .inl h
  honest := trivial

namespace Ledger

theorem find? (hl : s.Ledger key) :
    s.world.store.find? s.now key = (replay key s.log).filter (Entry.live s.now) := by
  rcases hl.entry with h | ⟨h, hr⟩
  · rw [Store.find?, h]
  · rw [Store.find?, h, hr]
    rfl

theorem filter_later {e : Option Entry} {now later : Tick} (h : now ≤ later)
    (he : e.filter (Entry.live now) = none) : e.filter (Entry.live later) = none := by
  cases e with
  | none => rfl
  | some e =>
    simp only [Option.filter_eq_none_iff, Option.some.injEq, forall_eq'] at he ⊢
    exact fun hl => he (Store.live_of_live_later h hl)

theorem act (hl : s.Ledger key) (ho : s.Orderly P) (hP : ∀ length, P (.pause length) ())
    (hm : ∀ d ∈ s.did m, ∀ c, d.call = .store c → key ∉ c.adjusts) : (s.act m).Ledger key := by
  have hnow := act_now_le ho hP m
  have hlog := act_log s m
  rcases act_store ho hP m with ⟨hs, hd⟩ | ⟨who, c, a, st, hd, hp, hs⟩
  · have hmark : ∀ d ∈ (s.did m).toList, d.mark? key = none := fun d h =>
      ServedCall.mark?_of_not_store (hd d (Option.mem_toList.1 h))
    constructor
    · rw [hs, hlog, replay_append hmark]
      exact hl.entry.imp id fun h => ⟨h.1, filter_later hnow h.2⟩
    · rw [hlog]
      cases hdid : s.did m with
      | none => exact hl.honest
      | some d => exact ⟨ServedCall.agrees_of_not_store (hd d hdid), hl.honest⟩
  · have hlog : (s.act m).log = ⟨who, .store c, a, s.now⟩ :: s.log := by rw [hlog, hd]; rfl
    have hagrees : c.Agrees key (s.world.store.find? s.now key) a := Store.perform_agrees hp
    rw [hl.find?] at hagrees
    constructor
    · rw [hs, hlog]
      have hadj : key ∉ c.adjusts := hm _ hd c rfl
      have hmark : replay key (⟨who, .store c, a, s.now⟩ :: s.log) =
          (c.mark? key s.now a).getD (replay key s.log) := rfl
      rw [hmark]
      rcases Store.perform_marked hp hadj with ht | ⟨hn, ht, hf⟩
      · cases hk : c.mark? key s.now a with
        | some e => exact .inl (by rw [ht, hk]; rfl)
        | none =>
          rw [hk] at ht
          rw [ht]
          exact hl.entry.imp id fun h => ⟨h.1, filter_later hnow h.2⟩
      · refine .inr ⟨ht, ?_⟩
        rw [hn]
        exact filter_later hnow (hl.find? ▸ hf)
    · rw [hlog]
      exact ⟨hagrees, hl.honest⟩

end Ledger

end Crowd

end Registrar
