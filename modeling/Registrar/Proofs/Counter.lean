import Registrar.Proofs.Digits
set_option autoImplicit false

namespace Registrar

namespace StoreCall

/-- The keys that a call may write. A dead entry that is read is cleared away, but not written. -/
def writes : StoreCall → List String
  | .set key _ _ | .incr key | .expire key _ => [key]
  | .del keys => keys
  | .get _ => []

/-- The counter that an answer says was taken up, and to which number. -/
def counted? : (c : StoreCall) → Except StoreError c.Answer → Option (String × Int)
  | .incr key, .ok n => some (key, n)
  | _, _ => none

/-- The counter whose expiry an answer says was renewed, and for how long. -/
def renewed? : (c : StoreCall) → Except StoreError c.Answer → Option (String × Span)
  | .expire key ttl, .ok true => some (key, ttl)
  | _, _ => none

end StoreCall

namespace Store

variable {s t : Store} {now : Tick} {key other : String}

def counter (s : Store) (now : Tick) (key : String) : Entry := (s.find? now key).getD ⟨"0", none⟩

def count? (s : Store) (now : Tick) (key : String) : Option Int :=
  Numeral.int64? (s.counter now key).value.toList

theorem live_of_find? {e : Entry} (h : s.find? now key = some e) :
    s.entries.get? key = some e ∧ e.live now = true :=
  Option.filter_eq_some_iff.1 h

theorem counter_live (s : Store) (now : Tick) (key : String) :
    (s.counter now key).live now = true := by
  unfold counter
  cases h : s.find? now key with
  | none => rfl
  | some e => exact (live_of_find? h).2

theorem counter_of_find? {e : Entry} (h : s.find? now key = some e) : s.counter now key = e := by
  simp [counter, h]

theorem expired_of_find? {e : Entry} (hf : s.find? now key = none)
    (he : s.entries.get? key = some e) : ∃ x, e.expiry = some x ∧ x ≤ now := by
  have hdead : e.live now = false := by
    simpa [find?, he, Option.filter] using hf
  obtain ⟨value, expiry⟩ := e
  cases expiry with
  | none => cases hdead
  | some x => exact ⟨x, rfl, Nat.not_lt.1 (of_decide_eq_false hdead)⟩

theorem get?_put_self (s : Store) (key : String) (e : Entry) :
    (s.put key e).entries.get? key = some e := Table.get?_insert_self _ _ _

theorem get?_put_of_ne (s : Store) (e : Entry) (h : other ≠ key) :
    (s.put key e).entries.get? other = s.entries.get? other := by
  simp [put, Table.get?_insert, h]

theorem get?_drop_of_ne (s : Store) (h : other ≠ key) :
    (s.drop key).entries.get? other = s.entries.get? other := by
  simp [drop, Table.get?_erase, h]

theorem get?_del_of_not_mem {keys : List String} (h : key ∉ keys) :
    (s.del now keys).2.entries.get? key = s.entries.get? key := by
  induction keys generalizing s with
  | nil => rfl
  | cons k keys ih =>
    simp only [List.mem_cons, not_or] at h
    rw [del]
    exact (ih h.2).trans (get?_drop_of_ne s h.1)

inductive Tended (s : Store) (now : Tick) (key : String) (t : Store) :
    (c : StoreCall) → Except StoreError c.Answer → Prop where
  | kept {c : StoreCall} {a : Except StoreError c.Answer}
      (ht : t.entries.get? key = s.entries.get? key)
      (hn : ∀ n, c.counted? a ≠ some (key, n)) (hr : ∀ ttl, c.renewed? a ≠ some (key, ttl)) :
      Tended s now key t c a
  | cleared {c : StoreCall} {a : Except StoreError c.Answer} (hs : s.find? now key = none)
      (ht : t.entries.get? key = none) (hn : ∀ n, c.counted? a ≠ some (key, n))
      (hr : ∀ ttl, c.renewed? a ≠ some (key, ttl)) : Tended s now key t c a
  | counted {v : Int} (hv : s.count? now key = some v) (hmax : v < Numeral.maxInt64)
      (ht : t.entries.get? key =
        some { s.counter now key with value := String.ofList (Numeral.signed (v + 1)) }) :
      Tended s now key t (.incr key) (.ok (v + 1))
  | renewed {e : Entry} {ttl : Span} (hs : s.find? now key = some e)
      (ht : t.entries.get? key = some { e with expiry := some (now + ttl) }) :
      Tended s now key t (.expire key ttl) (.ok true)

theorem incr_eq (s : Store) (now : Tick) (key : String) :
    s.incr now key =
      match s.count? now key with
      | none => (.error (.protocol ("value at " ++ key ++ " is not an integer")), s)
      | some n =>
        if n < Numeral.maxInt64 then
          (.ok (n + 1), s.put key { s.counter now key with
            value := String.ofList (Numeral.signed (n + 1)) })
        else (.error (.protocol ("increment of " ++ key ++ " would overflow")), s) := rfl

theorem incr_tended {a : Except StoreError Int} (h : s.incr now other = (a, t)) :
    s.Tended now key t (.incr other) a := by
  rw [incr_eq] at h
  split at h
  · obtain ⟨rfl, rfl⟩ := Prod.mk.injEq .. ▸ h
    exact .kept rfl (by simp [StoreCall.counted?]) (by simp [StoreCall.renewed?])
  · rename_i v hv
    split at h
    · rename_i hmax
      obtain ⟨rfl, rfl⟩ := Prod.mk.injEq .. ▸ h
      by_cases ho : key = other
      · subst ho
        exact .counted hv hmax (get?_put_self ..)
      · refine .kept (get?_put_of_ne _ _ ho) (fun n hn => ?_) (by simp [StoreCall.renewed?])
        simp only [StoreCall.counted?, Option.some.injEq, Prod.mk.injEq] at hn
        exact ho hn.1.symm
    · obtain ⟨rfl, rfl⟩ := Prod.mk.injEq .. ▸ h
      exact .kept rfl (by simp [StoreCall.counted?]) (by simp [StoreCall.renewed?])

theorem expire_tended {ttl : Span} {a : Bool} (h : s.expire now other ttl = some (a, t)) :
    s.Tended now key t (.expire other ttl) (.ok a) := by
  unfold expire at h
  split at h
  · cases h
    exact .kept rfl (by simp [StoreCall.counted?]) (by simp [StoreCall.renewed?])
  · rename_i e he
    obtain ⟨dies, hd, hput⟩ := Option.map_eq_some_iff.1 h
    obtain ⟨rfl, rfl⟩ := Prod.mk.injEq .. ▸ hput
    obtain rfl := Tick.eq_of_after? hd
    by_cases ho : key = other
    · subst ho
      exact .renewed he (get?_put_self ..)
    · refine .kept (get?_put_of_ne _ _ ho) (by simp [StoreCall.counted?]) fun ttl' hr => ?_
      simp only [StoreCall.renewed?, Option.some.injEq, Prod.mk.injEq] at hr
      exact ho hr.1.symm

theorem get_tended {a : Option String} (h : s.get now other = (a, t)) :
    s.Tended now key t (.get other) (.ok a) := by
  have hn : ∀ n, (StoreCall.get other).counted? (.ok a) ≠ some (key, n) := by
    simp [StoreCall.counted?]
  have hr : ∀ ttl, (StoreCall.get other).renewed? (.ok a) ≠ some (key, ttl) := by
    simp [StoreCall.renewed?]
  unfold get at h
  split at h
  · obtain ⟨rfl, rfl⟩ := Prod.mk.injEq .. ▸ h
    exact .kept rfl hn hr
  · rename_i e he
    split at h
    · obtain ⟨rfl, rfl⟩ := Prod.mk.injEq .. ▸ h
      exact .kept rfl hn hr
    · rename_i hdead
      obtain ⟨rfl, rfl⟩ := Prod.mk.injEq .. ▸ h
      by_cases ho : key = other
      · subst ho
        refine .cleared ?_ (Table.get?_erase_self _ _) hn hr
        simp [find?, he, Option.filter, hdead]
      · exact .kept (get?_drop_of_ne _ ho) hn hr

theorem perform_tended {c : StoreCall} {a : Except StoreError c.Answer}
    (h : s.perform now c = some (a, t))
    (hw : key ∈ c.writes → c = .incr key ∨ ∃ ttl, c = .expire key ttl) :
    s.Tended now key t c a := by
  have outage : some ((.error Store.outage : Except StoreError c.Answer), s) = some (a, t) →
      s.Tended now key t c a := by
    intro he
    cases he
    exact .kept rfl (fun n => by cases c <;> simp [StoreCall.counted?])
      fun ttl => by cases c <;> simp [StoreCall.renewed?]
  cases c with
  | set k value ttl =>
    have hk : key ≠ k := by
      rintro rfl
      simpa using hw (by simp [StoreCall.writes])
    simp only [perform] at h
    split at h
    · obtain ⟨⟨b, t'⟩, hset, hr⟩ := Option.map_eq_some_iff.1 h
      cases hr
      refine .kept ?_ (by simp [StoreCall.counted?]) (by simp [StoreCall.renewed?])
      unfold set at hset
      split at hset
      · obtain ⟨dies, -, hput⟩ := Option.map_eq_some_iff.1 hset
        cases hput
        exact get?_put_of_ne _ _ hk
      · cases hset
        rfl
    · exact outage h
  | get k =>
    simp only [perform] at h
    split at h
    · cases h
      exact get_tended rfl
    · exact outage h
  | del keys =>
    have hk : key ∉ keys := fun hk => by simpa using hw hk
    simp only [perform] at h
    split at h
    · cases h
      exact .kept (get?_del_of_not_mem hk) (by simp [StoreCall.counted?])
        (by simp [StoreCall.renewed?])
    · exact outage h
  | incr k =>
    simp only [perform] at h
    split at h
    · exact incr_tended (Option.some.inj h)
    · exact outage h
  | expire k ttl =>
    simp only [perform] at h
    split at h
    · obtain ⟨⟨b, t'⟩, hexp, hr⟩ := Option.map_eq_some_iff.1 h
      cases hr
      exact expire_tended hexp
    · exact outage h

theorem count?_bounds {v : Int} (h : s.count? now key = some v) :
    Numeral.minInt64 ≤ v ∧ v ≤ Numeral.maxInt64 := by
  have hb := (Option.filter_eq_some_iff.1 h).2
  simpa using hb

theorem find?_congr (h : t.entries.get? key = s.entries.get? key) :
    t.find? now key = s.find? now key := by
  rw [find?, find?, h]

theorem count?_congr (h : t.find? now key = s.find? now key) :
    t.count? now key = s.count? now key := by
  rw [count?, count?, counter, counter, h]

theorem Tended.count? {c : StoreCall} {a : Except StoreError c.Answer}
    (h : s.Tended now key t c a)
    (hlive : (s.find? now key).isSome → (t.find? now key).isSome) :
    (∀ n, c.counted? a ≠ some (key, n)) ∧ t.count? now key = s.count? now key ∨
      ∃ v, s.count? now key = some v ∧ c.counted? a = some (key, v + 1) ∧
        t.count? now key = some (v + 1) := by
  cases h with
  | kept ht hn => exact .inl ⟨hn, count?_congr (find?_congr ht)⟩
  | cleared hs ht hn =>
    have hgone : t.find? now key = none := by simp [find?, ht]
    exact .inl ⟨hn, count?_congr (hgone.trans hs.symm)⟩
  | @counted v hv hmax ht =>
    refine .inr ⟨v, hv, rfl, ?_⟩
    have hl : ({ s.counter now key with value := String.ofList (Numeral.signed (v + 1)) } :
        Entry).live now = true := s.counter_live now key
    have hb := count?_bounds hv
    have hf : t.find? now key =
        some { s.counter now key with value := String.ofList (Numeral.signed (v + 1)) } := by
      rw [find?, ht]
      exact if_pos hl
    have hr := Numeral.int64?_signed (n := v + 1) (by omega) (by omega)
    simp [Store.count?, counter, hf, hr]
  | @renewed e ttl hs ht =>
    refine .inl ⟨by simp [StoreCall.counted?], ?_⟩
    have hl := hlive (by simp [hs])
    have hf : t.find? now key = some { e with expiry := some (now + ttl) } := by
      rw [find?, ht] at hl ⊢
      simpa [Option.filter] using hl
    simp [Store.count?, counter, hf, hs]

theorem live_of_live_later {e : Entry} {later : Tick} (h : now ≤ later)
    (he : e.live later = true) : e.live now = true := by
  obtain ⟨value, expiry⟩ := e
  cases expiry with
  | none => rfl
  | some dies =>
    have hd : later < dies := of_decide_eq_true he
    exact decide_eq_true (Nat.lt_of_le_of_lt h hd)

theorem count?_later {later : Tick} (h : now ≤ later)
    (hlive : (s.find? now key).isSome → (s.find? later key).isSome) :
    s.count? later key = s.count? now key := by
  have hf : s.find? later key = s.find? now key := by
    cases hn : s.find? now key with
    | some e =>
      have hl := hlive (by simp [hn])
      obtain ⟨f, hf⟩ := Option.isSome_iff_exists.1 hl
      have he := (live_of_find? hn).1.symm.trans (live_of_find? hf).1
      cases he
      exact hf
    | none =>
      cases hl : s.find? later key with
      | none => rfl
      | some e =>
        obtain ⟨hget, hlive'⟩ := live_of_find? hl
        have hnow := live_of_live_later h hlive'
        simp [find?, hget, Option.filter, hnow] at hn
  rw [Store.count?, Store.count?, counter, counter, hf]

end Store

end Registrar
