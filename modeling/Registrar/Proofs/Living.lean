import Mathlib.Data.Finset.Card
import Mathlib.Data.Set.Finite.Basic
import Mathlib.Logic.Function.Basic
import Registrar.Proofs.Service
/-!
The store as it is meant: a finite map of live entries, from which whatever has died is gone at
once. The store in memory lets its dead lie until it meets them. What lives in it commutes with
each handling (`Shelf.living_handle`), so no history can tell the two apart
(`Shelf.lazy_expiry_unobservable`).
-/
set_option autoImplicit false

namespace Registrar

/-- What can be done with a store: calls, looks that pass its switches by, the switches, and time. -/
inductive Handling where
  | call (c : StoreCall)
  | peek (key : String)
  | ttl (key : String)
  | available (on : Bool)
  | accepting (on : Bool)
  | pass (length : Span)

/-- What comes back. A call crashes where the clock cannot hold the moment it would note. -/
inductive Handled where
  | answered {c : StoreCall} (a : Except StoreError c.Answer)
  | crashed
  | value (v : Option String)
  | left (ttl : Option Span)
  | silent

/-- An error, or a write that was refused. -/
def Handled.Denied : Handled → Prop
  | .answered (.error _) => True
  | .answered (c := .set _ _ _) (.ok written) => written = false
  | _ => False

structure Living where
  now : Tick
  find? : String → Option Entry
  alive : ∀ key e, find? key = some e → e.live now = true
  finite : {key | find? key ≠ none}.Finite
  available : Bool
  accepting : Bool

namespace Living

@[ext] theorem ext {l m : Living} (hn : l.now = m.now) (he : ∀ key, l.find? key = m.find? key)
    (ha : l.available = m.available) (hc : l.accepting = m.accepting) : l = m := by
  cases l
  cases m
  simp_all [funext_iff]

/-- The entries given, as far as they live at this moment. -/
def keep (l : Living) (now : Tick) (entries : String → Option Entry)
    (finite : {key | entries key ≠ none}.Finite) : Living where
  now := now
  find? key := (entries key).filter (Entry.live now)
  alive key e h := (Option.filter_eq_some_iff.1 h).2
  finite := finite.subset fun key h hn => h (by simp [hn])
  available := l.available
  accepting := l.accepting

theorem keep_find? (l : Living) (now : Tick) (entries : String → Option Entry)
    (finite : {key | entries key ≠ none}.Finite) (key : String) :
    (l.keep now entries finite).find? key = (entries key).filter (Entry.live now) := rfl

def put (l : Living) (key : String) (e : Entry) : Living :=
  l.keep l.now (Function.update l.find? key (some e)) <| by
    refine (l.finite.insert key).subset fun k hk => ?_
    by_cases h : k = key
    · simp [h]
    · simpa [h] using hk

def erase (l : Living) (keys : List String) : Living :=
  l.keep l.now (fun key => if key ∈ keys then none else l.find? key) <|
    l.finite.subset fun key h hn => h (by simp [hn])

/-- Time passes, and whatever dies of it is gone. -/
def pass (l : Living) (length : Span) : Living := l.keep (l.now + length) l.find? l.finite

def counter (l : Living) (key : String) : Entry := (l.find? key).getD ⟨"0", none⟩

def among (l : Living) (keys : List String) : Nat :=
  (keys.toFinset.filter fun key => (l.find? key).isSome).card

theorem filter_live (l : Living) (key : String) :
    (l.find? key).filter (Entry.live l.now) = l.find? key := by
  cases h : l.find? key with
  | none => rfl
  | some e => simp [l.alive key e h]

theorem erase_find? (l : Living) (keys : List String) (key : String) :
    (l.erase keys).find? key = if key ∈ keys then none else l.find? key := by
  rw [erase, keep_find?]
  by_cases h : key ∈ keys <;> simp [h, filter_live]

theorem erase_nil (l : Living) : l.erase [] = l := by
  ext1
  · rfl
  · simp [erase_find?]
  · rfl
  · rfl

theorem erase_cons (l : Living) (key : String) (keys : List String) :
    l.erase (key :: keys) = (l.erase [key]).erase keys := by
  ext1
  · rfl
  · rename_i k
    by_cases h : k = key <;> simp [erase_find?, h]
  · rfl
  · rfl

theorem among_cons (l : Living) (key : String) (keys : List String) :
    l.among (key :: keys) =
      if (l.find? key).isSome then (l.erase [key]).among keys + 1
      else (l.erase [key]).among keys := by
  have hrest : (keys.toFinset.filter fun k => ((l.erase [key]).find? k).isSome) =
      (keys.toFinset.filter fun k => (l.find? k).isSome).erase key := by
    ext k
    by_cases h : k = key <;> simp [erase_find?, h]
  unfold among
  rw [hrest, List.toFinset_cons, Finset.filter_insert]
  by_cases h : (l.find? key).isSome
  · rw [if_pos h, if_pos h, ← Finset.card_insert_of_notMem (Finset.notMem_erase key _)]
    congr 1
    ext k
    by_cases hk : k = key <;> simp [hk]
  · rw [if_neg h, if_neg h, Finset.erase_eq_of_notMem (by simp [h])]

def incr (l : Living) (key : String) : Except StoreError Int × Living :=
  match Numeral.int64? (l.counter key).value.toList with
  | none => (.error (.protocol ("value at " ++ key ++ " is not an integer")), l)
  | some n =>
    if n < Numeral.maxInt64 then
      (.ok (n + 1), l.put key { l.counter key with value := String.ofList (Numeral.signed (n + 1)) })
    else (.error (.protocol ("increment of " ++ key ++ " would overflow")), l)

def expire (l : Living) (key : String) (ttl : Span) : Option (Bool × Living) :=
  match l.find? key with
  | none => some (false, l)
  | some e => (l.now.after? ttl).map fun dies => (true, l.put key { e with expiry := some dies })

def perform (l : Living) (c : StoreCall) : Option (Except StoreError c.Answer × Living) :=
  if l.available then
    match c with
    | .set key value ttl =>
      if l.accepting then
        (l.now.after? ttl).map fun dies => (.ok true, l.put key ⟨value, some dies⟩)
      else some (.ok false, l)
    | .get key => some (.ok ((l.find? key).map (·.value)), l)
    | .del keys => some (.ok (l.among keys), l.erase keys)
    | .incr key => some (l.incr key)
    | .expire key ttl => (l.expire key ttl).map fun (a, m) => (.ok a, m)
  else some (.error Store.outage, l)

def handle (l : Living) : Handling → Handled × Living
  | .call c =>
    match l.perform c with
    | none => (.crashed, l)
    | some (a, m) => (.answered a, m)
  | .peek key => (.value ((l.find? key).map (·.value)), l)
  | .ttl key => (.left (l.find? key >>= (·.expiry) |>.map (· - l.now)), l)
  | .available on => (.silent, { l with available := on })
  | .accepting on => (.silent, { l with accepting := on })
  | .pass length => (.silent, l.pass length)

/-- What comes back from one handling after another. -/
def play (l : Living) : List Handling → List Handled × Living
  | [] => ([], l)
  | h :: hs => (((l.handle h).1 :: ((l.handle h).2.play hs).1), ((l.handle h).2.play hs).2)

theorem incr_error {l m : Living} {key : String} {e : StoreError}
    (h : l.incr key = (.error e, m)) : m = l := by
  unfold incr at h
  split at h
  · simp_all
  · split at h <;> simp_all

theorem perform_denied {l m : Living} {c : StoreCall} {a : Except StoreError c.Answer}
    (h : l.perform c = some (a, m)) (hd : (Handled.answered a).Denied) : m = l := by
  unfold perform at h
  split at h
  · cases c with
    | set key value ttl =>
      simp only at h
      split at h
      · obtain ⟨dies, -, hput⟩ := Option.map_eq_some_iff.1 h
        cases hput
        simp [Handled.Denied] at hd
      · simp_all
    | get key =>
      cases h
      simp [Handled.Denied] at hd
    | del keys =>
      cases h
      simp [Handled.Denied] at hd
    | incr key =>
      cases a with
      | ok n => simp [Handled.Denied] at hd
      | error e => exact incr_error (Option.some.inj h)
    | expire key ttl =>
      obtain ⟨⟨b, k⟩, -, hr⟩ := Option.map_eq_some_iff.1 h
      cases hr
      simp [Handled.Denied] at hd
  · simp_all

theorem handle_denied {l : Living} {h : Handling} (hd : (l.handle h).1.Denied) :
    (l.handle h).2 = l := by
  cases h with
  | call c =>
    cases hp : l.perform c with
    | none => simp [handle, hp]
    | some r =>
      simp only [handle, hp] at hd ⊢
      exact perform_denied hp hd
  | _ => simp [handle, Handled.Denied] at hd

end Living

/-- A store in memory, and the time on its clock. -/
structure Shelf where
  store : Store
  now : Tick

namespace Shelf

def handle (s : Shelf) : Handling → Handled × Shelf
  | .call c =>
    match s.store.perform s.now c with
    | none => (.crashed, s)
    | some (a, t) => (.answered a, { s with store := t })
  | .peek key => (.value (s.store.peek s.now key), s)
  | .ttl key => (.left (s.store.ttl s.now key), s)
  | .available on => (.silent, { s with store := { s.store with available := on } })
  | .accepting on => (.silent, { s with store := { s.store with accepting := on } })
  | .pass length => (.silent, { s with now := s.now + length })

def play (s : Shelf) : List Handling → List Handled × Shelf
  | [] => ([], s)
  | h :: hs => (((s.handle h).1 :: ((s.handle h).2.play hs).1), ((s.handle h).2.play hs).2)

end Shelf

namespace Store

variable {s t : Store} {now : Tick} {key : String}

theorem finite_entries (s : Store) : {key | s.entries.get? key ≠ none}.Finite := by
  obtain ⟨⟨rows⟩, -, -⟩ := s
  induction rows with
  | nil => simp [Table.get?, Table.look]
  | cons r rows ih =>
    refine (ih.insert r.1).subset fun key h => ?_
    by_cases hk : r.1 = key
    · simp [hk]
    · refine .inr ?_
      simpa [Table.get?, Table.look, hk] using h

def living (s : Store) (now : Tick) : Living where
  now := now
  find? := s.find? now
  alive _ _ h := (live_of_find? h).2
  finite := s.finite_entries.subset fun key h hn => h (by simp [find?, hn])
  available := s.available
  accepting := s.accepting

@[simp] theorem living_find? (s : Store) (now : Tick) (key : String) :
    (s.living now).find? key = s.find? now key := rfl

@[simp] theorem living_now (s : Store) (now : Tick) : (s.living now).now = now := rfl

theorem living_put (s : Store) (now : Tick) (key : String) (e : Entry) :
    (s.put key e).living now = (s.living now).put key e := by
  ext1
  · rfl
  · rename_i k
    rw [living_find?, find?_put, Living.put, Living.keep_find?]
    by_cases h : k = key
    · simp [h]
    · simp [h, find?, Option.filter_filter]
  · rfl
  · rfl

theorem living_drop (s : Store) (now : Tick) (key : String) :
    (s.drop key).living now = (s.living now).erase [key] := by
  ext1
  · rfl
  · rename_i k
    rw [living_find?, find?_drop, Living.erase, Living.keep_find?]
    by_cases h : k = key
    · simp [h]
    · simp [h, find?, Option.filter_filter]
  · rfl
  · rfl

theorem living_get (s : Store) (now : Tick) (key : String) :
    (s.get now key).2.living now = s.living now := by
  ext1
  · rfl
  · exact reads_get s now key _ now (Nat.le_refl now)
  · unfold get
    split <;> [skip; split] <;> rfl
  · unfold get
    split <;> [skip; split] <;> rfl

theorem get_value (s : Store) (now : Tick) (key : String) :
    (s.get now key).1 = ((s.living now).find? key).map (·.value) := by
  unfold get
  cases h : s.entries.get? key with
  | none => simp [find?, h]
  | some e => cases hl : e.live now <;> simp [find?, h, hl, Option.filter]

theorem living_del (keys : List String) (s : Store) (now : Tick) :
    (s.del now keys).1 = (s.living now).among keys ∧
      (s.del now keys).2.living now = (s.living now).erase keys := by
  induction keys generalizing s with
  | nil => exact ⟨rfl, (Living.erase_nil _).symm⟩
  | cons key keys ih =>
    obtain ⟨hn, hl⟩ := ih (s.drop key)
    rw [living_drop] at hn hl
    constructor
    · rw [Living.among_cons, ← hn]
      rfl
    · rw [Living.erase_cons, ← hl]
      rfl

theorem living_incr (s : Store) (now : Tick) (key : String) :
    (s.living now).incr key = ((s.incr now key).1, (s.incr now key).2.living now) := by
  have hc : (s.living now).counter key = s.counter now key := rfl
  rw [incr_eq, Living.incr, hc, count?]
  cases h : Numeral.int64? (s.counter now key).value.toList with
  | none => rfl
  | some n => by_cases hm : n < Numeral.maxInt64 <;> simp [hm, living_put]

theorem living_expire (s : Store) (now : Tick) (key : String) (ttl : Span) :
    (s.living now).expire key ttl =
      (s.expire now key ttl).map fun (a, t) => (a, t.living now) := by
  unfold expire Living.expire
  cases h : s.find? now key <;> simp [h, living_put, Function.comp_def]

theorem living_perform (s : Store) (now : Tick) (c : StoreCall) :
    (s.living now).perform c = (s.perform now c).map fun (a, t) => (a, t.living now) := by
  have ha : (s.living now).available = s.available := rfl
  cases hav : s.available with
  | false => cases c <;> simp [Living.perform, perform, ha, hav]
  | true =>
    cases c with
    | set key value ttl =>
      have hc : (s.living now).accepting = s.accepting := rfl
      cases hacc : s.accepting <;>
        simp [Living.perform, perform, set, ha, hc, hav, hacc, living_put, Function.comp_def]
    | get key => simp [Living.perform, perform, ha, hav, living_get, get_value]
    | del keys =>
      simp [Living.perform, perform, ha, hav, (living_del keys s now).1, (living_del keys s now).2]
    | incr key =>
      rw [Living.perform, if_pos (ha.trans hav), living_incr, perform, if_pos hav]
      rfl
    | expire key ttl =>
      simp [Living.perform, perform, ha, hav, living_expire, Function.comp_def]

end Store

namespace Shelf

variable {s : Shelf} {h : Handling}

/-- What lives in the store at the moment. -/
def living (s : Shelf) : Living := s.store.living s.now

theorem living_pass (s : Shelf) (length : Span) :
    (s.handle (.pass length)).2.living = s.living.pass length := by
  ext1
  · rfl
  · rename_i key
    change s.store.find? (s.now + length) key =
      (s.store.find? s.now key).filter (Entry.live (s.now + length))
    unfold Store.find?
    cases s.store.entries.get? key with
    | none => rfl
    | some e =>
      by_cases hl : e.live (s.now + length) = true
      · simp [Option.filter, hl, Store.live_of_live_later (Nat.le_add_right _ _) hl]
      · cases hn : e.live s.now <;> simp [Option.filter, hl, hn]
  · rfl
  · rfl

theorem living_handle (s : Shelf) (h : Handling) :
    s.living.handle h = ((s.handle h).1, (s.handle h).2.living) := by
  cases h with
  | call c =>
    have hp := Store.living_perform s.store s.now c
    simp only [living, Living.handle, hp, handle]
    cases s.store.perform s.now c <;> rfl
  | pass length => exact Prod.ext rfl (living_pass s length).symm
  | _ => rfl

theorem living_play (hs : List Handling) (s : Shelf) :
    s.living.play hs = ((s.play hs).1, (s.play hs).2.living) := by
  induction hs generalizing s with
  | nil => rfl
  | cons h hs ih => simp [Living.play, play, living_handle, ih]

/-- Whatever is done with a store in memory, what comes back is what the store that keeps live
entries only gives, and the live entries are the same. A call that fails and a write that is
refused leave them as they are. -/
theorem lazy_expiry_unobservable (s : Shelf) (hs : List Handling) :
    (s.play hs).1 = (s.living.play hs).1 ∧ (s.play hs).2.living = (s.living.play hs).2 ∧
      ∀ h, ((s.play hs).2.handle h).1.Denied →
        ((s.play hs).2.handle h).2.living = (s.play hs).2.living := by
  rw [living_play]
  refine ⟨rfl, rfl, fun h hd => ?_⟩
  have hl := living_handle (s.play hs).2 h
  have hdenied : ((s.play hs).2.living.handle h).1.Denied := by rwa [hl]
  simpa [hl] using Living.handle_denied hdenied

theorem lazy_expiry_unobservable_dead :
    let s : Shelf := ⟨.empty, 0⟩
    let hs : List Handling := [.call (.set "a" "7" 0), .available false]
    (s.play hs).2.store.entries.get? "a" = some ⟨"7", some 0⟩ ∧
      (s.play (hs ++ [.peek "a"])).1 = (s.living.play (hs ++ [.peek "a"])).1 ∧
      ((s.play hs).2.handle (.call (.get "a"))).1 = .answered (c := .get "a") (.error Store.outage) ∧
      ((s.play hs).2.handle (.call (.get "a"))).2.living = (s.play hs).2.living :=
  ⟨rfl, (lazy_expiry_unobservable _ _).1, rfl, (lazy_expiry_unobservable _ _).2.2 _ trivial⟩

end Shelf

end Registrar
