import Registrar.Proofs.Counter
import Registrar.Proofs.Crowd.Served
set_option autoImplicit false

namespace Registrar

structure Realm where
  keys : String → Prop
  locks : String → Prop

def Realm.lock (name : String) : Realm := ⟨fun _ => False, (· = name)⟩

def Realm.of (key name : String) : Realm := ⟨(· = key), (· = name)⟩

structure Store.SameAt (K : String → Prop) (s t : Store) : Prop where
  available : t.available = s.available
  accepting : t.accepting = s.accepting
  entries : ∀ key, K key → t.entries.get? key = s.entries.get? key

structure Locks.SameAt (N : String → Prop) (ls ms : Locks) : Prop where
  available : ms.available = ls.available
  patience : ms.patience = ls.patience
  issued : ms.issued = ls.issued
  locks : ∀ name, N name → ms.find name = ls.find name

inductive World.SameIn (r : Realm) (w : World) : World → Prop where
  | intro {s : Store} {ls : Locks} (hs : w.store.SameAt r.keys s) (hls : w.locks.SameAt r.locks ls) :
      SameIn r w { w with store := s, locks := ls }

/-- Nothing outside a realm has changed, no lock outside of it was left behind, and no time has
passed. -/
structure World.Spares (r : Realm) (w v : World) : Prop where
  clock : v.clock = w.clock
  entries : ∀ key, ¬ r.keys key → v.store.entries.get? key = w.store.entries.get? key
  locks : ∀ name, ¬ r.locks name → v.locks.find name = w.locks.find name
  left : ∃ more, v.orphans = w.orphans ++ more ∧ ∀ h ∈ more, r.locks h.token.name

/-- What is done within a realm: it reads nothing outside of it and changes nothing there. -/
structure Realm.Confines {β : Type} (r : Realm) (f : World → World × β) : Prop where
  reads : ∀ w v, w.SameIn r v → (f v).2 = (f w).2 ∧ (f w).1.SameIn r (f v).1
  spares : ∀ w : World, w.Spares r (f w).1

namespace Store

variable {K : String → Prop} {s t : Store} {now : Tick}

theorem SameAt.put (h : s.SameAt K t) (key : String) (e : Entry) :
    (s.put key e).SameAt K (t.put key e) where
  available := h.available
  accepting := h.accepting
  entries other hother := by simp [Store.put, Table.get?_insert, h.entries other hother]

theorem SameAt.drop (h : s.SameAt K t) (key : String) : (s.drop key).SameAt K (t.drop key) where
  available := h.available
  accepting := h.accepting
  entries other hother := by simp [Store.drop, Table.get?_erase, h.entries other hother]

theorem SameAt.find? (h : s.SameAt K t) {key : String} (hkey : K key) :
    t.find? now key = s.find? now key := by
  rw [Store.find?, h.entries key hkey, Store.find?]

theorem SameAt.get (h : s.SameAt K t) {key : String} (hkey : K key) :
    (t.get now key).1 = (s.get now key).1 ∧ (s.get now key).2.SameAt K (t.get now key).2 := by
  simp only [Store.get, h.entries key hkey]
  split
  · exact ⟨rfl, h⟩
  · split
    · exact ⟨rfl, h⟩
    · exact ⟨rfl, h.drop key⟩

theorem SameAt.del (h : s.SameAt K t) {keys : List String} (hkeys : ∀ key ∈ keys, K key) :
    (t.del now keys).1 = (s.del now keys).1 ∧ (s.del now keys).2.SameAt K (t.del now keys).2 := by
  induction keys generalizing s t with
  | nil => exact ⟨rfl, h⟩
  | cons key keys ih =>
    have hrest := ih (h.drop key) fun other hother => hkeys other (List.mem_cons_of_mem _ hother)
    simp only [Store.del, h.find? (hkeys key List.mem_cons_self), hrest.1]
    exact ⟨trivial, hrest.2⟩

theorem SameAt.incr (h : s.SameAt K t) {key : String} (hkey : K key) :
    (t.incr now key).1 = (s.incr now key).1 ∧ (s.incr now key).2.SameAt K (t.incr now key).2 := by
  simp only [Store.incr, h.find? hkey]
  split
  · exact ⟨rfl, h⟩
  · split
    · exact ⟨rfl, h.put key _⟩
    · exact ⟨rfl, h⟩

/-- Results that are the same, of stores that differ at most in other keys. -/
def SameResult {α : Type} (K : String → Prop) (x y : α × Store) : Prop :=
  y.1 = x.1 ∧ x.2.SameAt K y.2

theorem SameAt.set (h : s.SameAt K t) (key value : String) (ttl : Span) :
    Option.Rel (SameResult K) (s.set now key value ttl) (t.set now key value ttl) := by
  simp only [Store.set, h.accepting]
  split
  · cases now.after? ttl with
    | none => exact .none
    | some dies => exact .some ⟨rfl, h.put key _⟩
  · exact .some ⟨rfl, h⟩

theorem SameAt.expire (h : s.SameAt K t) {key : String} (hkey : K key) (ttl : Span) :
    Option.Rel (SameResult K) (s.expire now key ttl) (t.expire now key ttl) := by
  simp only [Store.expire, h.find? hkey]
  split
  · exact .some ⟨rfl, h⟩
  · cases now.after? ttl with
    | none => exact .none
    | some dies => exact .some ⟨rfl, h.put key _⟩

theorem SameAt.perform (h : s.SameAt K t) {c : StoreCall} (hc : ∀ key ∈ c.keys, K key) :
    Option.Rel (SameResult K) (s.perform now c) (t.perform now c) := by
  cases c with
  | set key value ttl =>
    simp only [Store.perform, h.available]
    split
    · have hset : Option.Rel (SameResult K) (s.set now key value ttl) (t.set now key value ttl) :=
        h.set key value ttl
      generalize s.set now key value ttl = x at hset
      generalize t.set now key value ttl = y at hset
      cases hset with
      | none => exact .none
      | some hxy => exact .some ⟨congrArg Except.ok hxy.1, hxy.2⟩
    · exact .some ⟨rfl, h⟩
  | get key =>
    simp only [Store.perform, h.available]
    split
    · obtain ⟨hanswer, hstore⟩ := h.get (hc key List.mem_cons_self)
      exact .some ⟨congrArg Except.ok hanswer, hstore⟩
    · exact .some ⟨rfl, h⟩
  | del keys =>
    simp only [Store.perform, h.available]
    split
    · obtain ⟨hanswer, hstore⟩ := h.del hc
      exact .some ⟨congrArg Except.ok hanswer, hstore⟩
    · exact .some ⟨rfl, h⟩
  | incr key =>
    simp only [Store.perform, h.available]
    split
    · exact .some (h.incr (hc key List.mem_cons_self))
    · exact .some ⟨rfl, h⟩
  | expire key ttl =>
    simp only [Store.perform, h.available]
    split
    · have hexpire : Option.Rel (SameResult K) (s.expire now key ttl) (t.expire now key ttl) :=
        h.expire (hc key List.mem_cons_self) ttl
      generalize s.expire now key ttl = x at hexpire
      generalize t.expire now key ttl = y at hexpire
      cases hexpire with
      | none => exact .none
      | some hxy => exact .some ⟨congrArg Except.ok hxy.1, hxy.2⟩
    · exact .some ⟨rfl, h⟩

end Store

theorem Store.get?_perform_of_not_mem {s t : Store} {now : Tick} {c : StoreCall}
    {a : Except StoreError c.Answer} (h : s.perform now c = some (a, t)) {key : String}
    (hkey : key ∉ c.keys) : t.entries.get? key = s.entries.get? key := by
  cases c with
  | set other value ttl =>
    have hne : key ≠ other := fun he => hkey (List.mem_singleton.2 he)
    simp only [Store.perform, Store.set] at h
    split at h
    · split at h
      · obtain ⟨x, hx, hr⟩ := Option.map_eq_some_iff.1 h
        obtain ⟨dies, -, rfl⟩ := Option.map_eq_some_iff.1 hx
        cases hr
        exact Store.get?_put_of_ne _ _ hne
      · cases h
        rfl
    · cases h
      rfl
  | get other =>
    have hne : key ≠ other := fun he => hkey (List.mem_singleton.2 he)
    simp only [Store.perform, Store.get] at h
    split at h
    · cases h
      split
      · rfl
      · split
        · rfl
        · exact Store.get?_drop_of_ne _ hne
    · cases h
      rfl
  | del keys =>
    simp only [Store.perform] at h
    split at h
    · cases h
      exact Store.get?_del_of_not_mem hkey
    · cases h
      rfl
  | incr other =>
    have hne : key ≠ other := fun he => hkey (List.mem_singleton.2 he)
    simp only [Store.perform] at h
    split at h
    · have ht : (s.incr now other).2 = t := congrArg Prod.snd (Option.some.inj h)
      subst ht
      simp only [Store.incr]
      split
      · rfl
      · split
        · exact Store.get?_put_of_ne _ _ hne
        · rfl
    · cases h
      rfl
  | expire other ttl =>
    have hne : key ≠ other := fun he => hkey (List.mem_singleton.2 he)
    simp only [Store.perform, Store.expire] at h
    split at h
    · obtain ⟨x, hx, hr⟩ := Option.map_eq_some_iff.1 h
      cases hr
      split at hx
      · cases hx
        rfl
      · obtain ⟨dies, -, rfl⟩ := Option.map_eq_some_iff.1 hx
        exact Store.get?_put_of_ne _ _ hne
    · cases h
      rfl

namespace Locks

variable {N : String → Prop} {ls ms : Locks} {name : String}

theorem SameAt.put (h : ls.SameAt N ms) (name : String) (l : Lock) :
    (ls.put name l).SameAt N (ms.put name l) where
  available := h.available
  patience := h.patience
  issued := h.issued
  locks other hother := by rw [find_put, find_put, h.locks other hother]

theorem SameAt.grant (h : ls.SameAt N ms) (hname : N name) :
    (ms.grant name).1 = (ls.grant name).1 ∧ (ls.grant name).2.SameAt N (ms.grant name).2 := by
  simp only [Locks.grant, h.issued, h.locks name hname]
  exact ⟨trivial, ⟨h.available, h.patience, rfl, (h.put name _).locks⟩⟩

theorem SameAt.enter (h : ls.SameAt N ms) (hname : N name) (ticket : Nat) :
    (ms.enter name ticket).1 = (ls.enter name ticket).1 ∧
      (ls.enter name ticket).2.SameAt N (ms.enter name ticket).2 := by
  simp only [Locks.enter, h.locks name hname]
  split
  · exact ⟨congrArg some (h.grant hname).1, (h.grant hname).2⟩
  · exact ⟨rfl, h.put name _⟩

theorem SameAt.collect (h : ls.SameAt N ms) (hname : N name) (ticket : Nat) :
    (ms.collect name ticket).1 = (ls.collect name ticket).1 ∧
      (ls.collect name ticket).2.SameAt N (ms.collect name ticket).2 := by
  simp only [Locks.collect, h.locks name hname]
  split
  · exact ⟨congrArg some (h.grant hname).1, (h.grant hname).2⟩
  · exact ⟨rfl, h⟩

theorem SameAt.leave (h : ls.SameAt N ms) (hname : N name) (ticket : Nat) :
    (ls.leave name ticket).SameAt N (ms.leave name ticket) := by
  rw [Locks.leave, Locks.leave, h.locks name hname]
  exact h.put name _

theorem SameAt.unlock (h : ls.SameAt N ms) {token : LockToken} (hname : N token.name) :
    (ms.unlock token).1 = (ls.unlock token).1 ∧
      (ls.unlock token).2.SameAt N (ms.unlock token).2 := by
  simp only [Locks.unlock, h.locks token.name hname]
  split
  · exact ⟨rfl, h.put token.name _⟩
  · exact ⟨rfl, h⟩

theorem find_enter_of_ne {other : String} (h : other ≠ name) (ticket : Nat) :
    (ls.enter name ticket).2.find other = ls.find other := by
  simp only [Locks.enter]
  split
  · exact (find_grant ..).trans (if_neg h)
  · rw [find_put, if_neg h]

theorem find_collect_of_ne {other : String} (h : other ≠ name) (ticket : Nat) :
    (ls.collect name ticket).2.find other = ls.find other := by
  simp only [Locks.collect]
  split
  · exact (find_grant ..).trans (if_neg h)
  · rfl

end Locks

def Call.Inside (r : Realm) : Call → Prop
  | .store c => ∀ key ∈ c.keys, r.keys key
  | .lock name _ => r.locks name
  | .unlock token => r.locks token.name
  | .pause _ => True

namespace World

variable {r : Realm} {u v w : World} {c : Call}

theorem Spares.of_eq (hc : v.clock = w.clock) (hs : v.store = w.store) (hls : v.locks = w.locks)
    (ho : v.orphans = w.orphans) : w.Spares r v :=
  ⟨hc, fun _ _ => by rw [hs], fun _ _ => by rw [hls], [], by rw [ho, List.append_nil], by simp⟩

theorem Spares.of_alike (h : Alike w v) : w.Spares r v := .of_eq h.clock h.store h.locks h.orphans

theorem Spares.refl (w : World) : w.Spares r w := .of_eq rfl rfl rfl rfl

theorem Spares.trans (h : w.Spares r v) (k : v.Spares r u) : w.Spares r u where
  clock := k.clock.trans h.clock
  entries key hkey := (k.entries key hkey).trans (h.entries key hkey)
  locks name hname := (k.locks name hname).trans (h.locks name hname)
  left := by
    obtain ⟨hs, ho, hin⟩ := h.left
    obtain ⟨ks, ko, kin⟩ := k.left
    exact ⟨hs ++ ks, by rw [ko, ho, List.append_assoc],
      fun x hx => (List.mem_append.1 hx).elim (hin x) (kin x)⟩

theorem Spares.withLocks (w : World) {ls : Locks} {name : String} (hname : r.locks name)
    (h : ∀ other, other ≠ name → ls.find other = w.locks.find other) :
    w.Spares r { w with locks := ls } where
  clock := rfl
  entries _ _ := rfl
  locks other hother := h other fun he => hother (he ▸ hname)
  left := ⟨[], (List.append_nil _).symm, by simp⟩

theorem Spares.orphan (w : World) {held : Option Held} (h : ∀ x ∈ held, r.locks x.token.name) :
    w.Spares r (w.orphan held) where
  clock := rfl
  entries _ _ := rfl
  locks _ _ := rfl
  left := ⟨held.toList, rfl, fun x hx => h x (Option.mem_toList.1 hx)⟩

namespace SameIn

theorem clock (h : w.SameIn r v) : v.clock = w.clock := by cases h; rfl

theorem withStore (h : w.SameIn r v) {s t : Store} (hst : s.SameAt r.keys t) :
    World.SameIn r { w with store := s } { v with store := t } := by
  cases h with
  | intro hs hls => exact .intro hst hls

theorem withLocks (h : w.SameIn r v) {ls ms : Locks} (hlm : ls.SameAt r.locks ms) :
    World.SameIn r { w with locks := ls } { v with locks := ms } := by
  cases h with
  | intro hs hls => exact .intro hs hlm

theorem withFaults (h : w.SameIn r v) (fs : Faults) :
    World.SameIn r { w with faults := fs } { v with faults := fs } := by
  cases h with
  | intro hs hls => exact .intro hs hls

theorem before {β : Type} (h : w.SameIn r v) (g : Guard) :
    (v.before g : Option (g.Outcome β)) = w.before g := by cases h; cases g <;> rfl

theorem after {β : Type} (h : w.SameIn r v) (lapse : Tick) (g : Guard) :
    (v.after lapse g : Option (g.Outcome β)) = w.after lapse g := by cases h; cases g <;> rfl

theorem noteHolder (h : w.SameIn r v) (holder : Holder) :
    (w.noteHolder holder).SameIn r (v.noteHolder holder) := by
  cases h with
  | intro hs hls =>
    simp only [World.noteHolder]
    split
    · exact .intro hs hls
    · exact .intro hs hls

theorem noteAnswer (h : w.SameIn r v) (a : c.Answer) :
    (w.noteAnswer c a).SameIn r (v.noteAnswer c a) := by
  unfold World.noteAnswer
  split
  · exact h.noteHolder _
  · exact h

theorem record (h : w.SameIn r v) (c : Call) : (w.record c).SameIn r (v.record c) := by
  cases h with
  | intro hs hls =>
    unfold World.record
    split
    all_goals exact .intro hs hls

theorem orphan (h : w.SameIn r v) (held : Option Held) :
    (w.orphan held).SameIn r (v.orphan held) := by
  cases h with
  | intro hs hls => exact .intro hs hls

end SameIn

end World

namespace Realm

variable {r : Realm} {c : Call}

theorem confines_await {name : String} (hname : r.locks name) (ticket : Nat) (direct : Bool)
    (limit : Option Tick) : r.Confines fun w => w.await ticket name direct limit where
  reads w v h := by
    have hw := h
    cases h with
    | @intro s ls hs hls =>
      obtain ⟨hfound, hcollected⟩ := hls.collect hname ticket
      simp only [World.await]
      generalize w.locks.collect name ticket = x at hfound hcollected
      generalize ls.collect name ticket = y at hfound hcollected
      obtain ⟨found, ls'⟩ := x
      obtain ⟨found', ms'⟩ := y
      obtain rfl : found' = found := hfound
      cases found' with
      | some token => exact ⟨rfl, (hw.withLocks hcollected).noteHolder _⟩
      | none =>
        by_cases hlate : limit.any (· ≤ w.now) = true
        · have hlate' : limit.any (· ≤ ({ w with store := s, locks := ls } : World).now) = true :=
            hlate
          simp only [if_pos hlate, if_pos hlate']
          exact ⟨trivial, hw.withLocks (hls.leave hname ticket)⟩
        · have hlate' : ¬ limit.any (· ≤ ({ w with store := s, locks := ls } : World).now) = true :=
            hlate
          simp only [if_neg hlate, if_neg hlate']
          exact ⟨trivial, hw⟩
  spares w := by
    have hcollect : ∀ other, other ≠ name →
        (w.locks.collect name ticket).2.find other = w.locks.find other := fun other hother =>
      Locks.find_collect_of_ne hother ticket
    unfold World.await
    split
    · rename_i token ls hx
      rw [hx] at hcollect
      exact (World.Spares.withLocks w hname hcollect).trans (.of_alike (.noteHolder _ _))
    · split
      · exact .withLocks w hname fun other hother =>
          (Locks.find_leave ..).trans (if_neg hother)
      · exact .refl w

theorem confines_perform (hc : c.Inside r) (ticket : Nat) :
    r.Confines fun w => w.perform ticket c where
  reads w v h := by
    have hw := h
    cases h with
    | @intro s ls hs hls =>
      cases c with
      | store c =>
        have hperform : Option.Rel (Store.SameResult r.keys) (w.store.perform w.clock.now c)
            (s.perform w.clock.now c) := hs.perform hc
        simp only [World.perform, World.now]
        generalize w.store.perform w.clock.now c = x at hperform
        generalize s.perform w.clock.now c = y at hperform
        cases hperform with
        | none => exact ⟨rfl, hw⟩
        | @some x y hxy => exact ⟨congrArg Progress.answered hxy.1, hw.withStore hxy.2⟩
      | lock name direct =>
        simp only [World.perform, hls.available]
        split
        · obtain ⟨hentered, hsame⟩ := hls.enter hc ticket
          generalize w.locks.enter name ticket = x at hentered hsame
          generalize ls.enter name ticket = y at hentered hsame
          obtain ⟨found, ls'⟩ := x
          obtain ⟨found', ms'⟩ := y
          obtain rfl : found' = found := hentered
          cases found' with
          | some token => exact ⟨rfl, (hw.withLocks hsame).noteHolder _⟩
          | none =>
            have hpatience : ms'.patience = ls'.patience := hsame.patience
            simp only [hpatience]
            exact (confines_await hc ticket direct _).reads _ _ (hw.withLocks hsame)
        · exact ⟨rfl, hw⟩
      | unlock token =>
        obtain ⟨hfound, hsame⟩ := hls.unlock hc
        have hanswer : (Progress.answered (.ok (ls.unlock token).1) : Progress (.unlock token)) =
            .answered (.ok (w.locks.unlock token).1) := by rw [hfound]
        exact ⟨hanswer, hw.withLocks hsame⟩
      | pause length =>
        cases length with
        | none => exact ⟨rfl, hw⟩
        | some length =>
          simp only [World.perform, World.now]
          split
          · exact ⟨rfl, hw⟩
          · exact ⟨rfl, hw⟩
  spares w := by
    cases c with
    | store c =>
      simp only [World.perform]
      split
      · exact .refl w
      · rename_i hp
        exact ⟨rfl, fun key hkey => Store.get?_perform_of_not_mem hp fun h => hkey (hc key h),
          fun _ _ => rfl, [], (List.append_nil _).symm, by simp⟩
    | lock name direct =>
      have hentered : ∀ other, other ≠ name →
          (w.locks.enter name ticket).2.find other = w.locks.find other := fun other hother =>
        Locks.find_enter_of_ne hother ticket
      simp only [World.perform]
      split
      · split
        · rename_i hx
          rw [hx] at hentered
          exact (World.Spares.withLocks w hc hentered).trans (.of_alike (.noteHolder _ _))
        · rename_i hx
          rw [hx] at hentered
          exact (World.Spares.withLocks w hc hentered).trans
            ((confines_await hc ticket direct _).spares _)
      · exact .refl w
    | unlock token =>
      exact .withLocks w hc fun other hother =>
        (Locks.find_unlock ..).trans (if_neg fun h => hother h.1)
    | pause length =>
      cases length with
      | none => exact .refl w
      | some length =>
        simp only [World.perform]
        split
        · exact .refl w
        · exact .refl w

theorem confines_undergo (hc : c.Inside r) (ticket : Nat) (f : Fault c.Answer) :
    r.Confines fun w => w.undergo ticket c f where
  reads w v h := by
    induction f with
    | pass => exact (confines_perform hc ticket).reads w v h
    | stall => exact ⟨rfl, h⟩
    | delay length next ih =>
      simp only [World.undergo, World.now, h.clock]
      split
      · exact ih
      · exact ⟨rfl, h⟩
    | answer a => exact ⟨rfl, h.noteAnswer a⟩
  spares w := by
    induction f with
    | pass => exact (confines_perform hc ticket).spares w
    | stall => exact .refl w
    | delay length next ih =>
      simp only [World.undergo]
      split
      · exact ih
      · exact .refl w
    | answer a => exact .of_alike (.noteAnswer w c a)

theorem confines_work (hc : c.Inside r) (ticket : Nat) (p : Phase c) :
    r.Confines fun w => w.work ticket c p where
  reads w v h := by
    cases p with
    | fresh =>
      have hfaults : v.faults = w.faults := by cases h; rfl
      simp only [World.work, hfaults]
      exact (confines_undergo hc ticket _).reads _ _ ((h.withFaults _).record c)
    | sleeping due next =>
      have hnow : v.now = w.now := congrArg Clock.now h.clock
      simp only [World.work, hnow]
      by_cases hdue : due ≤ w.now
      · rw [if_pos hdue, if_pos hdue]
        exact (confines_undergo hc ticket next).reads w v h
      · rw [if_neg hdue, if_neg hdue]
        exact ⟨rfl, h⟩
    | stalled => exact ⟨rfl, h⟩
    | queued limit =>
      cases c with
      | lock name direct => exact (confines_await hc ticket direct limit).reads w v h
      | store c => exact ⟨rfl, h⟩
      | unlock token => exact ⟨rfl, h⟩
      | pause length => exact ⟨rfl, h⟩
  spares w := by
    cases p with
    | fresh =>
      have hrecord := World.Alike.record { w with faults := (w.faults.take c).2 } c
      have hkept : w.Spares r (({ w with faults := (w.faults.take c).2 } : World).record c) :=
        .of_eq hrecord.clock hrecord.store hrecord.locks hrecord.orphans
      exact hkept.trans ((confines_undergo hc ticket (w.faults.take c).1).spares _)
    | sleeping due next =>
      simp only [World.work]
      split
      · exact (confines_undergo hc ticket next).spares w
      · exact .refl w
    | stalled => exact .refl w
    | queued limit =>
      cases c with
      | lock name direct => exact (confines_await hc ticket direct limit).spares w
      | store c => exact .refl w
      | unlock token => exact .refl w
      | pause length => exact .refl w

theorem confines_abandon (hc : c.Inside r) (ticket : Nat) (p : Phase c) :
    r.Confines fun w => (w.abandon ticket c p, ()) where
  reads w v h := by
    refine ⟨rfl, ?_⟩
    unfold World.abandon
    split
    · cases h with
      | intro hs hls => exact .intro hs (hls.leave hc ticket)
    · exact h
  spares w := by
    unfold World.abandon
    split
    · exact .withLocks w hc fun other hother => (Locks.find_leave ..).trans (if_neg hother)
    · exact .refl w

theorem confines_attend (hc : c.Inside r) (ticket : Nat) (lapse : Tick) (g : Guard) (p : Phase c) :
    r.Confines fun w => w.attend ticket lapse g c p where
  reads w v h := by
    simp only [World.attend, h.before]
    cases hb : (w.before g : Option (g.Outcome c.Answer)) with
    | some o => exact ⟨rfl, ((confines_abandon hc ticket p).reads w v h).2⟩
    | none =>
      obtain ⟨hprogress, hsame⟩ := (confines_work hc ticket p).reads w v h
      simp only at hprogress hsame ⊢
      generalize w.work ticket c p = x at hprogress hsame
      generalize v.work ticket c p = y at hprogress hsame
      obtain ⟨w', progress⟩ := x
      obtain ⟨v', progress'⟩ := y
      obtain rfl : progress' = progress := hprogress
      cases progress' with
      | answered a => exact ⟨rfl, hsame⟩
      | crashed => exact ⟨rfl, hsame⟩
      | pending q =>
        simp only [World.SameIn.after hsame]
        cases (w'.after lapse g : Option (g.Outcome c.Answer)) with
        | some o => exact ⟨rfl, ((confines_abandon hc ticket q).reads w' v' hsame).2⟩
        | none => exact ⟨rfl, hsame⟩
  spares w := by
    have hwork := (confines_work hc ticket p).spares w
    simp only [World.attend]
    split
    · exact (confines_abandon hc ticket p).spares w
    · generalize w.work ticket c p = x at hwork
      obtain ⟨w', progress⟩ := x
      cases progress with
      | answered a => exact hwork
      | crashed => exact hwork
      | pending q =>
        simp only
        split
        · exact hwork.trans ((confines_abandon hc ticket q).spares w')
        · exact hwork

end Realm

def Realm.whole : Realm := ⟨fun _ => True, fun _ => True⟩

theorem Call.inside_whole (c : Call) : c.Inside .whole := by
  cases c <;> simp [Call.Inside, Realm.whole]

theorem World.clock_attend (w : World) (ticket : Nat) (lapse : Tick) (g : Guard) (c : Call)
    (p : Phase c) : (w.attend ticket lapse g c p).1.clock = w.clock :=
  ((Realm.confines_attend c.inside_whole ticket lapse g p).spares w).clock

theorem World.clock_abandon (w : World) (ticket : Nat) (c : Call) (p : Phase c) :
    (w.abandon ticket c p).clock = w.clock :=
  ((Realm.confines_abandon c.inside_whole ticket p).spares w).clock

end Registrar
