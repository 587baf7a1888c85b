import Registrar.Proofs.Mint.Recurrence
import Registrar.Proofs.Service
import Registrar.Proofs.Service.Barred
set_option autoImplicit false

namespace Registrar

namespace Store

variable {s : Store} {now : Tick} {key : String}

theorem incr_of_lt {v : Int} (h : s.count? now key = some v) (hmax : v < Numeral.maxInt64) :
    s.incr now key = (.ok (v + 1), s.put key { s.counter now key with
      value := String.ofList (Numeral.signed (v + 1)) }) := by
  rw [incr_eq, h]
  exact if_pos hmax

theorem incr_of_not_lt {v : Int} (h : s.count? now key = some v) (hmax : ¬ v < Numeral.maxInt64) :
    s.incr now key = (.error (.protocol ("increment of " ++ key ++ " would overflow")), s) := by
  rw [incr_eq, h]
  exact if_neg hmax

theorem expire_of_live {e : Entry} (h : s.find? now key = some e) {ttl : Span}
    (ht : (now.after? ttl).isSome = true) :
    s.expire now key ttl = some (true, s.put key { e with expiry := some (now + ttl) }) := by
  obtain ⟨dies, hdies⟩ := Option.isSome_iff_exists.1 ht
  simp only [expire, h, hdies, Option.map_some, Tick.eq_of_after? hdies]

theorem perform_switches {t : Store} {c : StoreCall} {a : Except StoreError c.Answer}
    (h : s.perform now c = some (a, t)) :
    t.available = s.available ∧ t.accepting = s.accepting := by
  have hdel : ∀ (s : Store) (keys : List String), (s.del now keys).2.available = s.available ∧
      (s.del now keys).2.accepting = s.accepting := by
    intro s keys
    induction keys generalizing s with
    | nil => exact ⟨rfl, rfl⟩
    | cons key keys ih => exact ih (s.drop key)
  cases c with
  | set other value ttl =>
    simp only [perform, set] at h
    split at h
    · split at h
      · obtain ⟨x, hx, hr⟩ := Option.map_eq_some_iff.1 h
        obtain ⟨dies, -, rfl⟩ := Option.map_eq_some_iff.1 hx
        cases hr
        exact ⟨rfl, rfl⟩
      · cases h
        exact ⟨rfl, rfl⟩
    · cases h
      exact ⟨rfl, rfl⟩
  | get other =>
    simp only [perform, get] at h
    split at h
    · cases h
      split
      · exact ⟨rfl, rfl⟩
      · split <;> exact ⟨rfl, rfl⟩
    · cases h
      exact ⟨rfl, rfl⟩
  | del keys =>
    simp only [perform] at h
    split at h
    · cases h
      exact hdel s keys
    · cases h
      exact ⟨rfl, rfl⟩
  | incr other =>
    simp only [perform] at h
    split at h
    · have ht : (s.incr now other).2 = t := congrArg Prod.snd (Option.some.inj h)
      subst ht
      simp only [incr]
      split
      · exact ⟨rfl, rfl⟩
      · split <;> exact ⟨rfl, rfl⟩
    · cases h
      exact ⟨rfl, rfl⟩
  | expire other ttl =>
    simp only [perform, expire] at h
    split at h
    · obtain ⟨x, hx, hr⟩ := Option.map_eq_some_iff.1 h
      cases hr
      split at hx
      · cases hx
        exact ⟨rfl, rfl⟩
      · obtain ⟨dies, -, rfl⟩ := Option.map_eq_some_iff.1 hx
        exact ⟨rfl, rfl⟩
    · cases h
      exact ⟨rfl, rfl⟩

end Store

namespace Flow

variable {α : Type} {w : World} {c : Clock} {held : Option LockToken} {h : Option Held}
  {ctx : Context}

theorem advance_store_live (hstill : w.Still c held) (hw : w.Healthy) (hl : w.Live ctx)
    {call : StoreCall} {a : Except StoreError call.Answer} {s : Store}
    (hp : w.store.perform w.now call = some (a, s))
    (k : Except Interrupted (Except StoreError call.Answer) → Flow α) :
    (Flow.call (.under ctx) (.store call) h k).advance w = (k (.ok a)).advance (w.stored call s) ∧
      (w.stored call s).Still c held ∧ w.Serves (w.stored call s) 0 := by
  obtain ⟨havailable, haccepting⟩ := Store.perform_switches hp
  have hattend : ({ w with tickets := w.tickets + 1 } : World).attend w.tickets
      (w.lapse (.under ctx)) (.under ctx) (.store call) .fresh =
        (w.stored call s, .concluded (.ok a)) :=
    World.attend_store (w := { w with tickets := w.tickets + 1 }) hw.faults hl w.tickets
      (w.lapse (.under ctx)) hp
  exact ⟨advance_concluded hattend,
    ⟨hstill.clock, hstill.faults, hstill.orphans, hstill.available, hstill.locks⟩,
    .stored call havailable haccepting⟩

end Flow

namespace World

variable {w : World}

/-- How the world stands after a counter has been taken up so many times, from this number on: its
entry says so, lives this long from now, and nothing else has come about. -/
structure Counts (key : String) (ttl : Span) (c n : Nat) (w v : World) : Prop where
  clock : v.clock = w.clock
  ids : v.ids = w.ids
  healthy : v.Healthy
  still : v.Still w.clock none
  fired : v.signals.fired = w.signals.fired
  made : w.signals.made ≤ v.signals.made
  others : ∀ other, other ≠ key → v.store.entries.get? other = w.store.entries.get? other
  untouched : n = 0 → v.store.entries.get? key = w.store.entries.get? key
  entry : 0 < n → v.store.entries.get? key =
    some ⟨String.ofList (Numeral.signed ((c + n : Nat) : Int)), some (w.now + ttl)⟩

end World

namespace Allocator

variable {a : Allocator} {w : World} {c : Clock} {ctx : Context} {day : Day} {n : Nat}

theorem yields_finish {token : LockToken} (hw : w.Still c (some token)) (day : Day)
    (counted : Except AllocError Nat) : ∃ v, (a.finish day token counted).Yields w v
      (settle day counted none) ∧ v.Still c none ∧ w.Serves v 0 ∧ v.store = w.store := by
  obtain ⟨v, hv, hstill, hserves, hstore⟩ :=
    (hw.counted w.minted (w.tickets + 1) w.signals).attend_unlock_held w.tickets
      (w.lapse (.within a.releaseLimit)) a.releaseLimit
  exact ⟨v, Flow.advance_concluded hv, hstill, (World.Serves.counted w (w.tickets + 1)).trans hserves,
    hstore⟩

theorem advance_allocate (hstill : w.Still c none) (hw : w.Healthy) (hl : w.Live ctx)
    (a : Allocator) (day : Day) {r : Except StoreError Int} {s : Store}
    (hp : w.store.incr w.now (a.counterKey day) = (r, s)) : ∃ v token,
      (a.allocate ctx day).advance w = (a.afterIncr ctx day token (.ok r)).advance v ∧
        v.Still c (some token) ∧ w.Serves v 0 ∧ v.store = s := by
  have hcounted := World.Serves.counted w (w.tickets + 1)
  obtain ⟨u, token, hu, hgranted, hserves, hstore⟩ :=
    (hstill.counted w.minted (w.tickets + 1) w.signals).attend_lock_live
      (hl.serves hcounted) w.tickets (w.lapse (.under ctx)) a.lockName
  have hu0 : w.Serves u 0 := hcounted.trans hserves
  have hcall : u.store.perform u.now (.incr (a.counterKey day)) = some (r, s) := by
    have hstored : u.store = w.store := hstore
    simp only [Store.perform]
    rw [hstored, hw.available, if_pos rfl, hu0.now, hp]
    rfl
  obtain ⟨hadvance, hv, hserved⟩ := Flow.advance_store_live hgranted (hw.serves hu0)
    (hl.serves hu0) hcall (h := some (a.held token)) (a.afterIncr ctx day token)
  exact ⟨_, token, (Flow.advance_concluded hu).trans hadvance, hv, hu0.trans hserved, rfl⟩

theorem yields_allocate (hstill : w.Still w.clock none) (hw : w.Healthy) (hl : w.Live ctx)
    (hc : w.clock.Sane) (hg : a.grace ≤ Instant.max)
    (hcount : w.store.count? w.now (a.counterKey day) = some (n : Int))
    (hmax : (n : Int) < Numeral.maxInt64) : ∃ v,
      (a.allocate ctx day).Yields w v (.ok ⟨day, n + 1⟩) ∧
        w.Counts (a.counterKey day) (a.counterTtl w.clock day) n 1 v := by
  have hincr := Store.incr_of_lt hcount hmax
  generalize he : (({ w.store.counter w.now (a.counterKey day) with
    value := String.ofList (Numeral.signed ((n : Int) + 1)) } : Entry)) = e at hincr
  have hlive : e.live w.now = true := he ▸ w.store.counter_live w.now (a.counterKey day)
  obtain ⟨u, token, hu, hheld, hu0, hstore⟩ := advance_allocate hstill hw hl a day hincr
  have hclock : u.clock = w.clock := hu0.clock
  have hfind : u.store.find? u.now (a.counterKey day) = some e := by
    rw [hstore, hu0.now, Store.find?_put, if_pos rfl]
    simp [Option.filter, hlive]
  have hexpire : u.store.perform u.now
      (.expire (a.counterKey day) (a.counterTtl u.clock day)) = some (.ok true,
        u.store.put (a.counterKey day)
          { e with expiry := some (u.now + a.counterTtl u.clock day) }) := by
    have httl := hc.isSome_after?_of_le (hc.counterTtl_le hg day)
    rw [← hclock] at httl
    simp only [Store.perform, (hw.serves hu0).available, if_true,
      Store.expire_of_live hfind httl, Option.map_some]
  obtain ⟨hadvance, hv, hserved⟩ := Flow.advance_store_live hheld (hw.serves hu0) (hl.serves hu0)
    hexpire (h := some (a.held token)) (a.afterExpire day token ((n : Int) + 1))
  have hv0 := hu0.trans hserved
  obtain ⟨x, hx, hfree, hserves, hstored⟩ := a.yields_finish hv day (.ok (n + 1))
  have hx0 := hv0.trans hserves
  have hentries : x.store = (w.store.put (a.counterKey day) e).put (a.counterKey day)
      { e with expiry := some (w.now + a.counterTtl w.clock day) } := by
    rw [hstored, ← hclock, ← hu0.now, ← hstore]
    rfl
  refine ⟨x, ?_, hx0.clock, hx0.ids, hw.serves hx0, hfree, congrArg Signals.fired hx0.signals,
    Nat.le_of_eq (congrArg Signals.made hx0.signals.symm), fun other hother => ?_,
    fun hzero => absurd hzero (by decide), fun _ => ?_⟩
  · have hnumber : a.afterExpire day token ((n : Int) + 1) (.ok (.ok true)) =
        a.finish day token (.ok (n + 1)) := by
      have hpos : ¬ (n : Int) + 1 < 0 := by omega
      simp only [afterExpire, if_neg hpos]
      rfl
    rw [Flow.Yields, hu]
    refine Eq.trans ?_ hx
    rw [← hnumber]
    exact hadvance
  · rw [hentries, Store.get?_put_of_ne _ _ hother, Store.get?_put_of_ne _ _ hother]
  · rw [hentries, Store.get?_put_self, ← he]
    rfl

theorem yields_allocate_full (hstill : w.Still w.clock none) (hw : w.Healthy) (hl : w.Live ctx)
    (hcount : w.store.count? w.now (a.counterKey day) = some (n : Int))
    (hmax : ¬ (n : Int) < Numeral.maxInt64) : ∃ v e,
      (a.allocate ctx day).Yields w v (.error e) ∧
        w.Counts (a.counterKey day) (a.counterTtl w.clock day) n 0 v := by
  obtain ⟨u, token, hu, hheld, hu0, hstore⟩ :=
    advance_allocate hstill hw hl a day (Store.incr_of_not_lt hcount hmax)
  obtain ⟨x, hx, hfree, hserves, hstored⟩ := a.yields_finish hheld day
    (.error (.storeUnavailable (.protocol ("increment of " ++ a.counterKey day ++ " would overflow"))))
  have hx0 := hu0.trans hserves
  have hentries : x.store = w.store := hstored.trans hstore
  exact ⟨x, _, hu.trans hx, hx0.clock, hx0.ids, hw.serves hx0, hfree,
    congrArg Signals.fired hx0.signals, Nat.le_of_eq (congrArg Signals.made hx0.signals.symm),
    fun _ _ => by rw [hentries], fun _ => by rw [hentries], fun h => absurd h (by decide)⟩

end Allocator

end Registrar
