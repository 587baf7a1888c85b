import Registrar.Proofs.Context.Polled
import Registrar.Proofs.Server.Shutdown
import Registrar.Proofs.Service.Sparing
set_option autoImplicit false

namespace Registrar

namespace World

variable {w v u : World} {key : String} {ttl : Span} {c m n : Nat} {root : Context}
  {timeout : Span}

namespace Counts

theorem now (h : w.Counts key ttl c n v) : v.now = w.now := congrArg Clock.now h.clock

theorem trans (h : w.Counts key ttl c m v) (k : v.Counts key ttl (c + m) n u) :
    w.Counts key ttl c (m + n) u where
  clock := k.clock.trans h.clock
  ids := k.ids.trans h.ids
  healthy := k.healthy
  still := h.clock ▸ k.still
  fired := k.fired.trans h.fired
  made := Nat.le_trans h.made k.made
  others other hne := (k.others other hne).trans (h.others other hne)
  untouched hzero := by
    obtain ⟨hm, hn⟩ := Nat.add_eq_zero_iff.1 hzero
    exact (k.untouched hn).trans (h.untouched hm)
  entry hpos := by
    rcases Nat.eq_zero_or_pos n with hn | hn
    · subst hn
      rw [k.untouched rfl, h.entry hpos, Nat.add_zero]
    · rw [k.entry hn, h.now, Nat.add_assoc]

theorem find? (h : w.Counts key ttl c n v) (httl : 0 < ttl) (hpos : 0 < n) :
    v.store.find? v.now key =
      some ⟨String.ofList (Numeral.signed ((c + n : Nat) : Int)), some (w.now + ttl)⟩ := by
  have hlive : v.now < w.now + ttl := by
    rw [h.now]
    exact Nat.lt_add_of_pos_right httl
  simp [Store.find?, h.entry hpos, Option.filter, Entry.live, hlive]

theorem count? (h : w.Counts key ttl c n v) (httl : 0 < ttl)
    (hc : w.store.count? w.now key = some (c : Int)) (hmax : ((c + n : Nat) : Int) ≤ Numeral.maxInt64) :
    v.store.count? v.now key = some ((c + n : Nat) : Int) := by
  rcases Nat.eq_zero_or_pos n with hn | hn
  · subst hn
    rw [h.now, Store.count?_congr (Store.find?_congr (h.untouched rfl)), hc, Nat.add_zero]
  · rw [Store.count?, Store.counter_of_find? (h.find? httl hn), String.toList_ofList]
    refine Numeral.int64?_signed ?_ hmax
    have hmin : Numeral.minInt64 ≤ 0 := by decide
    omega

theorem of_child {ctx : Context} {signals : Signals}
    (hchild : root.child w.signals w.now timeout = some (ctx, signals))
    (h : ({ w with signals := signals } : World).Counts key ttl c n v) : w.Counts key ttl c n v := by
  obtain ⟨due, -, hctx⟩ := Option.map_eq_some_iff.1 hchild
  cases hctx
  exact ⟨h.clock, h.ids, h.healthy, h.still, h.fired, Nat.le_trans (Nat.le_succ _) h.made, h.others,
    h.untouched, h.entry⟩

end Counts

/-- A world in whose signals a root has its place, and in which no signal has fired that is still to
be made. -/
structure Rooted (root : Context) (w : World) : Prop where
  healthy : w.Healthy
  root : ∃ k, root = ⟨[k], none⟩ ∧ k < w.signals.made
  heard : ∀ k ∈ w.signals.fired, k < w.signals.made

namespace Rooted

theorem next (h : w.Rooted root) (hv : v.Healthy) (hfired : v.signals.fired = w.signals.fired)
    (hmade : w.signals.made ≤ v.signals.made) : v.Rooted root where
  healthy := hv
  root := by
    obtain ⟨k, hk, hlt⟩ := h.root
    exact ⟨k, hk, Nat.lt_of_lt_of_le hlt hmade⟩
  heard k hk := Nat.lt_of_lt_of_le (h.heard k (hfired ▸ hk)) hmade

theorem counts (h : w.Rooted root) (hv : w.Counts key ttl c n v) : v.Rooted root :=
  h.next hv.healthy hv.fired hv.made

theorem child_live (h : w.Rooted root) (hlive : root.isCancelled w.signals = false)
    (ht : 0 < timeout) (htime : (w.now.after? timeout).isSome = true) : ∃ ctx signals,
      root.child w.signals w.now timeout = some (ctx, signals) ∧
        ({ w with signals := signals } : World).Live ctx := by
  obtain ⟨due, hdue⟩ := Option.isSome_iff_exists.1 htime
  obtain ⟨k, rfl, -⟩ := h.root
  refine ⟨_, _, by rw [Context.child, hdue]; rfl, ?_⟩
  have hlater : ¬ due ≤ w.now := by
    rw [Tick.eq_of_after? hdue]
    exact Nat.not_le.2 (Nat.lt_add_of_pos_right ht)
  have hnew : w.signals.made ∉ w.signals.fired := fun hin =>
    absurd (h.heard _ hin) (Nat.lt_irrefl _)
  have hold : k ∉ w.signals.fired := by
    simpa [Context.isCancelled] using hlive
  refine Context.interruption?_eq_none_iff_clear.2 ⟨?_, ?_⟩
  · simp [Context.isCancelled, hnew, hold]
  · exact decide_eq_false hlater

end Rooted

end World

namespace Flow

variable {w : World} {root : Context} {timeout : Span} {a : Allocator} {day : Day} {c : Nat}

/-- A request for the next identifier of a day. -/
abbrev allocation (root : Context) (timeout : Span) (a : Allocator) (day : Day) :
    Flow (Except AllocError Identifier) := .request root timeout fun ctx => a.allocate ctx day

section

variable (hw : w.Rooted root) (hlive : root.isCancelled w.signals = false)
  (hstill : w.Still w.clock none) (ht : 0 < timeout)
  (htime : (w.now.after? timeout).isSome = true)
include hw hlive hstill ht htime

theorem request_counts {α : Type} {k : Context → Flow α} {Q : α → Prop} {key : String} {ttl : Span}
    {n : Nat}
    (hk : ∀ ctx (u : World), u.clock = w.clock → u.store = w.store → u.Healthy →
      u.Still u.clock none → u.Live ctx → ∃ v r, (k ctx).Yields u v r ∧ Q r ∧ u.Counts key ttl c n v) :
    ∃ v r, (request root timeout k).advance w = (v, .over (some r)) ∧ Q r ∧ w.Counts key ttl c n v := by
  obtain ⟨ctx, signals, hchild, hctx⟩ := hw.child_live hlive ht htime
  obtain ⟨v, r, hv, hr, hcounts⟩ := hk ctx { w with signals := signals } rfl rfl
    ⟨hw.healthy.faults, hw.healthy.available, hw.healthy.accepting⟩
    (hstill.counted w.minted w.tickets signals) hctx
  refine ⟨v, r, ?_, hr, .of_child hchild hcounts⟩
  rw [Flow.advance, hchild]
  exact hv

variable (hcount : w.store.count? w.now (a.counterKey day) = some (c : Int))
include hcount

theorem allocation_next (hsane : w.clock.Sane) (hg : a.grace ≤ Instant.max)
    (hmax : (c : Int) < Numeral.maxInt64) : ∃ v,
      (allocation root timeout a day).advance w = (v, .over (some (.ok ⟨day, c + 1⟩))) ∧
        w.Counts (a.counterKey day) (a.counterTtl w.clock day) c 1 v := by
  obtain ⟨v, r, hv, rfl, hcounts⟩ := request_counts (Q := (· = .ok ⟨day, c + 1⟩)) hw hlive hstill ht
    htime (k := fun ctx => a.allocate ctx day) fun ctx u hclock hstore hhealthy hfree hctx => by
      have hnow : u.now = w.now := congrArg Clock.now hclock
      obtain ⟨v, hv, hcounts⟩ := Allocator.yields_allocate hfree hhealthy hctx (hclock ▸ hsane) hg
        (by rw [hstore, hnow, hcount]) hmax
      exact ⟨v, _, hv, rfl, hclock ▸ hcounts⟩
  exact ⟨v, hv, hcounts⟩

theorem allocation_full (hmax : ¬ (c : Int) < Numeral.maxInt64) : ∃ v e,
    (allocation root timeout a day).advance w = (v, .over (some (.error e))) ∧
      w.Counts (a.counterKey day) (a.counterTtl w.clock day) c 0 v := by
  obtain ⟨v, r, hv, ⟨e, rfl⟩, hcounts⟩ := request_counts (Q := fun r => ∃ e, r = .error e) hw hlive
    hstill ht htime (k := fun ctx => a.allocate ctx day)
    fun ctx u hclock hstore hhealthy hfree hctx => by
      have hnow : u.now = w.now := congrArg Clock.now hclock
      obtain ⟨v, e, hv, hcounts⟩ := Allocator.yields_allocate_full hfree hhealthy hctx
        (by rw [hstore, hnow, hcount]) hmax
      exact ⟨v, _, hv, ⟨e, rfl⟩, hclock ▸ hcounts⟩
  exact ⟨v, e, hv, hcounts⟩

end

/-- The numbers that a batch is given, and what the requests beyond the last number come to. -/
def answers (day : Day) (c m : Nat) (errors : List AllocError) :
    List (Option (Except AllocError Identifier)) :=
  (List.range' (c + 1) m).map (fun n => some (.ok ⟨day, n⟩)) ++ errors.map fun e => some (.error e)

theorem straight_allocations (hw : w.Rooted root) (hlive : root.isCancelled w.signals = false)
    (hstill : w.Still w.clock none) (ht : 0 < timeout)
    (htime : (w.now.after? timeout).isSome = true) (hsane : w.clock.Sane)
    (hg : a.grace ≤ Instant.max) (hgrace : 0 < a.grace)
    (hcount : w.store.count? w.now (a.counterKey day) = some (c : Int)) (count : Nat) :
    ∃ m errors v, m + errors.length = count ∧ ((c + m : Nat) : Int) ≤ Numeral.maxInt64 ∧
      (m = count ∨ ((c + m : Nat) : Int) = Numeral.maxInt64) ∧
      Straight (List.replicate count (allocation root timeout a day)) w (answers day c m errors) v ∧
        w.Counts (a.counterKey day) (a.counterTtl w.clock day) c m v := by
  have hbound := (Store.count?_bounds hcount).2
  induction count generalizing w c with
  | zero =>
    exact ⟨0, [], w, rfl, hbound, .inl rfl, .nil w, rfl, rfl, hw.healthy, hstill, rfl, Nat.le_refl _,
      fun _ _ => rfl, fun _ => rfl, fun h => absurd h (Nat.lt_irrefl 0)⟩
  | succ count ih =>
    -- However the first request ends, the others go on from the number that it leaves behind.
    have rest : ∀ {n : Nat} {v : World}, ((c + n : Nat) : Int) ≤ Numeral.maxInt64 →
        w.Counts (a.counterKey day) (a.counterTtl w.clock day) c n v → ∃ m errors u,
          m + errors.length = count ∧ ((c + n + m : Nat) : Int) ≤ Numeral.maxInt64 ∧
          (m = count ∨ ((c + n + m : Nat) : Int) = Numeral.maxInt64) ∧
          Straight (List.replicate count (allocation root timeout a day)) v
            (answers day (c + n) m errors) u ∧
          v.Counts (a.counterKey day) (a.counterTtl w.clock day) (c + n) m u := by
      intro n v hmax hcounts
      have hnext := hcounts.count? (a.counterTtl_pos hgrace w.clock day) hcount hmax
      have hcancelled := (root.isCancelled_congr hcounts.fired).trans hlive
      rw [← hcounts.clock]
      exact ih (hw.counts hcounts) hcancelled (hcounts.clock ▸ hcounts.still)
        (hcounts.now ▸ htime) (hcounts.clock ▸ hsane) hnext (Store.count?_bounds hnext).2
    by_cases hmax : (c : Int) < Numeral.maxInt64
    · obtain ⟨v, hv, hcounts⟩ := allocation_next hw hlive hstill ht htime hcount hsane hg hmax
      obtain ⟨m, errors, u, hlength, hle, hm, hs, hu⟩ := rest (by omega) hcounts
      refine ⟨m + 1, errors, u, by omega, by omega, by omega, ?_, ?_⟩
      · rw [List.replicate_succ, answers, List.range'_succ]
        exact .cons hv hcounts.still.orphans hs
      · rw [Nat.add_comm m 1]
        exact hcounts.trans hu
    · obtain ⟨v, e, hv, hcounts⟩ := allocation_full hw hlive hstill ht htime hcount hmax
      obtain ⟨m, errors, u, hlength, hle, hm, hs, hu⟩ := rest hbound hcounts
      obtain rfl : m = 0 := by omega
      refine ⟨0, e :: errors, u, by simpa using hlength, hbound, by omega, .cons hv ?_ hs, ?_⟩
      · exact hcounts.still.orphans
      · exact hcounts.trans hu

end Flow

/-- The identifiers that follow a number of a day. -/
def Identifier.block (day : Day) (c n : Nat) : List Identifier :=
  (List.range' (c + 1) n).map fun k => ⟨day, k⟩

theorem Identifier.sort_block (day : Day) (c n : Nat) : sort (block day c n) = block day c n := by
  refine List.mergeSort_of_pairwise (List.pairwise_map.2 ?_)
  have hlt : (List.range' (c + 1) n).Pairwise (· < ·) := List.pairwise_lt_range'
  refine hlt.imp fun hlt => ?_
  simpa [le] using Nat.le_of_lt hlt

namespace Server

variable {set : Settings} {s : Server} {w : World} {day : Day} {c : Nat}

theorem gather_answers (day : Day) (c m : Nat) (errors : List AllocError) :
    gather ((Flow.answers day c m errors).map .over) =
      if errors = [] then some (Identifier.block day c m) else none := by
  induction m generalizing c with
  | zero =>
    cases errors with
    | nil => rfl
    | cons e errors => rfl
  | succ m ih =>
    have hcons : Flow.answers day c (m + 1) errors =
        some (.ok ⟨day, c + 1⟩) :: Flow.answers day (c + 1) m errors := by
      simp [Flow.answers, List.range'_succ]
    have hblock : Identifier.block day c (m + 1) = ⟨day, c + 1⟩ :: Identifier.block day (c + 1) m := by
      simp [Identifier.block, List.range'_succ]
    rw [hcons, hblock, List.map_cons]
    change (gather ((Flow.answers day (c + 1) m errors).map .over)).map _ = _
    rw [ih]
    split <;> rfl

theorem Ready.isCancelled_root (h : s.Ready set w) (hlive : s.isShutdown = false) :
    s.root.isCancelled w.signals = false := by
  rw [isShutdown, h.backend] at hlive
  exact hlive

theorem Ready.timeout_pos (h : s.Ready set w) (ht : 0 < set.timeout.toNat) : 0 < s.timeout := by
  rw [h.timeout]
  unfold Span.ofMillis
  lia

theorem Ready.grace_pos (h : s.Ready set w) : 0 < s.accounts.allocator.grace := by
  rw [h.grace]
  decide

/-- A batch takes the counter up by as many as were asked for, and gives the numbers in between; if
the counter cannot go that far it goes as far as it can, and nothing is given. -/
theorem allocateMany_counts (h : s.Ready set w) (hw : w.Rooted s.root)
    (hlive : s.isShutdown = false) (ht : 0 < set.timeout.toNat)
    (hcount : w.store.count? w.now (s.accounts.allocator.counterKey day) = some (c : Int))
    {count : Nat} (hfits : count < batchLimit) : ∃ m v,
      ((c + m : Nat) : Int) ≤ Numeral.maxInt64 ∧ m ≤ count ∧
      (m = count ∨ ((c + m : Nat) : Int) = Numeral.maxInt64) ∧
      w.Counts (s.accounts.allocator.counterKey day)
        (s.accounts.allocator.counterTtl w.clock day) c m v ∧
      s.allocateMany day count =
        (.finished (if m = count then .ok (Identifier.block day c count) else .error .internal),
          { s with backend := .memory v }) := by
  obtain ⟨m, errors, v, hlength, hle, hm, hs, hv⟩ := Flow.straight_allocations hw
    (h.isCancelled_root hlive) h.still (h.timeout_pos ht) h.isSome_after?_timeout h.sane h.grace_le
    h.grace_pos hcount count
  refine ⟨m, v, hle, by omega, hm, hv, ?_⟩
  have hrun : s.backend.run (List.replicate count (s.allocation day)) =
      ((Flow.answers day c m errors).map .over, .memory v) := by
    rw [h.backend]
    exact Backend.run_memory hs
  rw [allocateMany_eq s day hfits, hrun, gather_answers]
  have hall : errors = [] ↔ m = count := by
    rw [← List.length_eq_zero_iff]
    omega
  by_cases hmc : m = count
  · subst hmc
    simp only [hall.2 rfl, if_true, Identifier.sort_block]
  · have hsome : errors ≠ [] := fun he => hmc (hall.1 he)
    simp only [hsome, hmc, if_false]

end Server

end Registrar
