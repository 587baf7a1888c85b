import Registrar.Proofs.Crowd.Dealing
import Registrar.Proofs.Crowd.Confined
import Registrar.Proofs.Mint.GapFree
import Registrar.Proofs.Mint.Recurrence
/-!
Sequences do not meet. Counters of different stems or days have different keys; an allocation has to
do with its own counter and its own lock and with no other; and so a counter is what the calls for
its own stem and day have made of it, in whatever company. Main statement:
`Crowd.sequences_isolated`.
-/
set_option autoImplicit false

namespace Registrar

theorem Allocator.counterKey_eq_iff {a b : Allocator} {d e : Day} (hd : d.Common) (he : e.Common) :
    a.counterKey d = b.counterKey e ↔ a.stem = b.stem ∧ d = e := by
  refine ⟨fun h => ?_, fun ⟨hs, hde⟩ => by rw [counterKey, counterKey, hs, hde]⟩
  have hchars : a.stem.toList ++ d.stampChars = b.stem.toList ++ e.stampChars := by
    simpa [counterKey, Day.stamp] using congrArg String.toList h
  obtain ⟨hstem, -⟩ := List.append_inj' hchars (hd.length_stamp.trans he.length_stamp.symm)
  have hs : a.stem = b.stem := String.toList_inj.1 hstem
  exact ⟨hs, Allocator.counterKey_inj hs h⟩

namespace Allocator

variable (a : Allocator) (day : Day)

/-- The counter of a day and the lock. -/
def realm : Realm := .of (a.counterKey day) a.lockName

variable {a day} {token : LockToken}

theorem confined_finish (ht : token.name = a.lockName) (counted : Except AllocError Nat) :
    (a.finish day token counted).Confined (a.realm day) :=
  .call ht (fun h hh => by cases hh; exact ht) fun o _ => .done _

theorem confined_afterExpire (ht : token.name = a.lockName) (n : Int)
    (o : Except Interrupted (Except StoreError Bool)) :
    (a.afterExpire day token n o).Confined (a.realm day) := by
  unfold afterExpire
  split
  all_goals exact confined_finish ht _

theorem confined_afterIncr (ht : token.name = a.lockName) (ctx : Context)
    (o : Except Interrupted (Except StoreError Int)) :
    (a.afterIncr ctx day token o).Confined (a.realm day) := by
  unfold afterIncr
  split
  · exact confined_finish ht _
  · exact confined_finish ht _
  · refine .now fun clock => .call ?_ (fun h hh => by cases hh; exact ht) fun o _ =>
      confined_afterExpire ht _ o
    exact fun key hkey => List.mem_singleton.1 hkey

theorem confined_afterLock (ctx : Context) (o : Except Interrupted (Except LockError LockToken))
    (ho : (Guard.under ctx).Honest (.lock a.lockName false) o) :
    (a.afterLock ctx day o).Confined (a.realm day) := by
  unfold afterLock
  split
  · exact .done _
  · exact .done _
  · exact .call (fun key hkey => List.mem_singleton.1 hkey) (fun h hh => by cases hh; exact ho)
      fun o _ => confined_afterIncr ho ctx o

theorem confined_allocate (ctx : Context) : (a.allocate ctx day).Confined (a.realm day) :=
  .call rfl (fun _ hh => by cases hh) fun o ho => confined_afterLock ctx o ho

end Allocator

/-- What a call asks of a counter: to count up, or to be kept for so long. -/
inductive Stroke where
  | count
  | keep (ttl : Span)
  deriving DecidableEq, Repr

/-- What a stroke makes of the entry of a counter. A counter that is absent or dead counts from
nought, and is not kept. -/
def Stroke.after (e : Option Entry) (now : Tick) : Stroke → Option Entry
  | .count =>
    let live := (e.filter (Entry.live now)).getD ⟨"0", none⟩
    match Numeral.int64? live.value.toList with
    | none => e
    | some n =>
      if n < Numeral.maxInt64 then
        some { live with value := String.ofList (Numeral.signed (n + 1)) }
      else e
  | .keep ttl =>
    match e.filter (Entry.live now) with
    | none => e
    | some live => some { live with expiry := some (now + ttl) }

/-- The entry of a counter after strokes at these times, the last first. -/
def tally (e : Option Entry) : List (Tick × Stroke) → Option Entry
  | [] => e
  | (now, stroke) :: past => stroke.after (tally e past) now

theorem tally_append (e : Option Entry) (later earlier : List (Tick × Stroke)) :
    tally e (later ++ earlier) = tally (tally e earlier) later := by
  induction later with
  | nil => rfl
  | cons stroke later ih => exact congrArg (stroke.2.after · stroke.1) ih

def StoreCall.stroke? (key : String) : StoreCall → Option Stroke
  | .incr k => if k = key then some .count else none
  | .expire k ttl => if k = key then some (.keep ttl) else none
  | .set _ _ _ | .get _ | .del _ => none

def Store.took {α : Type} : Except StoreError α → Bool
  | .error (.unavailable _) => false
  | .error (.protocol _) | .ok _ => true

/-- The stroke that a served call was for the counter of a key, and when. -/
def ServedCall.stroke? (key : String) : ServedCall → Option (Tick × Stroke)
  | ⟨_, .store c, a, now⟩ => if Store.took a then (c.stroke? key).map (now, ·) else none
  | _ => none

/-- The strokes for the counter of a key, with their times, the last first. -/
def strokes (key : String) (log : List ServedCall) : List (Tick × Stroke) :=
  log.filterMap (·.stroke? key)

theorem strokes_cons (key : String) (d : ServedCall) (log : List ServedCall) :
    strokes key (d :: log) = (d.stroke? key).toList ++ strokes key log := by
  rw [strokes, List.filterMap_cons]
  cases d.stroke? key <;> rfl

def Call.Names (key : String) : Call → Prop
  | .store c => key ∈ c.keys
  | .lock _ _ | .unlock _ | .pause _ => False

theorem ServedCall.stroke?_eq_none {key : String} {d : ServedCall} (h : ¬ d.call.Names key) :
    d.stroke? key = none := by
  obtain ⟨who, c, a, now⟩ := d
  cases c with
  | store c =>
    have hc : c.stroke? key = none := by
      cases c with
      | incr k => exact if_neg fun hk : k = key => h (hk ▸ List.mem_cons_self)
      | expire k ttl => exact if_neg fun hk : k = key => h (hk ▸ List.mem_cons_self)
      | set | get | del => rfl
    simp [ServedCall.stroke?, hc]
  | lock | unlock | pause => rfl

namespace Store

variable {s t : Store} {now : Tick} {key : String}

theorem incr_tally (s : Store) (now : Tick) (key : String) :
    took (s.incr now key).1 = true ∧
      (s.incr now key).2.entries.get? key = Stroke.after (s.entries.get? key) now .count := by
  have hafter : Stroke.after (s.entries.get? key) now .count =
      match s.count? now key with
      | none => s.entries.get? key
      | some n =>
        if n < Numeral.maxInt64 then
          some { s.counter now key with value := String.ofList (Numeral.signed (n + 1)) }
        else s.entries.get? key := rfl
  rw [hafter, incr_eq]
  cases s.count? now key with
  | none => exact ⟨rfl, rfl⟩
  | some n =>
    simp only
    split
    · exact ⟨rfl, get?_put_self ..⟩
    · exact ⟨rfl, rfl⟩

theorem expire_tally {ttl : Span} {a : Bool} (h : s.expire now key ttl = some (a, t)) :
    t.entries.get? key = Stroke.after (s.entries.get? key) now (.keep ttl) := by
  have hafter : Stroke.after (s.entries.get? key) now (.keep ttl) =
      match s.find? now key with
      | none => s.entries.get? key
      | some e => some { e with expiry := some (now + ttl) } := rfl
  rw [hafter]
  unfold Store.expire at h
  cases he : s.find? now key with
  | none =>
    rw [he] at h
    cases h
    rfl
  | some e =>
    rw [he] at h
    obtain ⟨dies, hd, hput⟩ := Option.map_eq_some_iff.1 h
    cases hput
    rw [Tick.eq_of_after? hd]
    exact get?_put_self ..

/-- A call that an available store takes strikes the counter that it names, and no other call
changes it. -/
theorem perform_tally {c : StoreCall} {a : Except StoreError c.Answer}
    (h : s.perform now c = some (a, t))
    (hc : key ∈ c.keys → c = .incr key ∨ ∃ ttl, c = .expire key ttl) (who : Option Nat) :
    t.entries.get? key =
      tally (s.entries.get? key) ((ServedCall.mk who (.store c) a now).stroke? key).toList := by
  by_cases hkey : key ∈ c.keys
  · rcases hc hkey with rfl | ⟨ttl, rfl⟩
    · simp only [Store.perform] at h
      split at h
      · have hr : s.incr now key = (a, t) := Option.some.inj h
        obtain ⟨htook, htally⟩ := incr_tally s now key
        rw [hr] at htook htally
        have hd : (ServedCall.mk who (.store (.incr key)) a now).stroke? key = some (now, .count) := by
          simp only [ServedCall.stroke?, StoreCall.stroke?]
          exact (if_pos htook).trans rfl
        rw [hd]
        exact htally
      · cases h
        rfl
    · simp only [Store.perform] at h
      split at h
      · obtain ⟨r, hr, hx⟩ := Option.map_eq_some_iff.1 h
        cases hx
        simp [ServedCall.stroke?, StoreCall.stroke?, took, tally, expire_tally hr]
      · cases h
        rfl
  · have hd : (ServedCall.mk who (.store c) a now).stroke? key = none := ServedCall.stroke?_eq_none hkey
    rw [get?_perform_of_not_mem h hkey, hd]
    rfl

end Store

def Place.day? : Place → Option Day
  | .opening _ _ day | .queuing _ day | .counting _ day _ | .timing _ day _ _ | .renewing _ day _ _ _
  | .releasing day _ _ => some day
  | .reading _ | .ended _ | .lost => none

/-- An order that can be for a day: it names the day, or the local calendar has shown it by now. -/
def Order.CanBeFor (clock : Clock) (now : Tick) (day : Day) : Order → Prop
  | .on _ d | .request _ _ d => d = day
  | .today _ => ∃ r, r ≤ now ∧ ({ clock with now := r } : Clock).today? = some day

theorem Order.CanBeFor.mono {clock : Clock} {t u : Tick} {day : Day} {o : Order}
    (h : o.CanBeFor clock t day) (htu : t ≤ u) : o.CanBeFor clock u day := by
  cases o with
  | on ctx d => exact h
  | request root timeout d => exact h
  | today ctx =>
    obtain ⟨r, hr, hd⟩ := h
    exact ⟨r, Nat.le_trans hr htu, hd⟩

/-- A place that an allocation for such an order can have come to: its day is a common one that the
order can be for. -/
structure Order.Suits (clock : Clock) (now : Tick) (o : Order) (p : Place) : Prop where
  reading : ∀ ctx, p = .reading ctx → o.day? = none
  day : ∀ d, p.day? = some d → d.Common ∧ o.CanBeFor clock now d

theorem Order.Suits.mono {clock : Clock} {t u : Tick} {o : Order} {p : Place}
    (h : o.Suits clock t p) (htu : t ≤ u) : o.Suits clock u p :=
  ⟨h.reading, fun d hd => ⟨(h.day d hd).1, (h.day d hd).2.mono htu⟩⟩

theorem Order.suits_place {clock : Clock} {now : Tick} {o : Order}
    (h : ∀ day, o.day? = some day → day.Common) : o.Suits clock now o.place := by
  cases o with
  | on ctx d =>
    refine ⟨fun _ hp => (by cases hp), fun e he => ?_⟩
    cases he
    exact ⟨h d rfl, rfl⟩
  | request root timeout d =>
    refine ⟨fun _ hp => (by cases hp), fun e he => ?_⟩
    cases he
    exact ⟨h d rfl, rfl⟩
  | today ctx => exact ⟨fun _ _ => rfl, fun _ hd => by cases hd⟩

theorem Order.suits_lost (clock : Clock) (now : Tick) (o : Order) : o.Suits clock now .lost :=
  ⟨fun _ hp => (by cases hp), fun _ hd => by cases hd⟩

theorem Passage.suits {P : Answers} {a : Allocator} {i : Nat} {w : World} {L : Prop} {p q : Place}
    {d : Option ServedCall} {orphans : List Held} (hp : Passage P a i w L p d q orphans) {clock : Clock}
    {o : Order} (hclock : w.clock = { clock with now := w.now })
    (htoday : o.day? = none → ∀ day, w.clock.today? = some day → day.Common)
    (h : o.Suits clock w.now p) : o.Suits clock w.now q := by
  cases hp with
  | still => exact h
  | @read ctx day hd =>
    refine ⟨fun _ hq => (by cases hq), fun d' hd' => ?_⟩
    cases hd'
    have ho := h.reading ctx rfl
    refine ⟨htoday ho day hd, ?_⟩
    cases o with
    | on _ _ => cases ho
    | request _ _ _ => cases ho
    | today ctx => exact ⟨w.now, Nat.le_refl _, hclock ▸ hd⟩
  | _ => exact ⟨fun _ hq => (by cases hq), fun d' hd' => by first | exact h.day d' hd' | cases hd'⟩

def Trade.Role.order? : mint.Role → Option Order
  | .job (.allocate _ o) => some o
  | .job (.lock _) | .release _ => none

namespace Crowd

variable {P : Answers} {s : Crowd mint} {m : Move mint} {place place' : Nat → Place} {key : String}

/-- Allocations are for days of years with four digits, be they named or shown by the local
calendar, and nobody else names the key. -/
def Apart (key : String) (s : Crowd mint) : Move mint → Prop
  | .join (.allocate _ o) => ∀ day ∈ o.day?, day.Common
  | .look i => ∀ o ∈ s.role? i >>= Trade.Role.order?, o.day? = none →
      ∀ day ∈ s.world.clock.today?, day.Common
  | .store c => key ∉ c.keys
  | _ => True

instance (key : String) (s : Crowd mint) : (m : Move mint) → Decidable (s.Apart key m)
  | .join (.allocate _ o) => inferInstanceAs (Decidable (∀ day ∈ o.day?, day.Common))
  | .look i => inferInstanceAs (Decidable (∀ o ∈ s.role? i >>= Trade.Role.order?,
      o.day? = none → ∀ day ∈ s.world.clock.today?, day.Common))
  | .store c => inferInstanceAs (Decidable (key ∉ c.keys))
  | .join (.lock _) | .drop _ | .forsake _ | .adopt | .pass _ | .signal _ | .plan _
  | .switchStore _ _ | .switchLocks _ | .unlock _ => inferInstanceAs (Decidable True)

/-- A served call of one who was there to allocate for this stem and day. A renewal is for a time to live
that a reading of the clock told. -/
def MadeFor (a : Allocator) (day : Day) (clock : Clock) (s : Crowd mint) (d : ServedCall) : Prop :=
  ∃ i b o, d.who = some i ∧ s.role? i = some (.job (.allocate b o)) ∧ b.stem = a.stem ∧
    o.CanBeFor clock d.time day ∧
    (d.call = .store (.incr (a.counterKey day)) ∨
      ∃ r, r ≤ d.time ∧ d.call =
        .store (.expire (a.counterKey day) (b.counterTtl { clock with now := r } day)))

theorem MadeFor.act {a : Allocator} {day : Day} {clock : Clock} {d : ServedCall}
    (h : s.MadeFor a day clock d) (m : Move mint) : (s.act m).MadeFor a day clock d := by
  obtain ⟨i, b, o, hwho, hi, hrest⟩ := h
  exact ⟨i, b, o, hwho, (role?_of_act (by simp [hi])).trans hi, hrest⟩

/-- What holds of a counter among other sequences: it is what its own strokes have made of it. -/
structure Isolated (a : Allocator) (day : Day) (w : World) (s : Crowd mint)
    (place : Nat → Place) : Prop where
  clock_eq : s.world.clock = { w.clock with now := s.now }
  suited : ∀ i b o, s.role? i = some (.job (.allocate b o)) → o.Suits w.clock s.now (place i)
  timed : ∀ i b ctx d token n ttl, s.allocator? i = some b →
    place i = .renewing ctx d token n ttl →
      ∃ r, r ≤ s.now ∧ ttl = b.counterTtl { w.clock with now := r } d
  entry : s.world.store.entries.get? (a.counterKey day) =
    tally (w.store.entries.get? (a.counterKey day)) (strokes (a.counterKey day) s.log)
  made : ∀ d ∈ s.log, d.call.Names (a.counterKey day) → s.MadeFor a day w.clock d

namespace Isolated

variable {a : Allocator} {day : Day} {w : World}

theorem suited_act (hx : s.Isolated a day w place) (ho : s.Orderly P)
    (hP : ∀ length, P (.pause length) ()) (hm : s.Apart key m) (hon : s.Onward P m place place') :
    ∀ i b o, (s.act m).role? i = some (.job (.allocate b o)) →
      o.Suits w.clock (s.act m).now (place' i) := by
  intro i b o hi
  have hnow := act_now_le ho hP m
  rcases role?_act s m i with h | ⟨hnew, ⟨j, rfl, hj⟩ | ⟨h, -, -, hr⟩⟩
  · have hi' : s.role? i = some (.job (.allocate b o)) := h ▸ hi
    have hold := hx.suited i b o hi'
    have hb : s.allocator? i = some b := by simp [allocator?, hi', Trade.Role.allocator?]
    have hf := hon.fared i b hb
    generalize place i = p at hf hold
    generalize place' i = q at hf
    cases hf with
    | stayed => exact hold.mono hnow
    | dropped => exact o.suits_lost _ _
    | forsaken => exact o.suits_lost _ _
    | looked hl hpass _ =>
      subst hl
      have htoday := hm o (by simp [hi', Trade.Role.order?])
      exact (hpass.suits hx.clock_eq htoday hold).mono hnow
  · rw [hj] at hi
    cases hi
    have hb : (s.act (.join (.allocate b o))).allocator? i = some b := by
      simp [allocator?, hj, Trade.Role.allocator?]
    obtain ⟨o', ho', hplace⟩ := hon.begun i b hnew hb
    cases ho'
    exact hplace ▸ Order.suits_place hm
  · rw [hr] at hi
    cases hi

theorem made_look (hx : s.Isolated a day w place) (hday : day.Common) (hc : s.Course place)
    {i : Nat} {p : Party mint} (hi : s.parties[i]? = some p) {d : ServedCall}
    (hd : p.activity.servedCall i s.world = some d) (hnames : d.call.Names (a.counterKey day)) :
    s.MadeFor a day w.clock d := by
  obtain ⟨who, c, r, t⟩ := d
  obtain ⟨hwho, ht, g, held, k, hr⟩ := Activity.servedCall_eq_some hd
  cases c with
  | lock | unlock | pause => exact hnames.elim
  | store c =>
    obtain ⟨b, hb, hcall⟩ := hc.call_of_store hi hr
    obtain ⟨o, ho⟩ := role?_of_allocator hb
    have hsuits := (hx.suited i b o ho).day
    have htimed := hx.timed i b
    refine ⟨i, b, o, hwho, ho, ?_⟩
    generalize place i = at? at hcall hsuits htimed
    cases at? with
    | counting ctx d token =>
      cases hcall
      obtain ⟨hcommon, hfor⟩ := hsuits d rfl
      have hkey := List.mem_singleton.1 hnames
      obtain ⟨hstem, rfl⟩ := (Allocator.counterKey_eq_iff hday hcommon).1 hkey
      exact ⟨hstem.symm, ht ▸ hfor, .inl (by rw [hkey])⟩
    | renewing ctx d token n ttl =>
      cases hcall
      obtain ⟨hcommon, hfor⟩ := hsuits d rfl
      have hkey := List.mem_singleton.1 hnames
      obtain ⟨hstem, rfl⟩ := (Allocator.counterKey_eq_iff hday hcommon).1 hkey
      obtain ⟨r, hr, httl⟩ := htimed ctx day token n ttl hb rfl
      exact ⟨hstem.symm, ht ▸ hfor, .inr ⟨r, ht ▸ hr, by rw [hkey, httl]⟩⟩
    | reading | opening | queuing | timing | releasing | ended | lost => cases hcall

theorem made_did (hx : s.Isolated a day w place) (hday : day.Common) (hc : s.Course place)
    (hm : s.Apart (a.counterKey day) m) {d : ServedCall} (hd : s.did m = some d)
    (hnames : d.call.Names (a.counterKey day)) : s.MadeFor a day w.clock d := by
  rcases (did_eq_some hd).2 with ⟨i, p, rfl, hi, hserved⟩ | ⟨-, ⟨c, rfl, hcall⟩ | ⟨token, -, hcall⟩⟩
  · exact hx.made_look hday hc hi hserved hnames
  · rw [hcall] at hnames
    exact absurd hnames hm
  · rw [hcall] at hnames
    exact hnames.elim

theorem entry_act (hx : s.Isolated a day w place) (ho : s.Orderly P)
    (hP : ∀ length, P (.pause length) ()) (hday : day.Common) (hc : s.Course place)
    (hm : s.Apart (a.counterKey day) m) :
    (s.act m).world.store.entries.get? (a.counterKey day) =
      tally (w.store.entries.get? (a.counterKey day))
        (strokes (a.counterKey day) (s.act m).log) := by
  rw [act_log]
  rcases act_store ho hP m with ⟨hs, hd⟩ | ⟨who, c, r, t, hd, hp, ht⟩
  · have hnone : strokes (a.counterKey day) ((s.did m).toList ++ s.log) =
        strokes (a.counterKey day) s.log := by
      cases hdid : s.did m with
      | none => rfl
      | some d =>
        have hstroke : d.stroke? (a.counterKey day) = none := by
          refine ServedCall.stroke?_eq_none fun hnames => ?_
          obtain ⟨who, c, r, t⟩ := d
          cases c with
          | store c => exact hd _ hdid c rfl
          | lock | unlock | pause => exact hnames
        rw [Option.toList_some, List.singleton_append, strokes_cons, hstroke]
        rfl
    rw [hnone, hs, hx.entry]
  · have hcall : a.counterKey day ∈ c.keys →
        c = .incr (a.counterKey day) ∨ ∃ ttl, c = .expire (a.counterKey day) ttl := by
      intro hkey
      obtain ⟨i, b, o, -, -, -, -, hcall | ⟨r, -, hcall⟩⟩ := hx.made_did hday hc hm hd hkey
      · cases hcall
        exact .inl rfl
      · cases hcall
        exact .inr ⟨_, rfl⟩
    rw [hd, Option.toList_some, List.singleton_append, strokes_cons, tally_append, ht,
      Store.perform_tally hp hcall who, hx.entry]

theorem act (hx : s.Isolated a day w place) (ho : s.Orderly P)
    (hP : ∀ length, P (.pause length) ()) (hday : day.Common) (hc : s.Course place)
    (hm : s.Apart (a.counterKey day) m) (hon : s.Onward P m place place') :
    (s.act m).Isolated a day w place' where
  clock_eq := clock_eq_act hx.clock_eq ho hP m
  suited := hx.suited_act ho hP hm hon
  timed := reading_onward hx.clock_eq hx.timed ho hP hon
  entry := hx.entry_act ho hP hday hc hm
  made d hd hnames := by
    rw [act_log, List.mem_append, Option.mem_toList] at hd
    rcases hd with hd | hd
    · exact (hx.made_did hday hc hm hd hnames).act m
    · exact (hx.made d hd hnames).act m

end Isolated

theorem isolated_around (a : Allocator) (day : Day) (w : World) (place : Nat → Place) :
    (around w).Isolated a day w place where
  clock_eq := rfl
  suited _ _ _ hi := by cases hi
  timed _ _ _ _ _ _ _ hi := by cases hi
  entry := rfl
  made _ hd := by cases hd

/-- What the calls for a counter have made of it, whatever else was allocated, and by whom these
calls were made. -/
theorem isolated_play {w : World} (hw : w.Calm) (a : Allocator) {day : Day} (hday : day.Common)
    {moves : List (Move mint)} (h : (around w).Lawful (Apart (a.counterKey day)) moves) :
    ∃ place, ((around w).play moves).Isolated a day w place := by
  obtain ⟨-, place, -, hx⟩ := Lawful.course (P := anything) (C := Apart (a.counterKey day))
    (I := fun s place => s.Isolated a day w place) (fun _ => trivial)
    (fun _ fs _ => within_anything fs)
    (fun s m place place' ho hc hm hon hx => hx.act ho (fun _ => trivial) hday hc hm hon) hw
    (within_anything _) (isolated_around a day w _) h
  exact ⟨place, hx⟩

/-- Counters of different stems or days have different keys. Whatever becomes of an allocation, and
of the release of a lock that it leaves behind, it has to do with its own counter and its own lock
only. So among other sequences each counter is what its own strokes have made of it, and all of them
were made by those who allocate for its stem and day. -/
theorem sequences_isolated :
    (∀ (a b : Allocator) (d e : Day), d.Common → e.Common →
      (a.counterKey d = b.counterKey e ↔ a.stem = b.stem ∧ d = e)) ∧
    (∀ (a : Allocator) (ctx : Context) (day : Day) act,
      Activity.Comes (a.allocate ctx day) act → act.KeepsTo (a.realm day)) ∧
    (∀ (h : Held) act, Activity.Comes (.release h) act → act.KeepsTo (.lock h.token.name)) ∧
    ∀ (w : World), w.Calm → ∀ (a : Allocator) (day : Day), day.Common → ∀ moves : List (Move mint),
      (around w).Lawful (Apart (a.counterKey day)) moves → ∀ s, s = (around w).play moves →
        s.world.store.entries.get? (a.counterKey day) =
            tally (w.store.entries.get? (a.counterKey day)) (strokes (a.counterKey day) s.log) ∧
          ∀ d ∈ s.log, d.call.Names (a.counterKey day) → s.MadeFor a day w.clock d := by
  refine ⟨fun a b d e hd he => Allocator.counterKey_eq_iff hd he,
    fun a ctx day act hact => hact.keepsTo (a.confined_allocate ctx),
    fun h act hact => hact.keepsTo (Flow.confined_release h), ?_⟩
  rintro w hw a day hday moves h s rfl
  obtain ⟨place, hx⟩ := isolated_play hw a hday h
  exact ⟨hx.entry, hx.made⟩

/-- The same, for users of another kind. -/
def guests : Allocator := { Allocator.standard with stem := "user2" }

/-- Two sequences under one lock. The first is dropped when it has counted; the second comes to the
lock in its turn, in the next second. -/
def besides : List (Move mint) :=
  [.join .newYear, .join (.allocate guests (.today ⟨[], none⟩))] ++
    [0, 1, 0, 1, 1, 0, 0, 0, 0].map .look ++ [.drop 0, .adopt, .pass (.ofSecs 1)] ++
    [2, 2, 1, 1, 1, 1, 1, 1].map .look

theorem sequences_isolated_besides :
    ((around .newYear).play besides).world.store.entries.get? (guests.counterKey .newYear) =
      tally none [(Span.ofSecs 1, .keep (.ofSecs 86399)), (Span.ofSecs 1, .count)] := by
  have h := sequences_isolated.2.2.2 .newYear World.newYear_calm guests .newYear (by decide) besides
    (by decide +kernel) _ rfl
  have hstrokes : strokes (guests.counterKey .newYear) ((around .newYear).play besides).log =
      [(Span.ofSecs 1, .keep (.ofSecs 86399)), (Span.ofSecs 1, .count)] := by decide +kernel
  exact hstrokes ▸ h.1

end Crowd

end Registrar
