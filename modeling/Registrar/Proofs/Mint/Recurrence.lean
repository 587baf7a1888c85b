import Mathlib.Data.List.Pairwise
import Registrar.Proofs.Mint.Numbers
/-!
When identifiers recur. A counter that has expired starts again from nought, so an allocation for a
day whose counter is gone can be given an identifier that was issued before; this can happen, and it
happens in no other way.
-/
set_option autoImplicit false

namespace Registrar

theorem StoreCall.mem_writes_of_renewed {c : StoreCall} {a : Except StoreError c.Answer}
    {key : String} {ttl : Span} (h : c.renewed? a = some (key, ttl)) : key ∈ c.writes := by
  cases c with
  | expire k t =>
    rcases a with e | _ | _ <;> cases h
    exact List.mem_singleton_self _
  | _ => cases h

theorem StoreCall.expire_of_renewed {k key : String} {t ttl : Span}
    {a : Except StoreError (StoreCall.expire k t).Answer}
    (h : (StoreCall.expire k t).renewed? a = some (key, ttl)) : k = key ∧ t = ttl := by
  rcases a with e | _ | _ <;> cases h
  exact ⟨rfl, rfl⟩

def Call.renewed? : (c : Call) → c.Answer → Option (String × Span)
  | .store c, a => c.renewed? a
  | _, _ => none

def ServedCall.renewed? (d : ServedCall) : Option (String × Span) := d.call.renewed? d.answer

theorem Allocator.counterTtl_pos {a : Allocator} (h : 0 < a.grace) (clock : Clock) (day : Day) :
    0 < a.counterTtl clock day := by
  unfold counterTtl
  split
  · split
    · rename_i hlt
      exact Int.lt_toNat.2 (Int.sub_pos_of_lt hlt)
    · exact h
  · exact h

theorem le_of_wait {origin moment : Int} {reading t : Nat} (h : reading ≤ t)
    (hlt : origin + reading < moment) :
    moment ≤ origin + ((t + (moment - (origin + reading)).toNat : Nat) : Int) := by
  omega

theorem le_of_late {origin moment : Int} {reading t ttl : Nat} (h : reading ≤ t)
    (hlt : ¬ origin + reading < moment) : moment ≤ origin + ((t + ttl : Nat) : Int) := by
  omega

theorem ServedCall.renewed?_of_not_store {d : ServedCall} (h : ∀ c, d.call ≠ .store c) :
    d.renewed? = none := by
  obtain ⟨who, c, answer, time⟩ := d
  cases c with
  | store c => exact absurd rfl (h c)
  | _ => rfl

theorem Passage.reading {P : Answers} {a : Allocator} {i : Nat} {w : World} {L : Prop} {p : Place}
    {d : Option ServedCall} {orphans : List Held} {ctx : Context}
    {day : Day} {token : LockToken} {n : Int}
    {ttl : Span} (hp : Passage P a i w L p d (.renewing ctx day token n ttl) orphans) :
    p = .renewing ctx day token n ttl ∨ ttl = a.counterTtl w.clock day := by
  cases hp with
  | still => exact .inl rfl
  | timed => exact .inr rfl

namespace Crowd

variable {s : Crowd mint} {m : Move mint} {place place' : Nat → Place}

/-- Where the counters are left to allocators that have one stem, and keep the counters of past days
for a while. -/
def Undisturbed (a : Allocator) : Move mint → Prop
  | .join (.allocate b _) => b.stem = a.stem ∧ 0 < b.grace
  | .store c => ∀ day, a.counterKey day ∉ c.writes
  | .plan fs => fs.Within countless
  | _ => True

/-- An allocator of the crowd renewed the counter of a day, for the time that an earlier reading of
the clock had told. -/
def Renewal (s : Crowd mint) (clock : Clock) (a : Allocator) (day : Day) (d : ServedCall)
    (ttl : Span) : Prop :=
  d.renewed? = some (a.counterKey day, ttl) ∧ ∃ i b reading, d.who = some i ∧
    s.allocator? i = some b ∧ b.stem = a.stem ∧ reading ≤ d.time ∧
      ttl = b.counterTtl { clock with now := reading } day

/-- The counter of a day expires at this moment: an allocator renewed it until then, and it was not
renewed again before. -/
def Due (s : Crowd mint) (clock : Clock) (a : Allocator) (day : Day) (x : Tick) : Prop :=
  ∃ later d earlier ttl, s.log = later ++ d :: earlier ∧ s.Renewal clock a day d ttl ∧
    x = d.time + ttl ∧
      ∀ e ∈ later, ∀ ttl', e.renewed? = some (a.counterKey day, ttl') → x ≤ e.time

/-- The counter of a day expired after one moment, and not after another. -/
def Expired (s : Crowd mint) (clock : Clock) (a : Allocator) (day : Day) (t u : Tick) : Prop :=
  ∃ x, s.Due clock a day x ∧ t < x ∧ x ≤ u

variable {clock : Clock} {a : Allocator} {day : Day} {t u v : Tick}

theorem Renewal.act {d : ServedCall} {ttl : Span} (h : s.Renewal clock a day d ttl) :
    (s.act m).Renewal clock a day d ttl := by
  obtain ⟨hren, i, b, reading, hwho, hb, h⟩ := h
  exact ⟨hren, i, b, reading, hwho, allocator?_of_act hb, h⟩

theorem Due.act {x : Tick} (h : s.Due clock a day x)
    (hnew : ∀ d ∈ s.did m, ∀ ttl, d.renewed? = some (a.counterKey day, ttl) → x ≤ d.time) :
    (s.act m).Due clock a day x := by
  obtain ⟨later, d, earlier, ttl, hlog, hren, hx, hlater⟩ := h
  refine ⟨(s.did m).toList ++ later, d, earlier, ttl, ?_, hren.act, hx, fun e he => ?_⟩
  · rw [act_log, hlog, List.append_assoc]
  · rcases List.mem_append.1 he with he | he
    · exact hnew e (Option.mem_toList.1 he)
    · exact hlater e he

theorem Expired.act (h : s.Expired clock a day t u) (hu : u ≤ s.now) (huv : u ≤ v) :
    (s.act m).Expired clock a day t v := by
  obtain ⟨x, hx, htx, hxu⟩ := h
  refine ⟨x, hx.act fun d hd _ _ => ?_, htx, Nat.le_trans hxu huv⟩
  rw [(did_eq_some hd).1]
  exact Nat.le_trans hxu hu

theorem Due.ended {x : Tick} (h : s.Due clock a day x) {midnight : Instant}
    (hmid : (day.succ? >>= clock.zone.midnight?) = some midnight) : midnight ≤ clock.origin + x := by
  obtain ⟨-, d, -, ttl, -, ⟨-, i, b, reading, -, -, -, hle, rfl⟩, rfl, -⟩ := h
  unfold Allocator.counterTtl
  simp only [hmid]
  split
  · rename_i hlt
    exact le_of_wait hle hlt
  · rename_i hlt
    exact le_of_late hle hlt

theorem Expired.ended {now : Tick} (h : s.Expired clock a day t u) (hu : u ≤ now)
    {midnight : Instant} (hmid : (day.succ? >>= clock.zone.midnight?) = some midnight) :
    midnight ≤ ({ clock with now := now } : Clock).wall := by
  obtain ⟨x, hx, -, hxu⟩ := h
  have hnow : clock.origin + (x : Int) ≤ clock.origin + (now : Int) :=
    Int.add_le_add_left (Int.ofNat_le.2 (Nat.le_trans hxu hu)) _
  exact Int.le_trans (hx.ended hmid) hnow

/-- What has become of a number that was counted at some time: the counter is not below it and was
not to expire before, or it has expired since. -/
def Past (clock : Clock) (a : Allocator) (day : Day) (s : Crowd mint) (t : Tick) (n : Int) : Prop :=
  (∃ e v, s.world.store.entries.get? (a.counterKey day) = some e ∧
      Numeral.int64? e.value.toList = some v ∧
    n ≤ v ∧ ∀ x, e.expiry = some x → t < x) ∨ s.Expired clock a day t s.now

/-- What the counts of a day come to: its counter expires between two counts of one number. -/
structure Recurring (clock : Clock) (a : Allocator) (day : Day) (s : Crowd mint)
    (place : Nat → Place) : Prop where
  clock_eq : s.world.clock = { clock with now := s.now }
  patient : ∀ i b, s.allocator? i = some b → b.stem = a.stem ∧ 0 < b.grace
  reading : ∀ i b ctx d token n ttl, s.allocator? i = some b →
    place i = .renewing ctx d token n ttl →
      ∃ r, r ≤ s.now ∧ ttl = b.counterTtl { clock with now := r } d
  due : ∀ e x, s.world.store.entries.get? (a.counterKey day) = some e → e.expiry = some x →
    s.Due clock a day x
  past : ∀ d ∈ s.log, ∀ n, d.counted? = some (a.counterKey day, n) →
    d.time ≤ s.now ∧ s.Past clock a day d.time n
  apart : s.log.Pairwise fun later earlier => ∀ n, later.counted? = some (a.counterKey day, n) →
    earlier.counted? = some (a.counterKey day, n) →
      s.Expired clock a day earlier.time later.time

theorem clock_eq_act {P : Answers} (hclock : s.world.clock = { clock with now := s.now })
    (ho : s.Orderly P) (hP : ∀ length, P (.pause length) ()) (m : Move mint) :
    (s.act m).world.clock = { clock with now := (s.act m).now } := by
  rcases act_clock ho hP m with h | ⟨length, -, h⟩
  · have hnow : (s.act m).now = s.now := congrArg Clock.now h
    rw [h, hnow]
    exact hclock
  · have hnow : (s.act m).now = s.now + length := congrArg Clock.now h
    rw [h, hnow, hclock]

theorem reading_onward {P : Answers} (hclock : s.world.clock = { clock with now := s.now })
    (hold : ∀ i b ctx d token n ttl, s.allocator? i = some b →
      place i = .renewing ctx d token n ttl →
        ∃ r, r ≤ s.now ∧ ttl = b.counterTtl { clock with now := r } d)
    (ho : s.Orderly P) (hP : ∀ length, P (.pause length) ()) (hon : s.Onward P m place place') :
    ∀ i b ctx d token n ttl, (s.act m).allocator? i = some b →
      place' i = .renewing ctx d token n ttl →
        ∃ r, r ≤ (s.act m).now ∧ ttl = b.counterTtl { clock with now := r } d := by
  intro i b ctx d token n ttl hb hp
  have hnow := act_now_le ho hP m
  rcases hon.of_act hb with ⟨hb, hf⟩ | ⟨o, ho⟩
  · have hkept : place i = .renewing ctx d token n ttl →
        ∃ r, r ≤ (s.act m).now ∧ ttl = b.counterTtl { clock with now := r } d := by
      intro hi
      obtain ⟨r, hr, httl⟩ := hold i b ctx d token n ttl hb hi
      exact ⟨r, Nat.le_trans hr hnow, httl⟩
    rw [hp] at hf
    generalize place i = p at hf hkept
    cases hf with
    | stayed => exact hkept rfl
    | looked hm hpass _ =>
      rcases hpass.reading with hp | httl
      · exact hkept hp
      · exact ⟨s.now, hnow, hclock ▸ httl⟩
  · rw [hp] at ho
    cases o <;> cases ho

namespace Recurring

theorem clock_act (hr : s.Recurring clock a day place) (ho : s.Orderly countless) :
    (s.act m).world.clock = { clock with now := (s.act m).now } :=
  clock_eq_act hr.clock_eq ho (fun _ => rfl) m

theorem patient_act (hr : s.Recurring clock a day place) (hm : Undisturbed a m) :
    ∀ i b, (s.act m).allocator? i = some b → b.stem = a.stem ∧ 0 < b.grace := by
  intro i b hb
  rcases allocator?_act s m i with h | ⟨-, h⟩
  · exact hr.patient i b (h ▸ hb)
  · obtain ⟨o, rfl⟩ := h b hb
    exact hm

theorem reading_act (hr : s.Recurring clock a day place) (ho : s.Orderly countless)
    (hon : s.Onward countless m place place') :
    ∀ i b ctx d token n ttl, (s.act m).allocator? i = some b →
      place' i = .renewing ctx d token n ttl →
        ∃ r, r ≤ (s.act m).now ∧ ttl = b.counterTtl { clock with now := r } d :=
  reading_onward hr.clock_eq hr.reading ho (fun _ => rfl) hon

/-- One move and the counter: either it is left alone, or a store call tends it, and if that renews
its expiry, it is for a time read off the clock. -/
theorem tended (hr : s.Recurring clock a day place) (ho : s.Orderly countless)
    (hc : s.Course place) (hm : Undisturbed a m) :
    (s.act m).world.store.entries = s.world.store.entries ∧
        (∀ d ∈ s.did m, ∀ c, d.call ≠ .store c) ∨
      ∃ who c r, s.did m = some ⟨who, .store c, r, s.now⟩ ∧ (s.act m).now = s.now ∧
        s.world.store.Tended s.now (a.counterKey day) (s.act m).world.store c r ∧
        ∀ ttl, c.renewed? r = some (a.counterKey day, ttl) → 0 < ttl ∧
          s.Renewal clock a day ⟨who, .store c, r, s.now⟩ ttl := by
  have hkey : ∀ c, m = .store c → a.counterKey day ∉ c.writes := by
    rintro c rfl
    exact hm day
  rcases hc.tended ho (fun _ => rfl) hkey with h | ⟨who, c, r, hd, hnow, ht, hcall⟩
  · exact .inl h
  · refine .inr ⟨who, c, r, hd, hnow, ht, fun ttl hren => ?_⟩
    obtain ⟨i, b, hwho, -, hb, hcb⟩ := hcall (StoreCall.mem_writes_of_renewed hren)
    cases hp : place i with
    | renewing ctx day' token n ttl' =>
      rw [hp] at hcb
      cases hcb
      obtain ⟨hkey', rfl⟩ := StoreCall.expire_of_renewed hren
      obtain ⟨hstem, hgrace⟩ := hr.patient i b hb
      obtain rfl : day' = day := Allocator.counterKey_inj hstem hkey'
      obtain ⟨t, ht', httl⟩ := hr.reading i b ctx day' token n ttl' hb hp
      exact ⟨httl ▸ Allocator.counterTtl_pos hgrace _ _, hren, i, b, t, hwho, hb, hstem, ht', httl⟩
    | counting ctx day' token =>
      rw [hp] at hcb
      cases hcb
      cases hren
    | reading | opening | queuing | timing | releasing | ended | lost =>
      rw [hp] at hcb
      cases hcb

theorem due_act (hr : s.Recurring clock a day place) (ho : s.Orderly countless)
    (hc : s.Course place)
    (hm : Undisturbed a m) : ∀ e x, (s.act m).world.store.entries.get? (a.counterKey day) = some e →
      e.expiry = some x → (s.act m).Due clock a day x := by
  intro e x he hx
  rcases hr.tended ho hc hm with ⟨hs, hnot⟩ | ⟨who, c, r, hd, -, ht, hren⟩
  · rw [hs] at he
    refine (hr.due e x he hx).act fun d hd ttl hnew => ?_
    rw [ServedCall.renewed?_of_not_store (hnot d hd)] at hnew
    cases hnew
  · have old : (∀ ttl, c.renewed? r ≠ some (a.counterKey day, ttl)) → s.Due clock a day x →
        (s.act m).Due clock a day x := by
      intro hna h
      refine h.act fun d hd' ttl hnew => ?_
      cases hd.symm.trans hd'
      exact absurd hnew (hna ttl)
    cases ht with
    | kept hget _ hna =>
      rw [hget] at he
      exact old hna (hr.due e x he hx)
    | cleared _ hget =>
      rw [hget] at he
      cases he
    | counted hv hmax hget =>
      rw [hget] at he
      cases he
      cases hf : s.world.store.find? s.now (a.counterKey day) with
      | none => simp [Store.counter, hf] at hx
      | some e =>
        rw [Store.counter_of_find? hf] at hx
        exact old (by simp [StoreCall.renewed?]) (hr.due e x (Store.live_of_find? hf).1 hx)
    | @renewed e' ttl hs hget =>
      rw [hget] at he
      cases he
      cases hx
      refine ⟨[], _, s.log, ttl, ?_, (hren ttl rfl).2.act, rfl, by simp⟩
      rw [act_log, hd]
      rfl

theorem past_kept (hr : s.Recurring clock a day place) (ho : s.Orderly countless)
    (hc : s.Course place) (hm : Undisturbed a m) {t : Tick} {n : Int} (ht : t ≤ s.now)
    (hp : s.Past clock a day t n) : (s.act m).Past clock a day t n := by
  have hnow := act_now_le ho (fun _ => rfl) m
  have expired : s.Expired clock a day t s.now → (s.act m).Past clock a day t n :=
    fun h => .inr (h.act (Nat.le_refl _) hnow)
  rcases hp with ⟨e, v, he, hv, hn, hx⟩ | hexp
  -- The entry is there: if readers still find it, it can only be counted up or renewed; if they do
  -- not, it has expired, and when it was to expire a renewal had said.
  · have gone : s.world.store.find? s.now (a.counterKey day) = none →
        (s.act m).Past clock a day t n := by
      intro hf
      obtain ⟨x, hex, hle⟩ := Store.expired_of_find? hf he
      exact expired ⟨x, hr.due e x he hex, hx x hex, hle⟩
    rcases hr.tended ho hc hm with ⟨hs, -⟩ | ⟨who, c, r, -, -, htend, hren⟩
    · exact .inl ⟨e, v, hs ▸ he, hv, hn, hx⟩
    · cases htend with
      | kept hget => exact .inl ⟨e, v, hget ▸ he, hv, hn, hx⟩
      | cleared hf => exact gone hf
      | @counted v' hv' hmax hget =>
        cases hf : s.world.store.find? s.now (a.counterKey day) with
        | none => exact gone hf
        | some e' =>
          have hee : e' = e := Option.some.inj ((Store.live_of_find? hf).1.symm.trans he)
          subst hee
          have hce := Store.counter_of_find? hf
          have hvv : v' = v := by
            rw [Store.count?, hce, hv, Option.some.injEq] at hv'
            exact hv'.symm
          subst hvv
          rw [hce] at hget
          have hb := Store.count?_bounds hv'
          refine .inl ⟨_, v' + 1, hget, ?_, by omega, hx⟩
          rw [String.toList_ofList]
          exact Numeral.int64?_signed (by omega) (by omega)
      | @renewed e' ttl hf hget =>
        have hee : e' = e := Option.some.inj ((Store.live_of_find? hf).1.symm.trans he)
        subst hee
        refine .inl ⟨_, v, hget, hv, hn, ?_⟩
        rintro x ⟨rfl⟩
        have hpos := (hren ttl rfl).1
        exact Nat.lt_of_le_of_lt ht (Nat.lt_add_of_pos_right hpos)
  · exact expired hexp

theorem past_counted (hr : s.Recurring clock a day place) (ho : s.Orderly countless)
    (hc : s.Course place) (hm : Undisturbed a m) {d : ServedCall} {n : Int} (hd : s.did m = some d)
    (hcd : d.counted? = some (a.counterKey day, n)) :
    (s.act m).Past clock a day s.now n ∧
      ∀ t, t ≤ s.now → s.Past clock a day t n → s.Expired clock a day t s.now := by
  rcases hr.tended ho hc hm with ⟨-, hnot⟩ | ⟨who, c, r, hd', hnow, htend, -⟩
  · rw [ServedCall.counted?_of_not_store (hnot d hd)] at hcd
    cases hcd
  · rw [hd'] at hd
    cases hd
    cases htend with
    | kept _ hna => exact absurd hcd (hna n)
    | cleared _ _ hna => exact absurd hcd (hna n)
    | renewed => cases hcd
    | @counted v hv hmax hget =>
      cases hcd
      have hb := Store.count?_bounds hv
      refine ⟨.inl ⟨_, v + 1, hget, ?_, by omega, fun x hx => ?_⟩, fun t ht hp => ?_⟩
      · rw [String.toList_ofList]
        exact Numeral.int64?_signed (by omega) (by omega)
      · have hl := s.world.store.counter_live s.now (a.counterKey day)
        have hx' : (s.world.store.counter s.now (a.counterKey day)).expiry = some x := hx
        rw [Entry.live, hx'] at hl
        exact of_decide_eq_true hl
      · rcases hp with ⟨e, v', he, hv', hn, hx⟩ | hexp
        -- Had the counter lived on, it would have been taken above the number.
        · cases hf : s.world.store.find? s.now (a.counterKey day) with
          | none =>
            obtain ⟨x, hex, hle⟩ := Store.expired_of_find? hf he
            exact ⟨x, hr.due e x he hex, hx x hex, hle⟩
          | some e' =>
            have hee : e' = e := Option.some.inj ((Store.live_of_find? hf).1.symm.trans he)
            subst hee
            rw [Store.count?, Store.counter_of_find? hf, hv', Option.some.injEq] at hv
            omega
        · exact hexp

theorem past_act (hr : s.Recurring clock a day place) (ho : s.Orderly countless)
    (hc : s.Course place)
    (hm : Undisturbed a m) : ∀ d ∈ (s.act m).log, ∀ n, d.counted? = some (a.counterKey day, n) →
      d.time ≤ (s.act m).now ∧ (s.act m).Past clock a day d.time n := by
  intro d hmem n hcd
  have hnow := act_now_le ho (fun _ => rfl) m
  rw [act_log, List.mem_append, Option.mem_toList] at hmem
  rcases hmem with hd | hold
  · have htime := (did_eq_some hd).1
    rw [htime]
    exact ⟨hnow, (hr.past_counted ho hc hm hd hcd).1⟩
  · obtain ⟨ht, hp⟩ := hr.past d hold n hcd
    exact ⟨Nat.le_trans ht hnow, hr.past_kept ho hc hm ht hp⟩

theorem apart_act (hr : s.Recurring clock a day place) (ho : s.Orderly countless)
    (hc : s.Course place) (hm : Undisturbed a m) :
    (s.act m).log.Pairwise fun later earlier => ∀ n, later.counted? = some (a.counterKey day, n) →
      earlier.counted? = some (a.counterKey day, n) →
        (s.act m).Expired clock a day earlier.time later.time := by
  have hold : s.log.Pairwise fun later earlier => ∀ n, later.counted? = some (a.counterKey day, n) →
      earlier.counted? = some (a.counterKey day, n) →
        (s.act m).Expired clock a day earlier.time later.time := by
    refine hr.apart.imp_of_mem fun {later} {earlier} hl _ h n hcl hce => ?_
    exact (h n hcl hce).act (hr.past later hl n hcl).1 (Nat.le_refl _)
  have hlog := act_log s m
  cases hd : s.did m with
  | none =>
    rw [hd] at hlog
    exact (congrArg (List.Pairwise _) hlog).mpr hold
  | some d =>
    rw [hd] at hlog
    have hnew : ∀ earlier ∈ s.log, ∀ n, d.counted? = some (a.counterKey day, n) →
        earlier.counted? = some (a.counterKey day, n) →
          (s.act m).Expired clock a day earlier.time d.time := by
      intro earlier hmem n hcd hce
      obtain ⟨ht, hp⟩ := hr.past earlier hmem n hce
      have hexp := (hr.past_counted ho hc hm hd hcd).2 _ ht hp
      rw [(did_eq_some hd).1]
      exact hexp.act (Nat.le_refl _) (Nat.le_refl _)
    exact (congrArg (List.Pairwise _) hlog).mpr (List.pairwise_cons.2 ⟨hnew, hold⟩)

theorem act (hr : s.Recurring clock a day place) (ho : s.Orderly countless) (hc : s.Course place)
    (hm : Undisturbed a m) (hon : s.Onward countless m place place') :
    (s.act m).Recurring clock a day place' where
  clock_eq := hr.clock_act ho
  patient := hr.patient_act hm
  reading := hr.reading_act ho hon
  due := hr.due_act ho hc hm
  past := hr.past_act ho hc hm
  apart := hr.apart_act ho hc hm

end Recurring

theorem recurring_around {w : World} (hfresh : w.store.entries.get? (a.counterKey day) = none) :
    (around w).Recurring w.clock a day place where
  clock_eq := rfl
  patient := by simp [around, allocator?, role?]
  reading := by simp [around, allocator?, role?]
  due := by simp [around, hfresh]
  past := by simp [around]
  apart := List.Pairwise.nil

theorem Recurring.expired (hr : s.Recurring clock a day place) {d e : ServedCall} (hd : d ∈ s.log)
    (he : e ∈ s.log) (hne : d ≠ e) {n : Int} (hcd : d.counted? = some (a.counterKey day, n))
    (hce : e.counted? = some (a.counterKey day, n)) :
    s.Expired clock a day d.time e.time ∨ s.Expired clock a day e.time d.time := by
  let R : ServedCall → ServedCall → Prop := fun d e => ∀ n, d.counted? = some (a.counterKey day, n) →
    e.counted? = some (a.counterKey day, n) →
      s.Expired clock a day d.time e.time ∨ s.Expired clock a day e.time d.time
  have hsymm : Std.Symm R := ⟨fun d e h n hce hcd => (h n hcd hce).symm⟩
  have hall : s.log.Pairwise R := hr.apart.imp fun h n hl he => .inr (h n hl he)
  exact hall.forall hd he hne n hcd hce

/-- Two allocations are given one identifier only if the counter of its day expired between their
counts, as its last renewal before then had said, and so only once the day has ended. -/
theorem identifiers_recur_after_expiry {w : World} (hw : w.Calm) (hplan : w.faults.Within countless)
    {moves : List (Move mint)} (h : (around w).Lawful (fun _ => Undisturbed a) moves)
    {s : Crowd mint} (hs : s = (around w).play moves) {i j : Nat} (hij : i ≠ j) {id : Identifier}
    (hfresh : w.store.entries.get? (a.counterKey id.day) = none)
    (hi : s.result? i = some (.ok id)) (hj : s.result? j = some (.ok id)) :
    (∃ d ∈ s.log, ∃ e ∈ s.log, d.who = some i ∧ e.who = some j ∧
      d.counted? = some (a.counterKey id.day, (id.number : Int)) ∧
      e.counted? = some (a.counterKey id.day, (id.number : Int)) ∧
      (s.Expired w.clock a id.day d.time e.time ∨ s.Expired w.clock a id.day e.time d.time)) ∧
    ∀ midnight, (id.day.succ? >>= w.clock.zone.midnight?) = some midnight →
      midnight ≤ s.world.clock.wall := by
  have hrun := h.course
    (I := fun s place => s.Numbered place ∧ s.Recurring w.clock a id.day place)
    (fun _ => rfl) (fun _ _ hm => hm)
    (fun s m place place' ho hc hm hon hi => ⟨hi.1.act hon, hi.2.act ho hc hm hon⟩) hw hplan
    ⟨numbered_around w _, recurring_around hfresh⟩
  rw [← hs] at hrun
  obtain ⟨-, place, hc, hn, hr⟩ := hrun
  have counted : ∀ k, s.result? k = some (.ok id) → ∃ d ∈ s.log, d.who = some k ∧
      d.counted? = some (a.counterKey id.day, (id.number : Int)) := by
    intro k hk
    obtain ⟨b, hb, -⟩ := hc.ended hk
    obtain ⟨d, hd, hw, hcd⟩ := hn.result hc hb hk rfl
    rw [Allocator.counterKey, (hr.patient k b hb).1] at hcd
    exact ⟨d, hd, hw, hcd⟩
  obtain ⟨d, hd, hdi, hcd⟩ := counted i hi
  obtain ⟨e, he, hej, hce⟩ := counted j hj
  have hne : d ≠ e := by
    rintro rfl
    exact hij (Option.some.inj (hdi.symm.trans hej))
  have hexp := hr.expired hd he hne hcd hce
  refine ⟨⟨d, hd, e, he, hdi, hej, hcd, hce, hexp⟩, fun midnight hmid => ?_⟩
  rw [hr.clock_eq]
  rcases hexp with hexp | hexp
  · exact hexp.ended (hr.past e he _ hce).1 hmid
  · exact hexp.ended (hr.past d hd _ hcd).1 hmid

/-- The same day is allocated for at its start, and again when it has ended. -/
def dayLater : List (Move mint) :=
  .join .newYear :: List.replicate 10 (.look 0) ++
    .pass (.ofSecs (25 * 60 * 60)) :: .join .newYear :: List.replicate 10 (.look 1)

theorem result_dayLater : ((around .newYear).play dayLater).result? 0 = some (.ok ⟨.newYear, 1⟩) ∧
    ((around .newYear).play dayLater).result? 1 = some (.ok ⟨.newYear, 1⟩) :=
  ⟨rfl, rfl⟩

theorem identifiers_recur_dayLater :
    ∃ d ∈ ((around .newYear).play dayLater).log, ∃ e ∈ ((around .newYear).play dayLater).log,
      d.who = some 0 ∧ e.who = some 1 ∧
      (((around .newYear).play dayLater).Expired World.newYear.clock .standard .newYear d.time e.time ∨
        ((around .newYear).play dayLater).Expired World.newYear.clock .standard .newYear
          e.time d.time) := by
  have hlaw : (around .newYear).Lawful (fun _ => Undisturbed .standard) dayLater := by
    have hgrace : 0 < Allocator.standard.grace := by decide
    simp [dayLater, Lawful, Undisturbed, Mint.Job.newYear, List.replicate, hgrace]
  obtain ⟨⟨d, hd, e, he, hdi, hej, -, -, hexp⟩, -⟩ := identifiers_recur_after_expiry
    World.newYear_calm (Faults.within_none _) hlaw rfl Nat.zero_ne_one rfl
    result_dayLater.1 result_dayLater.2
  exact ⟨d, hd, e, he, hdi, hej, hexp⟩

/-- Nothing but allocations by the standard allocator, each let run to its end, and time. -/
def Plain : Move mint → Prop
  | .join (.allocate a _) => a = .standard
  | .look _ | .pass _ => True
  | _ => False

def Distinct (s : Crowd mint) : Prop :=
  ∀ i j id, s.result? i = some (.ok id) → s.result? j = some (.ok id) → i = j

theorem identifiers_not_distinct : ¬ ∀ (clock : Clock) (moves : List (Move mint)),
    (around (World.start clock none fun _ => "")).Lawful (fun _ => Plain) moves →
      ((around (World.start clock none fun _ => "")).play moves).Distinct := by
  intro h
  have hlaw : (around .newYear).Lawful (fun _ => Plain) dayLater := by
    simp [dayLater, Lawful, Plain, Mint.Job.newYear, List.replicate]
  have hdistinct := h _ dayLater hlaw 0 1 ⟨.newYear, 1⟩ result_dayLater.1 result_dayLater.2
  cases hdistinct

end Crowd

end Registrar
