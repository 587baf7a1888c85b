import Registrar.Backend
import Registrar.Proofs.Calendar
import Registrar.Proofs.Service
set_option autoImplicit false

namespace Registrar

/-- A lock where nobody waits, and which is held with this token at most. -/
def Lock.under : Option LockToken → String → Lock
  | some token, name => if name = token.name then ⟨.held token.holder, []⟩ else .idle
  | none, _ => .idle

namespace World

structure Still (w : World) (c : Clock) (held : Option LockToken) : Prop where
  clock : w.clock = c
  faults : w.faults = .none
  orphans : w.orphans = []
  available : w.locks.available = true
  locks : ∀ name, w.locks.find name = .under held name

theorem Still.counted {w : World} {c : Clock} {held : Option LockToken} (h : w.Still c held)
    (minted tickets : Nat) (signals : Signals) :
    ({ w with minted := minted, tickets := tickets, signals := signals } : World).Still c held :=
  ⟨h.clock, h.faults, h.orphans, h.available, h.locks⟩

theorem Still.noteHolder {w : World} {c : Clock} {held : Option LockToken} (h : w.Still c held)
    (holder : Holder) : (w.noteHolder holder).Still c held := by
  unfold World.noteHolder
  split
  · exact h
  · exact ⟨h.clock, h.faults, h.orphans, h.available, h.locks⟩

theorem Still.setNow {w : World} {c : Clock} {held : Option LockToken} (h : w.Still c held)
    (t : Tick) : (w.setNow t).Still { c with now := t } held where
  clock := by rw [World.setNow, h.clock]
  faults := h.faults
  orphans := h.orphans
  available := h.available
  locks := h.locks

end World

namespace Locks

variable {ls : Locks} {token : LockToken}

theorem seat_idle (hl : ∀ n, ls.find n = .under none n) (name : String) :
    (ls.find name).seat = .free := by
  rw [hl name]
  rfl

theorem grant_idle (hl : ∀ n, ls.find n = .under none n) (name other : String) :
    (ls.grant name).2.find other = .under (some (ls.grant name).1) other := by
  rw [find_grant, Lock.under, grant_name, grant_holder, hl name, hl other]
  rfl

theorem unlock_under (hl : ∀ n, ls.find n = .under (some token) n) (name : String) :
    (ls.unlock token).2.find name = .under none name := by
  have hh : ls.Holds token := by
    rw [Holds, hl, Lock.under, if_pos rfl]
  rw [find_unlock, hl name]
  by_cases hn : name = token.name
  · simp [Lock.under, hn, hh, Lock.passOn]
  · simp [Lock.under, hn]

theorem unlock_available (ls : Locks) (token : LockToken) :
    (ls.unlock token).2.available = ls.available := by
  rw [unlock_eq]
  split <;> rfl

end Locks

def StoreCall.ttl? : StoreCall → Option Span
  | .set _ _ ttl | .expire _ ttl => some ttl
  | _ => none

theorem Store.perform_ne_none (s : Store) {now : Tick} {c : StoreCall}
    (hc : ∀ ttl ∈ c.ttl?, (now.after? ttl).isSome = true) : s.perform now c ≠ none := by
  cases c with
  | set key value ttl =>
    obtain ⟨dies, hd⟩ := Option.isSome_iff_exists.1 (hc ttl rfl)
    simp only [perform, Store.set, hd]
    split
    · split <;> simp
    · simp
  | expire key ttl =>
    obtain ⟨dies, hd⟩ := Option.isSome_iff_exists.1 (hc ttl rfl)
    simp only [perform, Store.expire, hd]
    split
    · split <;> simp
    · simp
  | get key => simp only [perform]; split <;> simp
  | del keys => simp only [perform]; split <;> simp
  | incr key => simp only [perform]; split <;> simp

namespace World

variable {w : World} {c : Clock} {held : Option LockToken}

theorem Still.attend_store (hw : w.Still c held) (ticket : Nat) (lapse : Tick) (ctx : Context)
    {call : StoreCall} (hc : ∀ ttl ∈ call.ttl?, (c.now.after? ttl).isSome = true) :
    ∃ v o, w.attend ticket lapse (.under ctx) (.store call) .fresh = (v, .concluded o) ∧
      v.Still c held := by
  cases hi : ctx.interruption? w.signals w.now with
  | some i =>
    refine ⟨w, .error i, ?_, hw⟩
    simp only [attend, before, hi]
    rfl
  | none =>
    obtain rfl := hw.clock
    obtain ⟨⟨a, s⟩, hp⟩ := Option.ne_none_iff_exists'.1 (w.store.perform_ne_none hc)
    have hv : ({ w with store := s, journal := .store call :: w.journal } : World).Still w.clock
        held := ⟨rfl, hw.faults, hw.orphans, hw.available, hw.locks⟩
    exact ⟨_, .ok a, attend_store hw.faults hi ticket lapse hp, hv⟩

theorem Still.attend_lock_live {ctx : Context} (hw : w.Still c none) (hl : w.Live ctx)
    (ticket : Nat) (lapse : Tick) (name : String) : ∃ v token, w.attend ticket lapse (.under ctx) (.lock name false) .fresh =
      (v, .concluded (.ok (.ok token))) ∧ v.Still c (some token) ∧ w.Serves v 0 ∧
        v.store = w.store := by
  have hfree := Locks.seat_idle hw.locks name
  let u : World := { w with
    journal := .lock name false :: w.journal
    locks := (w.locks.grant name).2 }
  have hgranted : u.Still c (some (w.locks.grant name).1) :=
    ⟨hw.clock, hw.faults, hw.orphans, hw.available, Locks.grant_idle hw.locks name⟩
  have hserves : w.Serves u 0 := ⟨rfl, rfl, rfl, rfl, rfl, rfl, rfl⟩
  have hstore : (u.noteHolder (w.locks.grant name).1.holder).store = w.store :=
    (Alike.noteHolder u (w.locks.grant name).1.holder).store
  refine ⟨_, _, ?_, hgranted.noteHolder (w.locks.grant name).1.holder,
    hserves.trans (serves_noteHolder _ _), hstore⟩
  exact attend_answered lapse (before_under hl)
    ((work_of_none hw.faults ticket _).trans (perform_lock ticket false hfree hw.available))

theorem Still.attend_lock (hw : w.Still c none) (ticket : Nat) (lapse : Tick) (ctx : Context)
    (name : String) :
    (∃ v i, w.attend ticket lapse (.under ctx) (.lock name false) .fresh =
        (v, .concluded (.error i)) ∧ v.Still c none) ∨
    ∃ v token, w.attend ticket lapse (.under ctx) (.lock name false) .fresh =
        (v, .concluded (.ok (.ok token))) ∧ v.Still c (some token) := by
  cases hi : ctx.interruption? w.signals w.now with
  | some i =>
    refine .inl ⟨w, i, ?_, hw⟩
    simp only [attend, before, hi]
    rfl
  | none =>
    obtain ⟨v, token, hv, hstill, -⟩ := hw.attend_lock_live hi ticket lapse name
    exact .inr ⟨v, token, hv, hstill⟩

theorem Still.attend_unlock_held {token : LockToken} (hw : w.Still c (some token)) (ticket : Nat)
    (lapse : Tick) (limit : Span) : ∃ v, w.attend ticket lapse (.within limit) (.unlock token) .fresh =
      (v, .concluded (some (.ok true))) ∧ v.Still c none ∧ w.Serves v 0 ∧ v.store = w.store := by
  have hholds : w.locks.Holds token := by
    rw [Locks.Holds, hw.locks, Lock.under, if_pos rfl]
  have hfound : (w.locks.unlock token).1 = true := (Locks.unlock_found ..).2 hholds
  have hv : ({ w with
      journal := .unlock token :: w.journal
      locks := (w.locks.unlock token).2 } : World).Still c none :=
    ⟨hw.clock, hw.faults, hw.orphans, (Locks.unlock_available _ _).trans hw.available,
      Locks.unlock_under hw.locks⟩
  refine ⟨_, ?_, hv, ⟨rfl, rfl, rfl, rfl, rfl, rfl, rfl⟩, rfl⟩
  rw [← hfound]
  exact attend_answered lapse rfl (work_of_none hw.faults ticket _)

end World

/-- What a flow has come to: its result, or nothing where it crashed. -/
def Activity.over {α : Type} : Option α → Activity α
  | some a => .done a
  | none => .crashed

def Ending.over {α : Type} : Option α → Ending α
  | some a => .finished a
  | none => .crashed

namespace Flow

variable {α β ε δ : Type} {w v : World} {c : Clock} {x : Prop}

theorem advance_bind_over {f : Flow α} {o : Option α} (k : α → Flow β)
    (h : f.advance w = (v, .over o)) :
    (f.bind k).advance w = o.elim (v, .crashed) fun a => (k a).advance v := by
  rcases advance_bind f k w with ⟨v', a, hf, hbind⟩ | ⟨v', hf, hbind⟩ | ⟨hf, -⟩
  · cases o with
    | some b =>
      cases h.symm.trans hf
      exact hbind
    | none => cases h.symm.trans hf
  · cases o with
    | some b => cases h.symm.trans hf
    | none =>
      cases h.symm.trans hf
      exact hbind
  · rw [h] at hf
    cases o <;> cases hf

/-- Over in one go, with every lock free again, and with a crash only where it is allowed. -/
def Over (f : Flow α) (w : World) (c : Clock) (x : Prop) : Prop :=
  ∃ v o, f.advance w = (v, .over o) ∧ v.Still c none ∧ (o = none → x)

theorem Over.done (hw : w.Still c none) (a : α) : (done a).Over w c x :=
  ⟨w, some a, rfl, hw, fun h => by cases h⟩

theorem Over.crash (hw : w.Still c none) (hx : x) : (crash : Flow α).Over w c x :=
  ⟨w, none, rfl, hw, fun _ => hx⟩

theorem Over.now {k : Clock → Flow α} (hk : (k w.clock).Over w c x) : (Flow.now k).Over w c x := hk

theorem Over.bind {f : Flow α} {k : α → Flow β} (h : f.Over w c x)
    (hk : ∀ a v, v.Still c none → (k a).Over v c x) : (f.bind k).Over w c x := by
  obtain ⟨v, o, h, hv, hx⟩ := h
  have hbind := advance_bind_over k h
  cases o with
  | some a =>
    obtain ⟨u, r, hr, hu, hxr⟩ := hk a v hv
    exact ⟨u, r, hbind.trans hr, hu, hxr⟩
  | none => exact ⟨v, none, hbind, hv, fun _ => hx rfl⟩

theorem Over.run_bind {y : ExceptT ε Flow α} {k : α → ExceptT ε Flow β} (h : y.run.Over w c x)
    (hk : ∀ a v, v.Still c none → (k a).run.Over v c x) : (y >>= k).run.Over w c x := by
  refine h.bind fun r v hv => ?_
  cases r with
  | ok a => exact hk a v hv
  | error e => exact .done hv (.error e : Except ε β)

theorem Over.run_clock {k : Clock → ExceptT ε Flow β} (hw : w.Still c none)
    (hk : (k c).run.Over w c x) :
    ((ExceptT.mk (.now fun t => .done (.ok t)) : ExceptT ε Flow Clock) >>= k).run.Over w c x :=
  .now (by rw [hw.clock]; exact hk)

theorem Over.run_mint {k : String → ExceptT ε Flow β} (hw : w.Still c none)
    (hk : ∀ id v, v.Still c none → (k id).run.Over v c x) :
    ((ExceptT.mk (.mint fun id => .done (.ok id)) : ExceptT ε Flow String) >>= k).run.Over w c x :=
  hk (w.ids w.minted) w.mint.2 (hw.counted (w.minted + 1) w.tickets w.signals)

theorem Over.adapt {y : ExceptT ε Flow α} (f : ε → δ) (h : y.run.Over w c x) :
    (y.adapt f).run.Over w c x :=
  h.bind fun r _ hv => .done hv (r.mapError f)

section

variable {held : Option LockToken} {h : Option Held} {ctx : Context}

theorem Over.request (hw : w.Still c none) {root : Context} {timeout : Span} {k : Context → Flow α}
    (ht : (c.now.after? timeout).isSome = true)
    (hk : ∀ ctx v, v.Still c none → (k ctx).Over v c x) : (Flow.request root timeout k).Over w c x := by
  obtain ⟨due, hdue⟩ := Option.isSome_iff_exists.1 ht
  have hnow : w.now = c.now := congrArg Clock.now hw.clock
  obtain ⟨v, o, hv⟩ := hk ⟨w.signals.made :: root.lineage, some (Context.sooner root.deadline due)⟩ _
    (hw.counted w.minted w.tickets
      { w.signals with
        made := w.signals.made + 1
        links := ((root.lineage.take 1).map (w.signals.made, ·)) ++ w.signals.links })
  refine ⟨v, o, ?_, hv.2⟩
  rw [← hv.1, Flow.advance]
  simp only [Context.child, hnow, hdue, Option.map_some]

theorem Over.call {g : Guard} {call : Call} {k : g.Outcome call.Answer → Flow α}
    {o : g.Outcome call.Answer}
    (ha : ({ w with tickets := w.tickets + 1 } : World).attend w.tickets (w.lapse g) g call .fresh =
      (v, .concluded o))
    (hk : (k o).Over v c x) : (Flow.call g call h k).Over w c x := by
  obtain ⟨u, r, hr, hu⟩ := hk
  refine ⟨u, r, ?_, hu⟩
  rw [Flow.advance]
  simp only [ha]
  exact hr

theorem Over.store (hw : w.Still c held) {call : StoreCall}
    (hc : ∀ ttl ∈ call.ttl?, (c.now.after? ttl).isSome = true)
    {k : Except Interrupted (Except StoreError call.Answer) → Flow α}
    (hk : ∀ o v, v.Still c held → (k o).Over v c x) :
    (Flow.call (.under ctx) (.store call) h k).Over w c x := by
  obtain ⟨v, o, ha, hv⟩ := (hw.counted w.minted (w.tickets + 1) w.signals).attend_store w.tickets
    (w.lapse (.under ctx)) ctx hc
  exact .call ha (hk o v hv)

theorem Over.lock (hw : w.Still c none) {name : String}
    {k : Except Interrupted (Except LockError LockToken) → Flow α}
    (hi : ∀ i v, v.Still c none → (k (.error i)).Over v c x)
    (hk : ∀ token v, v.Still c (some token) → (k (.ok (.ok token))).Over v c x) :
    (Flow.call (.under ctx) (.lock name false) h k).Over w c x := by
  have hlock := (hw.counted w.minted (w.tickets + 1) w.signals).attend_lock w.tickets
    (w.lapse (.under ctx)) ctx name
  rcases hlock with ⟨v, i, ha, hv⟩ | ⟨v, token, ha, hv⟩
  · exact .call ha (hi i v hv)
  · exact .call ha (hk token v hv)

theorem Over.unlock {token : LockToken} (hw : w.Still c (some token)) {limit : Span}
    {k : Option (Except LockError Bool) → Flow α} (hk : ∀ o v, v.Still c none → (k o).Over v c x) :
    (Flow.call (.within limit) (.unlock token) h k).Over w c x := by
  obtain ⟨v, ha, hv, -⟩ :=
    (hw.counted w.minted (w.tickets + 1) w.signals).attend_unlock_held w.tickets
      (w.lapse (.within limit)) limit
  exact .call ha (hk _ v hv)

end

end Flow

namespace Allocator

variable {w : World} {c : Clock} {x : Prop} {a : Allocator}

theorem over_finish {token : LockToken} (hw : w.Still c (some token)) (day : Day)
    (counted : Except AllocError Nat) : (a.finish day token counted).Over w c x :=
  .unlock hw fun _ _ hv => .done hv _

theorem over_allocate (hw : w.Still c none) (hc : c.Sane) (hg : a.grace ≤ Instant.max)
    (ctx : Context) (day : Day) : (a.allocate ctx day).Over w c x := by
  refine .lock hw (fun i v hv => .done hv _) fun token v hv => ?_
  refine .store hv (fun ttl h => by cases h) fun o v hv => ?_
  rcases o with i | e | n
  · exact over_finish hv day _
  · exact over_finish hv day _
  · refine Flow.Over.now ?_
    rw [hv.clock]
    refine .store hv (fun ttl h => ?_) fun o v hv => ?_
    · cases h
      exact hc.isSome_after?_of_le (hc.counterTtl_le hg day)
    · rcases o with i | e | b
      · exact over_finish hv day _
      · exact over_finish hv day _
      · exact over_finish hv day _

theorem over_allocateToday (hw : w.Still c none) (hc : c.Sane) (hg : a.grace ≤ Instant.max)
    (ctx : Context) (hx : c.today? = none → x) : (a.allocateToday ctx).Over w c x := by
  refine Flow.Over.now ?_
  rw [hw.clock]
  split
  · exact over_allocate hw hc hg ctx _
  · rename_i hnone
    exact .crash hw (hx hnone)

end Allocator

namespace Tokens

variable {w : World} {c : Clock} {x : Prop} {ctx : Context}

theorem over_ask (hw : w.Still c none) {call : StoreCall}
    (hc : ∀ ttl ∈ call.ttl?, (c.now.after? ttl).isSome = true) : (ask ctx call).run.Over w c x :=
  .store hw hc fun _ _ hv => .done hv _

theorem over_resolve (hw : w.Still c none) (id : String) : (resolve ctx id).run.Over w c x := by
  refine Flow.Over.run_bind (over_ask hw fun ttl h => by cases h) fun value v hv => ?_
  cases value with
  | some name => exact .done hv _
  | none => exact .done hv _

theorem over_revokeOne (hw : w.Still c none) (id : String) : (revokeOne ctx id).run.Over w c x :=
  over_ask hw fun ttl h => by cases h

theorem over_revoke (hw : w.Still c none) (access : Access) :
    (revoke ctx access).run.Over w c x := by
  refine Flow.Over.run_bind (over_revokeOne hw access.accessId) fun m v hv => ?_
  refine Flow.Over.run_bind (over_revokeOne hv access.refreshId) fun n v hv => ?_
  split
  · exact .done hv _
  · exact .done hv _

theorem over_record (hw : w.Still c none) (subject : Subject) {p : TokenPair}
    (ha : (c.now.after? (c.wall.untilInstant p.accessExpiry)).isSome = true)
    (hr : (c.now.after? (c.wall.untilInstant p.refreshExpiry)).isSome = true) :
    (record ctx subject p).run.Over w c x := by
  refine Flow.Over.run_clock hw ?_
  refine Flow.Over.run_bind (over_ask hw fun ttl h => by cases h; exact ha) fun access v hv => ?_
  refine Flow.Over.run_bind (over_ask hv fun ttl h => by cases h; exact hr) fun refresh v hv => ?_
  cases access with
  | false => exact .done hv _
  | true =>
    cases refresh with
    | false => exact .done hv _
    | true => exact .done hv _

end Tokens

namespace Accounts

variable {w : World} {c : Clock} {x : Prop} {ctx : Context}

theorem over_register (hw : w.Still c none) (hc : c.Sane) {a : Accounts}
    (hg : a.allocator.grace ≤ Instant.max) (hx : c.today? = none → x) :
    (a.register ctx).run.Over w c x := by
  have hid := (Allocator.over_allocateToday hw hc hg ctx hx)
  refine Flow.Over.run_bind (Flow.Over.adapt _ hid) fun id v hv => ?_
  exact .done hv _

theorem over_decoded {α : Type} (hw : w.Still c none) (r : Except TokenRefusal α) :
    (decoded r).run.Over w c x := .done hw _

theorem over_confirm (hw : w.Still c none) (id : String) (claimed : Subject) :
    (confirm ctx id claimed).run.Over w c x := by
  refine Flow.Over.run_bind (.adapt _ (Tokens.over_resolve hw id)) fun subject v hv => ?_
  split
  · exact .done hv _
  · exact .done hv _

theorem over_authenticate (hw : w.Still c none) (token : String) :
    (authenticate ctx token).run.Over w c x := by
  refine Flow.Over.run_clock hw ?_
  refine Flow.Over.run_bind (over_decoded hw _) fun claims v hv => ?_
  refine Flow.Over.run_bind (over_confirm hv _ _) fun subject v hv => ?_
  exact .done hv _

theorem over_logout (hw : w.Still c none) (token : String) : (logout ctx token).run.Over w c x := by
  refine Flow.Over.run_bind (over_authenticate hw token) fun access v hv => ?_
  exact .adapt _ (Tokens.over_revoke hv access)

def issuing (a : Accounts) (ctx : Context) (subject : Subject) (t : Clock)
    (accessId refreshId : String) : AccountFlow TokenPair := do
  let accessExpiry ← expiry t a.terms.access
  let refreshExpiry ← expiry t a.terms.refresh
  let p := pair subject accessId refreshId accessExpiry refreshExpiry
  tokens (Tokens.record ctx subject p)
  pure p

theorem login_eq (a : Accounts) (ctx : Context) (subject : Subject) :
    a.login ctx subject = (do
      let t ← clock
      let accessId ← mint
      let refreshId ← mint
      a.issuing ctx subject t accessId refreshId) := rfl

theorem expiry_eq (hc : c.Sane) (ttl : Span) : expiry c ttl =
    if c.wall + ttl ≤ Instant.max then pure (c.wall + ttl) else .mk .crash := by
  unfold expiry
  rw [hc.after?_eq]
  by_cases h : c.wall + ttl ≤ Instant.max <;> simp [h]

theorem over_issuing (hw : w.Still c none) (hc : c.Sane) {a : Accounts}
    (hreach : c.wall + a.terms.refresh ≤ Instant.max) (subject : Subject)
    (accessId refreshId : String) : (a.issuing ctx subject c accessId refreshId).run.Over w c x := by
  have hlt := a.terms.access_lt
  have hwall := hc.wall_nonneg
  have haccess : c.wall + a.terms.access ≤ Instant.max := by lia
  let p := pair subject accessId refreshId (c.wall + a.terms.access) (c.wall + a.terms.refresh)
  have hrecord : (Tokens.record ctx subject p).run.Over w c x := by
    refine Tokens.over_record hw subject ?_ ?_
    · refine hc.isSome_after?_of_le ?_
      simp only [p, pair, Instant.untilInstant]
      lia
    · refine hc.isSome_after?_of_le ?_
      simp only [p, pair, Instant.untilInstant]
      lia
  have hissue : (do
      tokens (Tokens.record ctx subject p)
      pure p : AccountFlow TokenPair).run.Over w c x :=
    .run_bind (.adapt _ hrecord) fun _ _ hv => .done hv _
  unfold issuing
  rw [expiry_eq hc, expiry_eq hc, if_pos haccess, if_pos hreach]
  exact hissue

theorem advance_issuing (hc : c.Sane) {a : Accounts}
    (hfar : ¬ c.wall + a.terms.refresh ≤ Instant.max) (subject : Subject)
    (accessId refreshId : String) (w : World) :
    (a.issuing ctx subject c accessId refreshId).run.advance w = (w, .crashed) := by
  unfold issuing
  rw [expiry_eq hc, expiry_eq hc, if_neg hfar]
  split <;> rfl

theorem login_crashes (hw : w.Still c none) (hc : c.Sane) {a : Accounts} (subject : Subject)
    (hfar : ¬ c.wall + a.terms.refresh ≤ Instant.max) :
    (a.login ctx subject).run.advance w = (w.mint.2.mint.2, .crashed) := by
  obtain rfl := hw.clock
  exact advance_issuing hc hfar subject _ _ _

theorem over_login (hw : w.Still c none) (hc : c.Sane) (a : Accounts) (subject : Subject)
    (hx : ¬ c.wall + a.terms.refresh ≤ Instant.max → x) : (a.login ctx subject).run.Over w c x := by
  by_cases hreach : c.wall + a.terms.refresh ≤ Instant.max
  · rw [login_eq]
    refine .run_clock hw ?_
    refine .run_mint hw fun accessId v hv => ?_
    refine .run_mint hv fun refreshId u hu => ?_
    exact over_issuing hu hc hreach subject accessId refreshId
  · refine ⟨_, none, login_crashes hw hc subject hreach, ?_, fun _ => hx hreach⟩
    exact hw.counted (w.minted + 1 + 1) w.tickets w.signals

theorem over_refresh (hw : w.Still c none) (hc : c.Sane) (a : Accounts) (token : String)
    (hx : ¬ c.wall + a.terms.refresh ≤ Instant.max → x) : (a.refresh ctx token).run.Over w c x := by
  refine Flow.Over.run_clock hw ?_
  refine Flow.Over.run_bind (over_decoded hw _) fun claims v hv => ?_
  refine Flow.Over.run_bind (over_confirm hv _ _) fun subject v hv => ?_
  refine Flow.Over.run_bind (.adapt _ (Tokens.over_revokeOne hv _)) fun removed v hv => ?_
  split
  · exact over_login hv hc a subject hx
  · exact .done hv _

end Accounts

end Registrar
