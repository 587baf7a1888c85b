import Registrar.Backend
import Registrar.Proofs.Service.Prompt
set_option autoImplicit false

namespace Registrar

namespace Flow

variable {α β ε δ : Type}

/-- What a flow comes to at a moment when its context is interrupted: the calls it tries to make
under the context fail, and it makes no other. A crash is an end as well. -/
inductive Barred (ctx : Context) (i : Interrupted) (t : Clock) : Flow α → Option α → Prop where
  | done (a : α) : Barred ctx i t (.done a) (some a)
  | crash : Barred ctx i t .crash none
  | now {k : Clock → Flow α} {o : Option α} (h : Barred ctx i t (k t) o) : Barred ctx i t (.now k) o
  | mint {k : String → Flow α} {o : Option α} (h : ∀ id, Barred ctx i t (k id) o) :
      Barred ctx i t (.mint k) o
  | call {c : Call} {held : Option Held} {k : Except Interrupted c.Answer → Flow α} {o : Option α}
      (h : Barred ctx i t (k (.error i)) o) : Barred ctx i t (.call (.under ctx) c held k) o

namespace Barred

variable {ctx : Context} {i : Interrupted} {t : Clock}

theorem bind {f : Flow α} {p : Option α} {a : α} {k : α → Flow β} {o : Option β}
    (h : f.Barred ctx i t p) (hp : p = some a) (hk : (k a).Barred ctx i t o) :
    (f.bind k).Barred ctx i t o := by
  induction h with
  | done b =>
    cases hp
    exact hk
  | crash => cases hp
  | now _ ih => exact .now (ih hp)
  | mint _ ih => exact .mint fun id => ih id hp
  | call _ ih => exact .call (ih hp)

theorem bind_none {f : Flow α} {p : Option α} (k : α → Flow β) (h : f.Barred ctx i t p)
    (hp : p = none) : (f.bind k).Barred ctx i t none := by
  induction h with
  | done b => cases hp
  | crash => exact .crash
  | now _ ih => exact .now (ih hp)
  | mint _ ih => exact .mint fun id => ih id hp
  | call _ ih => exact .call (ih hp)

theorem run_bind {x : ExceptT ε Flow α} {k : α → ExceptT ε Flow β} {a : α}
    {o : Option (Except ε β)} (h : x.run.Barred ctx i t (some (.ok a)))
    (hk : (k a).run.Barred ctx i t o) : (x >>= k).run.Barred ctx i t o :=
  h.bind rfl hk

theorem run_error {x : ExceptT ε Flow α} {e : ε} (k : α → ExceptT ε Flow β)
    (h : x.run.Barred ctx i t (some (.error e))) :
    (x >>= k).run.Barred ctx i t (some (.error e)) :=
  h.bind rfl (.done _)

theorem run_clock {k : Clock → ExceptT ε Flow β} {o : Option (Except ε β)}
    (h : (k t).run.Barred ctx i t o) :
    ((ExceptT.mk (.now fun t => .done (.ok t)) : ExceptT ε Flow Clock) >>= k).run.Barred ctx i t o :=
  .now h

theorem run_mint {k : String → ExceptT ε Flow β} {o : Option (Except ε β)}
    (h : ∀ id, (k id).run.Barred ctx i t o) :
    ((ExceptT.mk (.mint fun id => .done (.ok id)) : ExceptT ε Flow String) >>= k).run.Barred
      ctx i t o :=
  .mint h

theorem adapt {x : ExceptT ε Flow α} (f : ε → δ) {r : Except ε α}
    (h : x.run.Barred ctx i t (some r)) : (x.adapt f).run.Barred ctx i t (some (r.mapError f)) :=
  h.bind rfl (.done _)

end Barred

end Flow

namespace Allocator

variable {ctx : Context} {i : Interrupted} {t : Clock}

theorem barred_allocate (a : Allocator) (day : Day) :
    (a.allocate ctx day).Barred ctx i t (some (.error (.interrupted i))) := .call (.done _)

theorem barred_allocateToday (a : Allocator) :
    (a.allocateToday ctx).Barred ctx i t (t.today?.map fun _ => .error (.interrupted i)) := by
  refine .now ?_
  cases t.today? with
  | some day => exact a.barred_allocate day
  | none => exact .crash

end Allocator

namespace Tokens

variable {ctx : Context} {i : Interrupted} {t : Clock}

theorem barred_ask (c : StoreCall) :
    (ask ctx c).run.Barred ctx i t (some (.error (.interrupted i))) := .call (.done _)

theorem barred_record (subject : Subject) (p : TokenPair) :
    (record ctx subject p).run.Barred ctx i t (some (.error (.interrupted i))) :=
  .run_clock (.run_error _ (barred_ask _))

theorem barred_resolve (id : String) :
    (resolve ctx id).run.Barred ctx i t (some (.error (.interrupted i))) :=
  .run_error _ (barred_ask _)

theorem barred_revokeOne (id : String) :
    (revokeOne ctx id).run.Barred ctx i t (some (.error (.interrupted i))) := barred_ask _

theorem barred_revoke (access : Access) :
    (revoke ctx access).run.Barred ctx i t (some (.error (.interrupted i))) :=
  .run_error _ (barred_revokeOne _)

end Tokens

namespace Accounts

variable {ctx : Context} {i : Interrupted} {t : Clock}

/-- The expiries of a pair issued now, if the calendar reaches them. A login tells them before it
makes its first call. -/
def expiries? (a : Accounts) (t : Clock) : Option (Instant × Instant) :=
  (t.wall.after? a.terms.access).bind fun access =>
    (t.wall.after? a.terms.refresh).map fun refresh => (access, refresh)

/-- What is answered where a token's claims could be read but nothing could be asked of the store. -/
def unasked {α : Type} : Except TokenRefusal α → AccountError
  | .ok _ => .internal
  | .error r => .ofRefusal r

theorem barred_register (a : Accounts) :
    (a.register ctx).run.Barred ctx i t (t.today?.map fun _ => .error .internal) := by
  have hid : (a.allocator.allocateToday ctx).Barred ctx i t _ := a.allocator.barred_allocateToday
  cases hday : t.today? with
  | some day =>
    rw [hday] at hid
    exact .run_error _ (.adapt AccountError.ofAlloc hid)
  | none =>
    rw [hday] at hid
    exact (hid.bind_none _ rfl).bind_none _ rfl

theorem barred_login (a : Accounts) (subject : Subject) :
    (a.login ctx subject).run.Barred ctx i t ((a.expiries? t).map fun _ => .error .internal) := by
  refine .run_clock (.run_mint fun accessId => .run_mint fun refreshId => ?_)
  unfold expiry expiries?
  cases t.wall.after? a.terms.access with
  | none => exact .crash
  | some accessExpiry =>
    cases t.wall.after? a.terms.refresh with
    | none => exact .crash
    | some refreshExpiry =>
      refine .run_bind (.done (Except.ok accessExpiry)) ?_
      refine .run_bind (.done (Except.ok refreshExpiry)) ?_
      exact .run_error _ (.adapt AccountError.ofToken (Tokens.barred_record subject _))

theorem barred_confirm (id : String) (claimed : Subject) :
    (confirm ctx id claimed).run.Barred ctx i t (some (.error .internal)) :=
  .run_error _ (.adapt AccountError.ofToken (Tokens.barred_resolve id))

theorem barred_authenticate (token : String) :
    (authenticate ctx token).run.Barred ctx i t
      (some (.error (unasked (AccessClaims.ofToken t.wall token)))) := by
  refine .run_clock ?_
  cases AccessClaims.ofToken t.wall token with
  | error r => exact .run_error _ (.done _)
  | ok claims => exact .run_bind (.done _) (.run_error _ (barred_confirm _ _))

theorem barred_logout (token : String) :
    (logout ctx token).run.Barred ctx i t
      (some (.error (unasked (AccessClaims.ofToken t.wall token)))) :=
  .run_error _ (barred_authenticate token)

theorem barred_refresh (a : Accounts) (token : String) :
    (a.refresh ctx token).run.Barred ctx i t
      (some (.error (unasked (RefreshClaims.ofToken t.wall token)))) := by
  refine .run_clock ?_
  cases RefreshClaims.ofToken t.wall token with
  | error r => exact .run_error _ (.done _)
  | ok claims => exact .run_bind (.done _) (.run_error _ (barred_confirm _ _))

end Accounts

/-- Nothing has happened to a world but that identifiers, numbers for calls and contexts may have
been given out. -/
structure World.Untouched (w v : World) : Prop where
  fired : v.signals.fired = w.signals.fired
  rest : v = { w with signals := v.signals, minted := v.minted, tickets := v.tickets }

/-- Nothing has happened to a link but that identifiers and contexts may have been given out. -/
structure Redis.Link.Untouched (l m : Redis.Link) : Prop where
  fired : m.signals.fired = l.signals.fired
  rest : m = { l with signals := m.signals, minted := m.minted }

def Backend.Untouched : Backend → Backend → Prop
  | .memory w, .memory v => w.Untouched v
  | .redis l, .redis m => l.Untouched m
  | .memory _, .redis _ | .redis _, .memory _ => False

namespace World.Untouched

variable {w v u : World}

theorem refl (w : World) : w.Untouched w := ⟨rfl, rfl⟩

theorem trans (h : w.Untouched v) (h' : v.Untouched u) : w.Untouched u where
  fired := h'.fired.trans h.fired
  rest := by rw [h'.rest, h.rest]

theorem counted (w : World) (minted tickets : Nat) :
    w.Untouched { w with minted := minted, tickets := tickets } := ⟨rfl, rfl⟩

theorem clock (h : w.Untouched v) : v.clock = w.clock := by rw [h.rest]

theorem orphans (h : w.Untouched v) : v.orphans = w.orphans := by rw [h.rest]

end World.Untouched

namespace Redis.Link.Untouched

variable {l m n : Redis.Link}

theorem refl (l : Redis.Link) : l.Untouched l := ⟨rfl, rfl⟩

theorem trans (h : l.Untouched m) (h' : m.Untouched n) : l.Untouched n where
  fired := h'.fired.trans h.fired
  rest := by rw [h'.rest, h.rest]

theorem counted (l : Redis.Link) (minted : Nat) : l.Untouched { l with minted := minted } :=
  ⟨rfl, rfl⟩

theorem clock (h : l.Untouched m) : m.clock = l.clock := by rw [h.rest]

end Redis.Link.Untouched

namespace Flow

variable {α : Type} {ctx : Context} {i : Interrupted}

theorem advance_concluded {w v : World} {g : Guard} {c : Call} {held : Option Held}
    {k : g.Outcome c.Answer → Flow α} {o : g.Outcome c.Answer}
    (h : ({ w with tickets := w.tickets + 1 } : World).attend w.tickets (w.lapse g) g c .fresh =
      (v, .concluded o)) : (Flow.call g c held k).advance w = (k o).advance v := by
  rw [Flow.advance]
  simp only [h]

theorem follow_barred {l : Redis.Link} {g : Guard} {c : Call} {held : Option Held}
    {k : g.Outcome c.Answer → Flow α} {o : g.Outcome c.Answer} (h : l.before g = some o) :
    (Flow.call g c held k).follow l = (k o).follow l := by
  rw [Flow.follow, h]

theorem attend_barred {w : World} (hi : ctx.interruption? w.signals w.now = some i) (ticket : Nat)
    (lapse : Tick) (c : Call) :
    w.attend ticket lapse (.under ctx) c .fresh = (w, .concluded (.error i)) := by
  have hbefore : @World.before w c.Answer (.under ctx) = some (.error i) :=
    congrArg (Option.map Except.error) hi
  rw [World.attend, hbefore]
  cases c <;> rfl

namespace Barred

variable {f : Flow α} {o : Option α}

theorem advance {w : World} (h : f.Barred ctx i w.clock o)
    (hi : ctx.interruption? w.signals w.now = some i) :
    ∃ v, f.advance w = (v, .over o) ∧ w.Untouched v := by
  generalize hc : w.clock = t at h
  induction h generalizing w with
  | done a => exact ⟨w, rfl, .refl w⟩
  | crash => exact ⟨w, rfl, .refl w⟩
  | now _ ih =>
    subst hc
    exact ih hi rfl
  | mint _ ih =>
    obtain ⟨v, hv, hw⟩ := ih (w.ids w.minted) (w := w.mint.2) hi hc
    exact ⟨v, hv, (World.Untouched.counted w (w.minted + 1) w.tickets).trans hw⟩
  | @call c _ k _ _ ih =>
    obtain ⟨v, hv, hw⟩ := ih (w := { w with tickets := w.tickets + 1 }) hi hc
    have hattend := attend_barred (w := { w with tickets := w.tickets + 1 }) hi w.tickets
      (w.lapse (.under ctx)) c
    exact ⟨v, (advance_concluded hattend).trans hv,
      (World.Untouched.counted w w.minted (w.tickets + 1)).trans hw⟩

theorem follow {l : Redis.Link} (h : f.Barred ctx i l.clock o)
    (hi : ctx.interruption? l.signals l.elapsed = some i) :
    ∃ m, f.follow l = (.over o, m) ∧ l.Untouched m := by
  generalize hc : l.clock = t at h
  induction h generalizing l with
  | done a => exact ⟨l, rfl, .refl l⟩
  | crash => exact ⟨l, rfl, .refl l⟩
  | now _ ih =>
    subst hc
    exact ih hi rfl
  | mint _ ih =>
    obtain ⟨m, hm, hl⟩ := ih (l.ids l.minted) (l := { l with minted := l.minted + 1 }) hi hc
    exact ⟨m, hm, (Redis.Link.Untouched.counted l (l.minted + 1)).trans hl⟩
  | @call c _ k _ _ ih =>
    obtain ⟨m, hm, hl⟩ := ih hi hc
    have hbefore : @Redis.Link.before l c.Answer (.under ctx) = some (.error i) :=
      congrArg (Option.map Except.error) hi
    exact ⟨m, (follow_barred hbefore).trans hm, hl⟩

end Barred

end Flow

namespace Backend

/-- The flow is over at once with this outcome, nothing if it crashes, and nothing has been asked of
the backend. -/
def Declines {α : Type} : Backend → Flow α → Option α → Prop
  | .memory w, f, o => ∃ v, f.advance w = (v, .over o) ∧ w.Untouched v
  | .redis l, f, o => ∃ m, f.follow l = (.over o, m) ∧ l.Untouched m

theorem declines_of_barred {α : Type} {b : Backend} {ctx : Context} {i : Interrupted} {f : Flow α}
    {o : Option α} (hi : ctx.interruption? b.signals b.now = some i)
    (h : f.Barred ctx i b.clock o) : b.Declines f o := by
  cases b with
  | memory w => exact h.advance hi
  | redis l => exact h.follow hi

/-- Under this context no operation gets anything done: what each one answers. -/
structure Frozen (b : Backend) (ctx : Context) (i : Interrupted) : Prop where
  allocate (a : Allocator) (day : Day) :
    b.Declines (a.allocate ctx day) (some (.error (.interrupted i)))
  record (subject : Subject) (p : TokenPair) :
    b.Declines (Tokens.record ctx subject p).run (some (.error (.interrupted i)))
  resolve (id : String) : b.Declines (Tokens.resolve ctx id).run (some (.error (.interrupted i)))
  revoke (access : Access) :
    b.Declines (Tokens.revoke ctx access).run (some (.error (.interrupted i)))
  revokeOne (id : String) :
    b.Declines (Tokens.revokeOne ctx id).run (some (.error (.interrupted i)))
  /-- Where the local calendar shows no day, there is a crash. -/
  register (a : Accounts) :
    b.Declines (a.register ctx).run (b.clock.today?.map fun _ => .error .internal)
  /-- Where the calendar does not reach the expiries, there is a crash. -/
  login (a : Accounts) (subject : Subject) :
    b.Declines (a.login ctx subject).run ((a.expiries? b.clock).map fun _ => .error .internal)
  authenticate (token : String) : b.Declines (Accounts.authenticate ctx token).run
    (some (.error (Accounts.unasked (AccessClaims.ofToken b.clock.wall token))))
  logout (token : String) : b.Declines (Accounts.logout ctx token).run
    (some (.error (Accounts.unasked (AccessClaims.ofToken b.clock.wall token))))
  refresh (a : Accounts) (token : String) : b.Declines (a.refresh ctx token).run
    (some (.error (Accounts.unasked (RefreshClaims.ofToken b.clock.wall token))))

theorem frozen {b : Backend} {ctx : Context} {i : Interrupted}
    (hi : ctx.interruption? b.signals b.now = some i) : b.Frozen ctx i where
  allocate a day := declines_of_barred hi (a.barred_allocate day)
  record subject p := declines_of_barred hi (Tokens.barred_record subject p)
  resolve id := declines_of_barred hi (Tokens.barred_resolve id)
  revoke access := declines_of_barred hi (Tokens.barred_revoke access)
  revokeOne id := declines_of_barred hi (Tokens.barred_revokeOne id)
  register a := declines_of_barred hi a.barred_register
  login a subject := declines_of_barred hi (a.barred_login subject)
  authenticate token := declines_of_barred hi (Accounts.barred_authenticate token)
  logout token := declines_of_barred hi (Accounts.barred_logout token)
  refresh a token := declines_of_barred hi (a.barred_refresh token)

end Backend

end Registrar
