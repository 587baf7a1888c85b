import Registrar.Account
import Registrar.Proofs.Crowd.Trace
import Registrar.Proofs.Mint
/-!
The office: the trade of all that an account service and its allocator are asked for. Which calls a
visit makes, and how it ends, is told by its trace, as long as no answers of the store are made up
but errors. Main statement: `Visit.keeps`.
-/
set_option autoImplicit false

namespace Registrar

inductive Visit where
  | register (a : Accounts) (ctx : Context)
  | allocate (a : Allocator) (o : Order)
  | login (a : Accounts) (ctx : Context) (subject : Subject)
  | authenticate (ctx : Context) (token : String)
  | logout (ctx : Context) (token : String)
  | refresh (a : Accounts) (ctx : Context) (token : String)

abbrev Visit.Yield : Visit → Type
  | .register _ _ => Except AccountError Subject
  | .allocate _ _ => Except AllocError Identifier
  | .login _ _ _ => Except AccountError TokenPair
  | .authenticate _ _ => Except AccountError Access
  | .logout _ _ => Except AccountError Unit
  | .refresh _ _ _ => Except AccountError TokenPair

def Visit.flow : (v : Visit) → Flow v.Yield
  | .register a ctx => (a.register ctx).run
  | .allocate a o => o.flow a
  | .login a ctx subject => (a.login ctx subject).run
  | .authenticate ctx token => (Accounts.authenticate ctx token).run
  | .logout ctx token => (Accounts.logout ctx token).run
  | .refresh a ctx token => (a.refresh ctx token).run

abbrev office : Trade := ⟨Visit, Visit.Yield, Visit.flow⟩

/-- The store makes up no answers but errors. -/
def sincere : Answers
  | .store _, a => ∃ e, a = .error e
  | .lock _ _, _ | .unlock _, _ | .pause _, _ => True

namespace Event

def Says (c : StoreCall) (a : c.Answer) (e : Event) : Prop :=
  ∃ who time, e = .told ⟨who, .store c, .ok a, time⟩

def Fails (c : StoreCall) (e : Event) : Prop :=
  e = .missed (.store c) ∨ ∃ who x time, e = .told ⟨who, .store c, .error x, time⟩

end Event

def TokenError.Inner (x : TokenError) : Prop := AccountError.ofToken x = .internal

namespace Flow

variable {α β ε δ : Type} {P : Answers} {ids : Nat → String} {C : List Event → Call → Prop}
  {h : List Event}

theorem keeps_run_bind {Q : List Event → Except ε β → Prop} {x : ExceptT ε Flow α}
    {k : α → ExceptT ε Flow β} :
    (x >>= k).run.Keeps P ids C Q h ↔ x.run.Keeps P ids C (fun h r =>
      match r with
      | .ok a => (k a).run.Keeps P ids C Q h
      | .error e => Q h (.error e)) h := by
  refine keeps_bind.trans (Eq.to_iff (congrArg (fun Q => x.run.Keeps P ids C Q h) ?_))
  funext h r
  cases r <;> rfl

theorem keeps_adapt {Q : List Event → Except δ α → Prop} {x : ExceptT ε Flow α} {f : ε → δ} :
    (x.adapt f).run.Keeps P ids C Q h ↔
      x.run.Keeps P ids C (fun h r => Q h (r.mapError f)) h :=
  keeps_bind

end Flow

namespace Tokens

variable {ids : Nat → String} {C : List Event → Call → Prop} {h : List Event} {ctx : Context}

theorem keeps_ask {c : StoreCall} {Q : List Event → Except TokenError c.Answer → Prop}
    (hC : C h (.store c)) (said : ∀ e a, e.Says c a → Q (e :: h) (.ok a))
    (failed : ∀ e x, e.Fails c → x.Inner → Q (e :: h) (.error x)) :
    (ask ctx c).run.Keeps sincere ids C Q h := by
  refine ⟨hC, fun a who time => ?_, fun o ho => ?_⟩
  · cases a with
    | ok a => exact said _ a ⟨who, time, rfl⟩
    | error x => exact failed _ _ (.inr ⟨who, x, time, rfl⟩) rfl
  · rcases ho with ⟨a, ⟨x, rfl⟩, rfl⟩ | ⟨w, lapse, hw | hw⟩
    · exact failed _ (.storeUnavailable x) (.inl rfl) rfl
    · obtain ⟨i, -, rfl⟩ := Option.map_eq_some_iff.1 hw
      exact failed _ (.interrupted i) (.inl rfl) rfl
    · cases hw

theorem keeps_record {subject : Subject} {p : TokenPair}
    {Q : List Event → Except TokenError Unit → Prop}
    (first : ∀ u : Clock, C (.read u :: h)
      (.store (.set p.accessId subject.name (u.wall.untilInstant p.accessExpiry))))
    (second : ∀ (u : Clock) d b,
      d.Says (.set p.accessId subject.name (u.wall.untilInstant p.accessExpiry)) b →
      C (d :: .read u :: h)
        (.store (.set p.refreshId subject.name (u.wall.untilInstant p.refreshExpiry))))
    (written : ∀ (u : Clock) d e,
      d.Says (.set p.accessId subject.name (u.wall.untilInstant p.accessExpiry)) true →
      e.Says (.set p.refreshId subject.name (u.wall.untilInstant p.refreshExpiry)) true →
      Q (e :: d :: .read u :: h) (.ok ()))
    (failed : ∀ h x, Q h (.error x)) :
    (record ctx subject p).run.Keeps sincere ids C Q h := by
  refine Flow.keeps_run_bind.2 fun u => ?_
  refine Flow.keeps_run_bind.2 (keeps_ask (first u) (fun d access hd => ?_) fun _ _ _ _ => failed _ _)
  refine Flow.keeps_run_bind.2 (keeps_ask (second u d access hd) (fun e refresh he => ?_)
    fun _ _ _ _ => failed _ _)
  cases access with
  | false => exact failed _ _
  | true =>
    cases refresh with
    | false => exact failed _ _
    | true => exact written u d e hd he

end Tokens

/-- The pair of a login whose trace began with `h`, and how it came to be issued. -/
inductive Paired (ids : Nat → String) (terms : Terms) (subject : Subject) (h : List Event) :
    List Event → TokenPair → Prop where
  | mk {t u : Clock} {m n : Nat} {ea er : Instant} {d e : Event}
      (ha : t.wall.after? terms.access = some ea) (hr : t.wall.after? terms.refresh = some er)
      (hd : d.Says (.set (ids m) subject.name (u.wall.untilInstant ea)) true)
      (he : e.Says (.set (ids n) subject.name (u.wall.untilInstant er)) true) :
      Paired ids terms subject h (e :: d :: .read u :: .minted n :: .minted m :: .read t :: h)
        (Accounts.pair subject (ids m) (ids n) ea er)

/-- The calls by which a login writes both halves of its pair. -/
inductive Writes (ids : Nat → String) (h : List Event) : List Event → StoreCall → Prop where
  | access {t u : Clock} {m n : Nat} {value : String} {ttl : Span} :
      Writes ids h (.read u :: .minted n :: .minted m :: .read t :: h) (.set (ids m) value ttl)
  | refresh {t u : Clock} {m n : Nat} {value other : String} {ttl span : Span} {b : Bool} {d : Event}
      (hd : d.Says (.set (ids m) other span) b) :
      Writes ids h (d :: .read u :: .minted n :: .minted m :: .read t :: h)
        (.set (ids n) value ttl)

namespace Accounts

variable {ids : Nat → String} {C : List Event → Call → Prop} {h : List Event} {ctx : Context}

theorem keeps_expiry {Q : List Event → Except AccountError Instant → Prop} {t : Clock} {ttl : Span}
    (hQ : ∀ e, t.wall.after? ttl = some e → Q h (.ok e)) :
    (expiry t ttl).run.Keeps sincere ids C Q h := by
  unfold expiry
  cases he : t.wall.after? ttl with
  | none => trivial
  | some e => exact hQ e he

theorem keeps_login {a : Accounts} {subject : Subject}
    {Q : List Event → Except AccountError TokenPair → Prop}
    (writes : ∀ h' c, Writes ids h h' c → C h' (.store c))
    (issued : ∀ h' p, Paired ids a.terms subject h h' p → Q h' (.ok p))
    (failed : ∀ h x, Q h (.error x)) : (a.login ctx subject).run.Keeps sincere ids C Q h := by
  refine Flow.keeps_run_bind.2 fun t => ?_
  refine Flow.keeps_run_bind.2 fun m => ?_
  refine Flow.keeps_run_bind.2 fun n => ?_
  refine Flow.keeps_run_bind.2 (keeps_expiry fun ea ha => ?_)
  refine Flow.keeps_run_bind.2 (keeps_expiry fun er hr => ?_)
  refine Flow.keeps_run_bind.2 (Flow.keeps_adapt.2 (Tokens.keeps_record ?_ ?_ ?_ ?_))
  · exact fun u => writes _ _ .access
  · exact fun u d b hd => writes _ _ (.refresh hd)
  · exact fun u d e hd he => issued _ _ (.mk ha hr hd he)
  · exact fun h x => failed _ _

theorem keeps_confirm {id : String} {claimed : Subject}
    {Q : List Event → Except AccountError Subject → Prop} (looks : C h (.store (.get id)))
    (found : ∀ g, g.Says (.get id) (some claimed.name) → Q (g :: h) (.ok claimed))
    (missing : ∀ g v, g.Says (.get id) v → v ≠ some claimed.name →
      Q (g :: h) (.error .unauthorized))
    (failed : ∀ g, g.Fails (.get id) → Q (g :: h) (.error .internal)) :
    (confirm ctx id claimed).run.Keeps sincere ids C Q h := by
  refine Flow.keeps_run_bind.2 (Flow.keeps_adapt.2 (Flow.keeps_run_bind.2
    (Tokens.keeps_ask looks (fun g v hg => ?_) fun g x hg hx => ?_)))
  · cases v with
    | none => exact missing g none hg (by simp)
    | some name =>
      change (if (⟨name⟩ : Subject) = claimed then pure ⟨name⟩ else throw .unauthorized :
        AccountFlow Subject).run.Keeps sincere ids C Q (g :: h)
      by_cases hn : (⟨name⟩ : Subject) = claimed
      · subst hn
        rw [if_pos rfl]
        exact found g hg
      · have hv : some name ≠ some claimed.name := fun h => hn (by cases h; rfl)
        rw [if_neg hn]
        exact missing g (some name) hg hv
  · change Q (g :: h) (.error (AccountError.ofToken x))
    rw [show AccountError.ofToken x = .internal from hx]
    exact failed g hg

theorem keeps_authenticate {token : String} {Q : List Event → Except AccountError Access → Prop}
    (refused : ∀ (t : Clock) x, AccessClaims.ofToken t.wall token = .error x →
      Q (.read t :: h) (.error .unauthorized))
    (looks : ∀ (t : Clock) claims, AccessClaims.ofToken t.wall token = .ok claims →
      C (.read t :: h) (.store (.get claims.accessId)))
    (found : ∀ (t : Clock) claims g, AccessClaims.ofToken t.wall token = .ok claims →
      g.Says (.get claims.accessId) (some claims.subject.name) →
      Q (g :: .read t :: h) (.ok ⟨claims.accessId, claims.refreshId, claims.subject⟩))
    (missing : ∀ (t : Clock) claims g v, AccessClaims.ofToken t.wall token = .ok claims →
      g.Says (.get claims.accessId) v → v ≠ some claims.subject.name →
      Q (g :: .read t :: h) (.error .unauthorized))
    (failed : ∀ (t : Clock) claims g, AccessClaims.ofToken t.wall token = .ok claims →
      g.Fails (.get claims.accessId) → Q (g :: .read t :: h) (.error .internal)) :
    (authenticate ctx token).run.Keeps sincere ids C Q h := by
  refine Flow.keeps_run_bind.2 fun t => ?_
  refine Flow.keeps_run_bind.2 ?_
  cases hc : AccessClaims.ofToken t.wall token with
  | error x =>
    have hx : AccountError.ofRefusal x = .unauthorized := by cases x <;> rfl
    simpa [decoded, Flow.Keeps, Except.mapError, hx, ExceptT.run_mk] using refused t x hc
  | ok claims =>
    refine Flow.keeps_run_bind.2 (keeps_confirm (looks t claims hc) ?_ ?_ ?_)
    · exact fun g hg => found t claims g hc hg
    · exact fun g v hg hv => missing t claims g v hc hg hv
    · exact fun g hg => failed t claims g hc hg

/-- How a logout ends: its token is refused, or not found as it says, or both halves are removed, or
a call fails. -/
inductive Left (token : String) : List Event → Except AccountError Unit → Prop where
  | refused {t : Clock} {x : TokenRefusal} (hc : AccessClaims.ofToken t.wall token = .error x) :
      Left token [.read t] (.error .unauthorized)
  | missing {t : Clock} {claims : AccessClaims} {g : Event} {v : Option String}
      (hc : AccessClaims.ofToken t.wall token = .ok claims) (hg : g.Says (.get claims.accessId) v)
      (hv : v ≠ some claims.subject.name) : Left token [g, .read t] (.error .unauthorized)
  | removed {t : Clock} {claims : AccessClaims} {g d e : Event} {m n : Nat}
      (hc : AccessClaims.ofToken t.wall token = .ok claims)
      (hg : g.Says (.get claims.accessId) (some claims.subject.name))
      (hd : d.Says (.del [claims.accessId]) m) (he : e.Says (.del [claims.refreshId]) n) :
      Left token [e, d, g, .read t] (if m = 1 ∧ n = 1 then .ok () else .error .unauthorized)
  | failed {e : Event} {h : List Event} {c : StoreCall} (he : e.Fails c) :
      Left token (e :: h) (.error .internal)

theorem keeps_logout {token : String}
    (looks : ∀ (t : Clock) claims, AccessClaims.ofToken t.wall token = .ok claims →
      C [.read t] (.store (.get claims.accessId)))
    (removes : ∀ (t : Clock) claims g, AccessClaims.ofToken t.wall token = .ok claims →
      g.Says (.get claims.accessId) (some claims.subject.name) →
      C [g, .read t] (.store (.del [claims.accessId])) ∧
        ∀ d m, d.Says (.del [claims.accessId]) m →
          C [d, g, .read t] (.store (.del [claims.refreshId]))) :
    (logout ctx token).run.Keeps sincere ids C (Left token) [] := by
  refine Flow.keeps_run_bind.2 (keeps_authenticate ?_ looks ?_ ?_ ?_)
  · exact fun t x hc => .refused hc
  · intro t claims g hc hg
    obtain ⟨hfirst, hsecond⟩ := removes t claims g hc hg
    have failed : ∀ {e : Event} {h : List Event} {c : StoreCall} {x : TokenError}, e.Fails c →
        x.Inner → Left token (e :: h) (.error (AccountError.ofToken x)) := by
      intro e h c x he hx
      rw [show AccountError.ofToken x = .internal from hx]
      exact .failed he
    refine Flow.keeps_adapt.2 (Flow.keeps_run_bind.2 (Tokens.keeps_ask hfirst (fun d (m : Nat) hd => ?_)
      fun d x hd hx => failed hd hx))
    refine Flow.keeps_run_bind.2 (Tokens.keeps_ask (hsecond d m hd) (fun e (n : Nat) he => ?_)
      fun e x he hx => failed he hx)
    change Flow.Keeps sincere ids C (fun h r => Left token h (r.mapError AccountError.ofToken))
      (if m = 1 ∧ n = 1 then pure () else throw (.revocationIncomplete m n) : TokenFlow Unit).run
      [e, d, g, .read t]
    have hremoved := Left.removed hc hg hd he
    by_cases hmn : m = 1 ∧ n = 1
    · rw [if_pos hmn] at hremoved ⊢
      exact hremoved
    · rw [if_neg hmn] at hremoved ⊢
      exact hremoved
  · exact fun t claims g v hc hg hv => .missing hc hg hv
  · exact fun t claims g hc hg => .failed hg

/-- How a refresh ends well: it has removed the old refresh half, and then issued a pair. -/
inductive Renewed (ids : Nat → String) (terms : Terms) (token : String) :
    List Event → TokenPair → Prop where
  | mk {t : Clock} {claims : RefreshClaims} {g d : Event} {h : List Event} {p : TokenPair}
      (hc : RefreshClaims.ofToken t.wall token = .ok claims)
      (hg : g.Says (.get claims.refreshId) (some claims.subject.name))
      (hd : d.Says (.del [claims.refreshId]) (1 : Nat))
      (hp : Paired ids terms claims.subject [d, g, .read t] h p) : Renewed ids terms token h p

theorem keeps_refresh {a : Accounts} {token : String}
    {Q : List Event → Except AccountError TokenPair → Prop}
    (looks : ∀ (t : Clock) claims, RefreshClaims.ofToken t.wall token = .ok claims →
      C [.read t] (.store (.get claims.refreshId)))
    (removes : ∀ (t : Clock) claims g, RefreshClaims.ofToken t.wall token = .ok claims →
      g.Says (.get claims.refreshId) (some claims.subject.name) →
      C [g, .read t] (.store (.del [claims.refreshId])))
    (writes : ∀ (t : Clock) claims g d h c, RefreshClaims.ofToken t.wall token = .ok claims →
      g.Says (.get claims.refreshId) (some claims.subject.name) →
      d.Says (.del [claims.refreshId]) (1 : Nat) → Writes ids [d, g, .read t] h c → C h (.store c))
    (renewed : ∀ h p, Renewed ids a.terms token h p → Q h (.ok p))
    (failed : ∀ h x, Q h (.error x)) : (a.refresh ctx token).run.Keeps sincere ids C Q [] := by
  refine Flow.keeps_run_bind.2 fun t => ?_
  refine Flow.keeps_run_bind.2 ?_
  cases hc : RefreshClaims.ofToken t.wall token with
  | error x => exact failed _ _
  | ok claims =>
    refine Flow.keeps_run_bind.2 (keeps_confirm (looks t claims hc) (fun g hg => ?_)
      (fun _ _ _ _ => failed _ _) fun _ _ => failed _ _)
    refine Flow.keeps_run_bind.2 (Flow.keeps_adapt.2 (Tokens.keeps_ask (removes t claims g hc hg)
      (fun d (n : Nat) hd => ?_) fun _ _ _ _ => failed _ _))
    change Flow.Keeps sincere ids C Q
      (if n = 1 then a.login ctx claims.subject else throw .unauthorized : AccountFlow TokenPair).run
      [d, g, .read t]
    by_cases hn : n = 1
    · rw [if_pos hn]
      subst hn
      refine keeps_login (fun h c => writes t claims g d h c hc hg hd) ?_ failed
      exact fun h p hp => renewed h p (.mk hc hg hd hp)
    · rw [if_neg hn]
      exact failed _ _

end Accounts

namespace Allocator

variable {P : Answers} {ids : Nat → String} {a : Allocator} {ctx : Context} {day : Day}
  {token : LockToken}

def Calls (a : Allocator) : Call → Prop
  | .store c =>
    (∃ day, c = .incr (a.counterKey day)) ∨ ∃ day ttl, c = .expire (a.counterKey day) ttl
  | .lock _ _ | .unlock _ => True
  | .pause _ => False

theorem keeps_finish (h : List Event) (counted : Except AllocError Nat) :
    (a.finish day token counted).Keeps P ids (fun _ => a.Calls) (fun _ _ => True) h :=
  ⟨trivial, fun _ _ _ => trivial, fun _ _ => trivial⟩

theorem keeps_afterExpire (h : List Event) (n : Int)
    (o : Except Interrupted (Except StoreError Bool)) :
    (a.afterExpire day token n o).Keeps P ids (fun _ => a.Calls) (fun _ _ => True) h := by
  rcases o with i | e | b <;> exact keeps_finish h _

theorem keeps_afterIncr (h : List Event) (o : Except Interrupted (Except StoreError Int)) :
    (a.afterIncr ctx day token o).Keeps P ids (fun _ => a.Calls) (fun _ _ => True) h := by
  rcases o with i | e | n
  · exact keeps_finish h _
  · exact keeps_finish h _
  · intro clock
    exact ⟨.inr ⟨day, _, rfl⟩, fun _ _ _ => keeps_afterExpire _ _ _, fun _ _ => keeps_afterExpire _ _ _⟩

theorem keeps_allocate (h : List Event) :
    (a.allocate ctx day).Keeps P ids (fun _ => a.Calls) (fun _ _ => True) h := by
  have afterLock : ∀ h o,
      (a.afterLock ctx day o).Keeps P ids (fun _ => a.Calls) (fun _ _ => True) h := by
    intro h o
    rcases o with i | e | token
    · trivial
    · trivial
    · exact ⟨.inl ⟨day, rfl⟩, fun _ _ _ => keeps_afterIncr _ _, fun _ _ => keeps_afterIncr _ _⟩
  exact ⟨trivial, fun _ _ _ => afterLock _ _, fun _ _ => afterLock _ _⟩

theorem keeps_allocateToday (h : List Event) :
    (a.allocateToday ctx).Keeps P ids (fun _ => a.Calls) (fun _ _ => True) h := by
  intro clock
  dsimp only
  cases clock.today? with
  | none => trivial
  | some day => exact keeps_allocate _

end Allocator

theorem Order.keeps_flow {P : Answers} {ids : Nat → String} {a : Allocator} (o : Order)
    (h : List Event) : (o.flow a).Keeps P ids (fun _ => a.Calls) (fun _ _ => True) h := by
  cases o with
  | on ctx day => exact Allocator.keeps_allocate h
  | today ctx => exact Allocator.keeps_allocateToday h
  | request root timeout day => exact fun ctx => Allocator.keeps_allocate _

namespace Visit

inductive May (ids : Nat → String) : Visit → List Event → Call → Prop where
  | register {a : Accounts} {ctx : Context} {h : List Event} {c : Call}
      (hc : a.allocator.Calls c) : May ids (.register a ctx) h c
  | allocate {a : Allocator} {o : Order} {h : List Event} {c : Call} (hc : a.Calls c) :
      May ids (.allocate a o) h c
  | login {a : Accounts} {ctx : Context} {subject : Subject} {h : List Event} {c : StoreCall}
      (hw : Writes ids [] h c) : May ids (.login a ctx subject) h (.store c)
  | authenticate {ctx : Context} {token : String} {t : Clock} {claims : AccessClaims}
      (hc : AccessClaims.ofToken t.wall token = .ok claims) :
      May ids (.authenticate ctx token) [.read t] (.store (.get claims.accessId))
  | logoutLooks {ctx : Context} {token : String} {t : Clock} {claims : AccessClaims}
      (hc : AccessClaims.ofToken t.wall token = .ok claims) :
      May ids (.logout ctx token) [.read t] (.store (.get claims.accessId))
  | logoutAccess {ctx : Context} {token : String} {t : Clock} {claims : AccessClaims} {g : Event}
      (hc : AccessClaims.ofToken t.wall token = .ok claims)
      (hg : g.Says (.get claims.accessId) (some claims.subject.name)) :
      May ids (.logout ctx token) [g, .read t] (.store (.del [claims.accessId]))
  | logoutRefresh {ctx : Context} {token : String} {t : Clock} {claims : AccessClaims} {g d : Event}
      {m : Nat} (hc : AccessClaims.ofToken t.wall token = .ok claims)
      (hg : g.Says (.get claims.accessId) (some claims.subject.name))
      (hd : d.Says (.del [claims.accessId]) m) :
      May ids (.logout ctx token) [d, g, .read t] (.store (.del [claims.refreshId]))
  | refreshLooks {a : Accounts} {ctx : Context} {token : String} {t : Clock} {claims : RefreshClaims}
      (hc : RefreshClaims.ofToken t.wall token = .ok claims) :
      May ids (.refresh a ctx token) [.read t] (.store (.get claims.refreshId))
  | refreshRemoves {a : Accounts} {ctx : Context} {token : String} {t : Clock}
      {claims : RefreshClaims} {g : Event} (hc : RefreshClaims.ofToken t.wall token = .ok claims)
      (hg : g.Says (.get claims.refreshId) (some claims.subject.name)) :
      May ids (.refresh a ctx token) [g, .read t] (.store (.del [claims.refreshId]))
  | refreshWrites {a : Accounts} {ctx : Context} {token : String} {t : Clock}
      {claims : RefreshClaims} {g d : Event} {h : List Event} {c : StoreCall}
      (hc : RefreshClaims.ofToken t.wall token = .ok claims)
      (hg : g.Says (.get claims.refreshId) (some claims.subject.name))
      (hd : d.Says (.del [claims.refreshId]) (1 : Nat)) (hw : Writes ids [d, g, .read t] h c) :
      May ids (.refresh a ctx token) h (.store c)

/-- How a visit ends, after which trace. -/
def Ends (ids : Nat → String) : (v : Visit) → List Event → v.Yield → Prop
  | .login a _ subject, h, .ok p => Paired ids a.terms subject [] h p
  | .logout _ token, h, r => Accounts.Left token h r
  | .refresh a _ token, h, .ok p => Accounts.Renewed ids a.terms token h p
  | _, _, _ => True

theorem keeps (ids : Nat → String) (v : Visit) :
    v.flow.Keeps sincere ids (v.May ids) (v.Ends ids) [] := by
  cases v with
  | register a ctx =>
    refine Flow.keeps_run_bind.2 (Flow.keeps_adapt.2 ((Allocator.keeps_allocateToday _).imp ?_ ?_))
    · exact fun _ _ hc => .register hc
    · intro h r _
      cases r <;> trivial
  | allocate a o => exact (o.keeps_flow _).imp (fun _ _ hc => .allocate hc) fun _ _ _ => trivial
  | login a ctx subject =>
    exact Accounts.keeps_login (fun _ _ hw => .login hw) (fun _ _ hp => hp) fun _ _ => trivial
  | authenticate ctx token =>
    refine Accounts.keeps_authenticate (fun _ _ _ => ?_) (fun _ _ hc => .authenticate hc) ?_ ?_ ?_
    all_goals intros; trivial
  | logout ctx token =>
    exact Accounts.keeps_logout (fun _ _ hc => .logoutLooks hc) fun _ _ _ hc hg =>
      ⟨.logoutAccess hc hg, fun _ _ hd => .logoutRefresh hc hg hd⟩
  | refresh a ctx token =>
    exact Accounts.keeps_refresh (fun _ _ hc => .refreshLooks hc)
      (fun _ _ _ hc hg => .refreshRemoves hc hg)
      (fun _ _ _ _ _ _ hc hg hd hw => .refreshWrites hc hg hd hw) (fun _ _ hp => hp) fun _ _ => trivial

end Visit

end Registrar
