import Registrar.Proofs.Crowd.Hearing
import Registrar.Proofs.Office
set_option autoImplicit false

namespace Registrar

inductive Telling where
  | set (key value : String) (ttl : Span) (written : Bool)
  | get (key : String) (value : Option String)
  | del (keys : List String) (removed : Nat)
  | incr (key : String) (count : Int)
  | expire (key : String) (ttl : Span) (found : Bool)
  deriving DecidableEq, Repr

def StoreCall.telling : (c : StoreCall) → c.Answer → Telling
  | .set key value ttl, written => .set key value ttl written
  | .get key, value => .get key value
  | .del keys, removed => .del keys removed
  | .incr key, count => .incr key count
  | .expire key ttl, found => .expire key ttl found

namespace Hearing

def telling? : Hearing → Option Telling
  | .ended (.under _) (.store c) (.ok (.ok a)) => some (c.telling a)
  | _ => none

/-- The context of a store call is found dead, or the store answers with an error. -/
inductive Breaks : Hearing → Prop where
  | dead {w : World} {ctx : Context} {c : StoreCall}
      (h : ctx.isCancelled w.signals = true ∨ ctx.isDue w.now = true) :
      Breaks (.watched w (.under ctx) (.store c))
  | failed {ctx : Context} {c : StoreCall} {e : StoreError} :
      Breaks (.ended (.under ctx) (.store c) (.ok (.error e)))

def tellings (t : List Hearing) : List Telling := t.filterMap telling?

def Broken (t : List Hearing) : Prop := ∃ e ∈ t, e.Breaks

/-- Something within has failed: the context of a store call was dead when it was to be made or
awaited, the store answered with an error, or it did not confirm what it had to write. -/
inductive Failed (t : List Hearing) : Prop where
  | dead {w : World} {ctx : Context} {c : StoreCall} (h : .watched w (.under ctx) (.store c) ∈ t)
      (hdead : ctx.isCancelled w.signals = true ∨ ctx.isDue w.now = true)
  | error {ctx : Context} {c : StoreCall} {e : StoreError}
      (h : .ended (.under ctx) (.store c) (.ok (.error e)) ∈ t)
  | denied {key value : String} {ttl : Span} (h : .set key value ttl false ∈ tellings t)

/-- A credential has been refused. The reader gives what a token says at a moment: which entry stands
for it, and for whom. -/
inductive Refused (reader : Instant → Except TokenRefusal (String × Subject)) :
    List Hearing → Prop where
  | token {clock : Clock} {t : List Hearing} {e : TokenRefusal} (h : reader clock.wall = .error e) :
      Refused reader (.read clock :: t)
  | entry {clock : Clock} {t : List Hearing} {id : String} {claimed : Subject} {value : Option String}
      (h : reader clock.wall = .ok (id, claimed)) (hget : .get id value ∈ tellings t)
      (hvalue : value ≠ some claimed.name) : Refused reader (.read clock :: t)
  | removal {clock : Clock} {t : List Hearing} {keys : List String} {removed : Nat}
      (hdel : .del keys removed ∈ tellings t) (hremoved : removed ≠ 1) :
      Refused reader (.read clock :: t)

variable {t u : List Hearing} {clock : Clock}

@[simp] theorem tellings_nil : tellings [] = [] := rfl

@[simp] theorem tellings_read : tellings (.read clock :: t) = tellings t := rfl

theorem tellings_append : tellings (t ++ u) = tellings t ++ tellings u := List.filterMap_append

@[simp] theorem not_broken_nil : ¬ Broken [] := fun ⟨_, he, _⟩ => by cases he

theorem broken_append : Broken (t ++ u) ↔ Broken t ∨ Broken u := by
  simp only [Broken, List.mem_append, or_and_right, exists_or]

@[simp] theorem broken_read : Broken (.read clock :: t) ↔ Broken t := by
  constructor
  · rintro ⟨e, he, hb⟩
    rcases List.mem_cons.1 he with rfl | he
    · cases hb
    · exact ⟨e, he, hb⟩
  · rintro ⟨e, he, hb⟩
    exact ⟨e, List.mem_cons_of_mem _ he, hb⟩

theorem failed_iff :
    Failed t ↔ Broken t ∨ ∃ key value ttl, .set key value ttl false ∈ tellings t := by
  constructor
  · intro h
    cases h with
    | dead h hdead => exact .inl ⟨_, h, .dead hdead⟩
    | error h => exact .inl ⟨_, h, .failed⟩
    | denied h => exact .inr ⟨_, _, _, h⟩
  · rintro (⟨e, he, hb⟩ | ⟨key, value, ttl, h⟩)
    · cases hb with
      | dead h => exact .dead he h
      | failed => exact .error he
    · exact .denied h

theorem failed_append : Failed (t ++ u) ↔ Failed t ∨ Failed u := by
  simp only [failed_iff, broken_append, tellings_append, List.mem_append, exists_or]
  exact or_or_or_comm

@[simp] theorem failed_read : Failed (.read clock :: t) ↔ Failed t := by
  simp only [failed_iff, broken_read, tellings_read]

theorem refused_iff {reader : Instant → Except TokenRefusal (String × Subject)} {id : String}
    {claimed : Subject} (h : reader clock.wall = .ok (id, claimed)) :
    Refused reader (.read clock :: t) ↔
      (∃ value, .get id value ∈ tellings t ∧ value ≠ some claimed.name) ∨
      ∃ keys removed, .del keys removed ∈ tellings t ∧ removed ≠ 1 := by
  constructor
  · intro hrefused
    cases hrefused with
    | token he =>
      rw [h] at he
      cases he
    | entry he hget hvalue =>
      rw [h] at he
      cases he
      exact .inl ⟨_, hget, hvalue⟩
    | removal hdel hremoved => exact .inr ⟨_, _, hdel, hremoved⟩
  · rintro (⟨value, hget, hvalue⟩ | ⟨keys, removed, hdel, hremoved⟩)
    · exact .entry h hget hvalue
    · exact .removal hdel hremoved

end Hearing

open Hearing

theorem Context.interruption?_eq_none {ctx : Context} {s : Signals} {now : Tick} :
    ctx.interruption? s now = none ↔ ¬ (ctx.isCancelled s = true ∨ ctx.isDue now = true) := by
  unfold interruption?
  split
  · simp [*]
  · split
    · simp [*]
    · simp [*]

namespace Flow

variable {α β ε δ : Type}

theorem hears_run_bind {x : ExceptT ε Flow α} {k : α → ExceptT ε Flow β} {t : List Hearing}
    {r : Except ε β} (h : (x >>= k).run.Hears t r) :
    (∃ a t₁ t₂, t = t₁ ++ t₂ ∧ x.run.Hears t₁ (.ok a) ∧ (k a).run.Hears t₂ r) ∨
    ∃ e, r = .error e ∧ x.run.Hears t (.error e) := by
  obtain ⟨t₁, q, t₂, rfl, hx, hk⟩ := hears_bind h
  cases q with
  | ok a => exact .inl ⟨a, t₁, t₂, rfl, hx, hk⟩
  | error e =>
    cases hk
    exact .inr ⟨e, rfl, by rwa [List.append_nil]⟩

theorem hears_adapt {x : ExceptT ε Flow α} {f : ε → δ} {t : List Hearing} {r : Except δ α}
    (h : (x.adapt f).run.Hears t r) : ∃ q, r = q.mapError f ∧ x.run.Hears t q := by
  obtain ⟨t₁, q, t₂, rfl, hx, hk⟩ := hears_bind h
  cases hk
  exact ⟨q, rfl, by rwa [List.append_nil]⟩

theorem hears_run_clock {k : Clock → ExceptT ε Flow β} {t : List Hearing} {r : Except ε β}
    (h : ((ExceptT.mk (.now fun t => .done (.ok t)) : ExceptT ε Flow Clock) >>= k).run.Hears t r) :
    ∃ clock u, t = .read clock :: u ∧ (k clock).run.Hears u r := by
  have hnow : (Flow.now fun clock => (k clock).run).Hears t r := h
  cases hnow with
  | now clock h => exact ⟨clock, _, rfl, h⟩

theorem hears_run_mint {k : String → ExceptT ε Flow β} {t : List Hearing} {r : Except ε β}
    (h : ((ExceptT.mk (.mint fun id => .done (.ok id)) : ExceptT ε Flow String) >>= k).run.Hears t r) :
    ∃ id, (k id).run.Hears t r := by
  have hmint : (Flow.mint fun id => (k id).run).Hears t r := h
  cases hmint with
  | mint id h => exact ⟨id, h⟩

theorem hears_done {a b : α} {t : List Hearing} (h : (Flow.done a).Hears t b) : t = [] ∧ b = a := by
  cases h
  exact ⟨rfl, rfl⟩

end Flow

namespace Tokens

variable {ctx : Context} {t : List Hearing}

section

variable {c : StoreCall} {ws : List World} {w : World}
    {o : Except Interrupted (Except StoreError c.Answer)}

theorem tellings_call : tellings (ws.map (.watched · (.under ctx) (.store c)) ++
    [.watched w (.under ctx) (.store c), .ended (.under ctx) (.store c) o]) =
    tellings [.ended (.under ctx) (.store c) o] := by
  rw [tellings_append]
  induction ws with
  | nil => rfl
  | cons v ws ih => exact ih

theorem broken_call (hws : ∀ v ∈ ws, ctx.interruption? v.signals v.now = none) :
    Broken (ws.map (.watched · (.under ctx) (.store c)) ++
      [.watched w (.under ctx) (.store c), .ended (.under ctx) (.store c) o]) ↔
    ctx.interruption? w.signals w.now ≠ none ∨ ∃ e, o = .ok (.error e) := by
  constructor
  · rintro ⟨e, he, hb⟩
    rcases List.mem_append.1 he with he | he
    · obtain ⟨v, hv, rfl⟩ := List.mem_map.1 he
      cases hb with
      | dead h => exact absurd h (Context.interruption?_eq_none.1 (hws v hv))
    · rcases List.mem_pair.1 he with rfl | rfl
      · cases hb with
        | dead h => exact .inl fun hnone => Context.interruption?_eq_none.1 hnone h
      · cases hb with
        | failed => exact .inr ⟨_, rfl⟩
  · rintro (hdead | ⟨e, rfl⟩)
    · have hdead := not_imp_comm.1 Context.interruption?_eq_none.2 hdead
      exact ⟨_, List.mem_append_right _ List.mem_cons_self, .dead hdead⟩
    · exact ⟨_, List.mem_append_right _ (List.mem_cons_of_mem _ List.mem_cons_self), .failed⟩

end

theorem hears_ask {c : StoreCall} {r : Except TokenError c.Answer}
    (h : (ask ctx c).run.Hears t r) :
    match r with
    | .ok a => ¬ Broken t ∧ tellings t = [c.telling a]
    | .error x => Broken t ∧ x.Inner := by
  have hcall : (Flow.call (.under ctx) (.store c) none fun o => .done (answer o)).Hears t r := h
  cases hcall with
  | @call _ _ _ _ _ _ ws w o hws ho hk =>
    obtain ⟨rfl, rfl⟩ := Flow.hears_done hk
    have hws : ∀ v ∈ ws, ctx.interruption? v.signals v.now = none :=
      fun v hv => Option.map_eq_none_iff.1 (hws v hv)
    -- All looks but the last one found the context alive, so a breach shows in the last one.
    rcases ho with hcut | ⟨hlive, ⟨a, rfl⟩ | ⟨v, lapse, hlate⟩⟩
    · obtain ⟨i, hi, rfl⟩ := Option.map_eq_some_iff.1 hcut
      exact ⟨(broken_call hws).2 (.inl (by simp [hi])), rfl⟩
    · have hlive : ctx.interruption? w.signals w.now = none := Option.map_eq_none_iff.1 hlive
      cases a with
      | error e => exact ⟨(broken_call hws).2 (.inr ⟨e, rfl⟩), rfl⟩
      | ok a =>
        refine ⟨fun hb => ?_, tellings_call⟩
        rcases (broken_call hws).1 hb with hdead | ⟨e, he⟩
        · exact hdead hlive
        · cases he
    · cases hlate

def Lost {α : Type} (t : List Hearing) (r : Except TokenError α) : Prop :=
  Broken t ∧ ∃ x, r = .error x ∧ x.Inner

theorem Lost.after {α : Type} {r : Except TokenError α} (t₁ : List Hearing) (h : Lost t r) :
    Lost (t₁ ++ t) r := ⟨broken_append.2 (.inr h.1), h.2⟩

theorem hears_ask_bind {α : Type} {c : StoreCall} {k : c.Answer → TokenFlow α}
    {r : Except TokenError α} (h : (ask ctx c >>= k).run.Hears t r) :
    Lost t r ∨ ∃ a t₁ t₂, t = t₁ ++ t₂ ∧ ¬ Broken t₁ ∧ tellings t₁ = [c.telling a] ∧
      (k a).run.Hears t₂ r := by
  rcases Flow.hears_run_bind h with ⟨a, t₁, t₂, rfl, hask, hk⟩ | ⟨x, rfl, hask⟩
  · obtain ⟨hb, ha⟩ := hears_ask hask
    exact .inr ⟨a, t₁, t₂, rfl, hb, ha, hk⟩
  · obtain ⟨hb, hx⟩ := hears_ask hask
    exact .inl ⟨hb, x, rfl, hx⟩

theorem hears_resolve {id : String} {r : Except TokenError Subject}
    (h : (resolve ctx id).run.Hears t r) :
    Lost t r ∨ ¬ Broken t ∧ ∃ value : Option String, tellings t = [.get id value] ∧
      r = value.elim (.error .notFound) fun name => .ok ⟨name⟩ := by
  rcases hears_ask_bind (c := .get id) h with hlost | ⟨(value : Option String), t₁, t₂, rfl, hb, ha, hk⟩
  · exact .inl hlost
  have hend : t₂ = [] ∧ r = value.elim (.error .notFound) fun name => .ok ⟨name⟩ := by
    cases value with
    | none => exact Flow.hears_done hk
    | some name => exact Flow.hears_done hk
  obtain ⟨rfl, hr⟩ := hend
  rw [List.append_nil]
  exact .inr ⟨hb, value, ha, hr⟩

theorem hears_revoke {a : Access} {r : Except TokenError Unit} (h : (revoke ctx a).run.Hears t r) :
    Lost t r ∨ ¬ Broken t ∧ ∃ m n : Nat,
      tellings t = [.del [a.accessId] m, .del [a.refreshId] n] ∧
      r = if m = 1 ∧ n = 1 then .ok () else .error (.revocationIncomplete m n) := by
  rcases hears_ask_bind (c := .del [a.accessId]) h with hlost | ⟨(m : Nat), t₁, t₂, rfl, hb, hm, hk⟩
  · exact .inl hlost
  rcases hears_ask_bind (c := .del [a.refreshId]) hk with hlost | ⟨(n : Nat), t₃, t₄, rfl, hb', hn, hk⟩
  · exact .inl (hlost.after t₁)
  have hend : t₄ = [] ∧ r =
      if m = 1 ∧ n = 1 then .ok () else .error (.revocationIncomplete m n) := by
    split at hk
    · rw [if_pos ‹_›]
      exact Flow.hears_done hk
    · rw [if_neg ‹_›]
      exact Flow.hears_done hk
  obtain ⟨rfl, hr⟩ := hend
  refine .inr ⟨?_, m, n, ?_, hr⟩
  · simp [broken_append, hb, hb']
  · rw [tellings_append, tellings_append, hm, hn]
    rfl

theorem hears_record {subject : Subject} {p : TokenPair} {r : Except TokenError Unit}
    (h : (record ctx subject p).run.Hears t r) :
    Lost t r ∨ ¬ Broken t ∧ ∃ (ttl span : Span) (b c : Bool),
      tellings t = [.set p.accessId subject.name ttl b, .set p.refreshId subject.name span c] ∧
      (b = true ∧ c = true ∧ r = .ok () ∨
        (b = false ∨ c = false) ∧ ∃ x, r = .error x ∧ x.Inner) := by
  obtain ⟨clock, u, rfl, hk⟩ := Flow.hears_run_clock h
  generalize clock.wall.untilInstant p.accessExpiry = ttl at hk
  generalize clock.wall.untilInstant p.refreshExpiry = span at hk
  rcases hears_ask_bind (c := .set p.accessId subject.name ttl) hk with
    hlost | ⟨(b : Bool), t₁, t₂, rfl, hb, ha, hk⟩
  · exact .inl (hlost.after [.read clock])
  rcases hears_ask_bind (c := .set p.refreshId subject.name span) hk with
    hlost | ⟨(c : Bool), t₃, t₄, rfl, hb', hr, hk⟩
  · exact .inl (hlost.after (.read clock :: t₁))
  have hend : t₄ = [] ∧ (b = true ∧ c = true ∧ r = .ok () ∨
      (b = false ∨ c = false) ∧ ∃ x, r = .error x ∧ x.Inner) := by
    cases b with
    | false =>
      obtain ⟨rfl, rfl⟩ := Flow.hears_done hk
      exact ⟨rfl, .inr ⟨.inl rfl, _, rfl, rfl⟩⟩
    | true =>
      cases c with
      | false =>
        obtain ⟨rfl, rfl⟩ := Flow.hears_done hk
        exact ⟨rfl, .inr ⟨.inr rfl, _, rfl, rfl⟩⟩
      | true =>
        obtain ⟨rfl, rfl⟩ := Flow.hears_done hk
        exact ⟨rfl, .inl ⟨rfl, rfl, rfl⟩⟩
  obtain ⟨rfl, hend⟩ := hend
  refine .inr ⟨?_, ttl, span, b, c, ?_, hend⟩
  · simp [broken_append, hb, hb']
  · rw [tellings_read, tellings_append, tellings_append, ha, hr]
    rfl

end Tokens

/-- How a visit ends where something within may have failed, and its credential may be refused. -/
inductive Verdict {α : Type} (failed refused : Prop) : Except AccountError α → Prop where
  | failed (hf : failed) : Verdict failed refused (.error .internal)
  | refused (hf : ¬ failed) (hr : refused) : Verdict failed refused (.error .unauthorized)
  | granted (hf : ¬ failed) (hr : ¬ refused) (a : α) : Verdict failed refused (.ok a)

namespace Accounts

variable {ctx : Context} {t : List Hearing}

theorem failed_of_broken (h : Broken t) : Failed t := failed_iff.2 (.inl h)

theorem hears_tokens {α β : Type} {f : TokenFlow α} {k : α → AccountFlow β}
    {r : Except AccountError β} (h : (tokens f >>= k).run.Hears t r) :
    (∃ a t₁ t₂, t = t₁ ++ t₂ ∧ f.run.Hears t₁ (.ok a) ∧ (k a).run.Hears t₂ r) ∨
    ∃ x, r = .error (.ofToken x) ∧ f.run.Hears t (.error x) := by
  rcases Flow.hears_run_bind h with ⟨a, t₁, t₂, rfl, hf, hk⟩ | ⟨e, rfl, hf⟩
  · obtain ⟨q, hq, hears⟩ := Flow.hears_adapt hf
    cases q with
    | ok b =>
      cases hq
      exact .inl ⟨a, t₁, t₂, rfl, hears, hk⟩
    | error x => cases hq
  · obtain ⟨q, hq, hears⟩ := Flow.hears_adapt hf
    cases q with
    | ok b => cases hq
    | error x =>
      cases hq
      exact .inr ⟨x, rfl, hears⟩

theorem hears_expiry {α : Type} {clock : Clock} {ttl : Span} {k : Instant → AccountFlow α}
    {r : Except AccountError α} (h : (expiry clock ttl >>= k).run.Hears t r) :
    ∃ e, (k e).run.Hears t r := by
  unfold expiry at h
  cases he : clock.wall.after? ttl with
  | none =>
    rw [he] at h
    have hcrash : (Flow.crash : Flow (Except AccountError α)).Hears t r := h
    cases hcrash
  | some e =>
    rw [he] at h
    exact ⟨e, h⟩

theorem hears_login {a : Accounts} {subject : Subject} {r : Except AccountError TokenPair}
    (h : (a.login ctx subject).run.Hears t r) :
    Failed t ∧ r = .error .internal ∨ ¬ Failed t ∧ ∃ p v w ttl span,
      tellings t = [.set v subject.name ttl true, .set w subject.name span true] ∧ r = .ok p := by
  obtain ⟨clock, u, rfl, hclock⟩ := Flow.hears_run_clock h
  obtain ⟨accessId, hmint⟩ := Flow.hears_run_mint hclock
  obtain ⟨refreshId, hmint⟩ := Flow.hears_run_mint hmint
  obtain ⟨accessExpiry, hk⟩ := hears_expiry hmint
  obtain ⟨refreshExpiry, hk⟩ := hears_expiry hk
  generalize pair subject accessId refreshId accessExpiry refreshExpiry = p at hk
  rcases hears_tokens hk with ⟨⟨⟩, t₁, t₂, rfl, hrecord, hdone⟩ | ⟨x, rfl, hrecord⟩
  · obtain ⟨rfl, rfl⟩ := Flow.hears_done hdone
    rcases Tokens.hears_record hrecord with ⟨-, x, hx, -⟩ | ⟨hb, ttl, span, b, c, ht, hend⟩
    · cases hx
    rcases hend with ⟨rfl, rfl, -⟩ | ⟨-, x, hx, -⟩
    · refine .inr ⟨?_, p, p.accessId, p.refreshId, ttl, span, ?_, rfl⟩
      · simp [failed_iff, hb, ht]
      · simp [ht]
    · cases hx
  · rcases Tokens.hears_record hrecord with ⟨hb, y, hy, hx⟩ | ⟨hb, ttl, span, b, c, ht, hend⟩
    · cases hy
      exact .inl ⟨failed_of_broken (by simpa using hb), congrArg Except.error hx⟩
    rcases hend with ⟨-, -, hx⟩ | ⟨hdenied, y, hy, hx⟩
    · cases hx
    · cases hy
      refine .inl ⟨failed_iff.2 (.inr ?_), congrArg Except.error hx⟩
      rw [tellings_read, ht]
      rcases hdenied with rfl | rfl
      · exact ⟨_, _, _, List.mem_cons_self⟩
      · exact ⟨_, _, _, List.mem_cons_of_mem _ List.mem_cons_self⟩

theorem hears_confirm {id : String} {claimed : Subject} {r : Except AccountError Subject}
    (h : (confirm ctx id claimed).run.Hears t r) :
    Failed t ∧ r = .error .internal ∨ ¬ Broken t ∧ ∃ value, tellings t = [.get id value] ∧
      r = if value = some claimed.name then .ok claimed else .error .unauthorized := by
  rcases hears_tokens h with ⟨subject, t₁, t₂, rfl, hresolve, hk⟩ | ⟨x, rfl, hresolve⟩
  · rcases Tokens.hears_resolve hresolve with ⟨-, x, hx, -⟩ | ⟨hb, value, ht, hv⟩
    · cases hx
    cases value with
    | none => cases hv
    | some name =>
      cases hv
      have hend : t₂ = [] ∧ r = if some name = some claimed.name then .ok claimed
          else .error .unauthorized := by
        obtain ⟨other⟩ := claimed
        by_cases hname : name = other
        · subst hname
          rw [if_pos rfl] at hk ⊢
          exact Flow.hears_done hk
        · rw [if_neg (by simpa using hname)] at hk ⊢
          exact Flow.hears_done hk
      obtain ⟨rfl, hr⟩ := hend
      rw [List.append_nil]
      exact .inr ⟨hb, some name, ht, hr⟩
  · rcases Tokens.hears_resolve hresolve with ⟨hb, y, hy, hx⟩ | ⟨hb, value, ht, hv⟩
    · cases hy
      exact .inl ⟨failed_of_broken hb, congrArg Except.error hx⟩
    cases value with
    | none =>
      cases hv
      exact .inr ⟨hb, none, ht, rfl⟩
    | some name => cases hv

def accessReader (token : String) (now : Instant) : Except TokenRefusal (String × Subject) :=
  (AccessClaims.ofToken now token).map fun claims => (claims.accessId, claims.subject)

def refreshReader (token : String) (now : Instant) : Except TokenRefusal (String × Subject) :=
  (RefreshClaims.ofToken now token).map fun claims => (claims.refreshId, claims.subject)

theorem hears_authenticate {token : String} {r : Except AccountError Access}
    (h : (authenticate ctx token).run.Hears t r) : ∃ clock u, t = .read clock :: u ∧
      ((∃ e, AccessClaims.ofToken clock.wall token = .error e ∧ u = [] ∧ r = .error .unauthorized) ∨
      ∃ claims, AccessClaims.ofToken clock.wall token = .ok claims ∧
        (Failed u ∧ r = .error .internal ∨ ¬ Broken u ∧ ∃ value,
          tellings u = [.get claims.accessId value] ∧
          r = if value = some claims.subject.name then
              .ok ⟨claims.accessId, claims.refreshId, claims.subject⟩
            else .error .unauthorized)) := by
  obtain ⟨clock, u, rfl, hread⟩ := Flow.hears_run_clock h
  refine ⟨clock, u, rfl, ?_⟩
  cases hclaims : AccessClaims.ofToken clock.wall token with
  | error e =>
    rw [hclaims] at hread
    obtain ⟨rfl, rfl⟩ := Flow.hears_done hread
    cases e <;> exact .inl ⟨_, rfl, rfl, rfl⟩
  | ok claims =>
    rw [hclaims] at hread
    refine .inr ⟨claims, rfl, ?_⟩
    have hconfirm : (do
        let subject ← confirm ctx claims.accessId claims.subject
        pure ⟨claims.accessId, claims.refreshId, subject⟩ : AccountFlow Access).run.Hears u r := hread
    rcases Flow.hears_run_bind hconfirm with ⟨subject, t₁, t₂, rfl, hc, hdone⟩ | ⟨e, rfl, hc⟩
    · obtain ⟨rfl, rfl⟩ := Flow.hears_done hdone
      rw [List.append_nil]
      rcases hears_confirm hc with ⟨-, hr⟩ | ⟨hb, value, ht, hr⟩
      · cases hr
      · refine .inr ⟨hb, value, ht, ?_⟩
        split at hr
        · cases hr
          rw [if_pos ‹_›]
        · cases hr
    · rcases hears_confirm hc with ⟨hf, hr⟩ | ⟨hb, value, ht, hr⟩
      · cases hr
        exact .inl ⟨hf, rfl⟩
      · refine .inr ⟨hb, value, ht, ?_⟩
        split at hr
        · cases hr
        · cases hr
          rw [if_neg ‹_›]

theorem verdict_login {a : Accounts} {subject : Subject} {r : Except AccountError TokenPair}
    (h : (a.login ctx subject).run.Hears t r) : Verdict (Failed t) False r := by
  rcases hears_login h with ⟨hf, rfl⟩ | ⟨hf, p, v, w, ttl, span, -, rfl⟩
  · exact .failed hf
  · exact .granted hf id p

theorem verdict_authenticate {token : String} {r : Except AccountError Access}
    (h : (authenticate ctx token).run.Hears t r) :
    Verdict (Failed t) (Refused (accessReader token) t) r := by
  obtain ⟨clock, u, rfl, hread⟩ := hears_authenticate h
  rcases hread with ⟨e, hclaims, rfl, rfl⟩ | ⟨claims, hclaims, hread⟩
  · exact .refused (by simp [failed_iff]) (.token (e := e) (by simp [accessReader, hclaims, Except.map]))
  have hreader : accessReader token clock.wall = .ok (claims.accessId, claims.subject) := by
    simp [accessReader, hclaims, Except.map]
  rcases hread with ⟨hf, rfl⟩ | ⟨hb, value, ht, rfl⟩
  · exact .failed (failed_read.2 hf)
  have hf : ¬ Failed (.read clock :: u) := by simp [failed_iff, hb, ht]
  split
  · exact .granted hf (by simp_all [refused_iff hreader]) _
  · exact .refused hf ((refused_iff hreader).2 (.inl ⟨value, by simp [ht], ‹_›⟩))

theorem hears_authenticate_ok {token : String} {access : Access}
    (h : (authenticate ctx token).run.Hears t (.ok access)) :
    ∃ clock u claimed, t = .read clock :: u ∧
      accessReader token clock.wall = .ok (access.accessId, claimed) ∧ ¬ Broken u ∧
      tellings u = [.get access.accessId (some claimed.name)] := by
  obtain ⟨clock, u, rfl, hread⟩ := hears_authenticate h
  rcases hread with ⟨e, -, -, hr⟩ | ⟨claims, hclaims, hread⟩
  · cases hr
  rcases hread with ⟨-, hr⟩ | ⟨hb, value, ht, hr⟩
  · cases hr
  split at hr
  · rename_i hvalue
    cases hr
    subst hvalue
    exact ⟨clock, u, claims.subject, rfl, by simp [accessReader, hclaims, Except.map], hb, ht⟩
  · cases hr

theorem verdict_logout {token : String} {r : Except AccountError Unit}
    (h : (logout ctx token).run.Hears t r) :
    Verdict (Failed t) (Refused (accessReader token) t) r := by
  rcases Flow.hears_run_bind h with ⟨access, t₁, t₂, rfl, hauth, hk⟩ | ⟨e, rfl, hauth⟩
  · obtain ⟨clock, u, claimed, rfl, hreader, hb, ht⟩ := hears_authenticate_ok hauth
    obtain ⟨q, rfl, hrevoke⟩ := Flow.hears_adapt hk
    rw [List.cons_append]
    rcases Tokens.hears_revoke hrevoke with ⟨hb', x, rfl, hx⟩ | ⟨hb', m, n, ht', rfl⟩
    · rw [show Except.mapError AccountError.ofToken (.error x : Except TokenError Unit) =
        .error .internal from congrArg Except.error hx]
      exact .failed (failed_of_broken (by simp [broken_append, hb']))
    have htellings : tellings (u ++ t₂) = [.get access.accessId (some claimed.name),
        .del [access.accessId] m, .del [access.refreshId] n] := by
      rw [tellings_append, ht, ht']
      rfl
    have hf : ¬ Failed (.read clock :: (u ++ t₂)) := by
      simp [failed_iff, broken_append, hb, hb', htellings]
    have hrefused : Refused (accessReader token) (.read clock :: (u ++ t₂)) ↔ ¬ (m = 1 ∧ n = 1) := by
      rw [refused_iff hreader, htellings, not_and_or]
      simp [or_and_right, exists_or, and_assoc]
    split
    · exact .granted hf (fun hr => hrefused.1 hr ‹_›) ()
    · exact .refused hf (hrefused.2 ‹_›)
  · have hverdict := verdict_authenticate hauth
    cases hverdict with
    | failed hf => exact .failed hf
    | refused hf hr => exact .refused hf hr

theorem hears_renewal {a : Accounts} {id : String} {subject : Subject}
    {r : Except AccountError TokenPair}
    (h : (do
      let removed ← tokens (Tokens.revokeOne ctx id)
      if removed = 1 then a.login ctx subject else throw .unauthorized :
        AccountFlow TokenPair).run.Hears t r) :
    Failed t ∧ r = .error .internal ∨ ¬ Failed t ∧
      ((∃ p v w ttl span, tellings t = [.del [id] 1, .set v subject.name ttl true,
        .set w subject.name span true] ∧ r = .ok p) ∨
      ∃ n, n ≠ 1 ∧ tellings t = [.del [id] n] ∧ r = .error .unauthorized) := by
  rcases hears_tokens h with ⟨(n : Nat), t₁, t₂, rfl, hdel, hk⟩ | ⟨x, rfl, hdel⟩
  · obtain ⟨hb, ht⟩ := Tokens.hears_ask (c := .del [id]) hdel
    have ht : tellings t₁ = [.del [id] n] := ht
    by_cases hn : n = 1
    · subst hn
      have hlogin : (a.login ctx subject).run.Hears t₂ r := hk
      rcases hears_login hlogin with ⟨hf, rfl⟩ | ⟨hf, p, v, w, ttl, span, ht', rfl⟩
      · exact .inl ⟨failed_append.2 (.inr hf), rfl⟩
      · have hfirst : ¬ Failed t₁ := by simp [failed_iff, hb, ht]
        refine .inr ⟨fun hfailed => (failed_append.1 hfailed).elim hfirst hf, .inl ?_⟩
        refine ⟨p, v, w, ttl, span, ?_, rfl⟩
        rw [tellings_append, ht, ht']
        rfl
    · have hdone : t₂ = [] ∧ r = .error .unauthorized := by
        rw [if_neg hn] at hk
        exact Flow.hears_done hk
      obtain ⟨rfl, rfl⟩ := hdone
      rw [List.append_nil]
      exact .inr ⟨by simp [failed_iff, hb, ht], .inr ⟨n, hn, ht, rfl⟩⟩
  · obtain ⟨hb, hx⟩ := Tokens.hears_ask (c := .del [id]) hdel
    exact .inl ⟨failed_of_broken hb, congrArg Except.error hx⟩

theorem verdict_refresh {a : Accounts} {token : String} {r : Except AccountError TokenPair}
    (h : (a.refresh ctx token).run.Hears t r) :
    Verdict (Failed t) (Refused (refreshReader token) t) r := by
  obtain ⟨clock, u, rfl, hread⟩ := Flow.hears_run_clock h
  cases hclaims : RefreshClaims.ofToken clock.wall token with
  | error e =>
    rw [hclaims] at hread
    obtain ⟨rfl, rfl⟩ := Flow.hears_done hread
    cases e <;>
      exact .refused (by simp [failed_iff])
        (.token (e := _) (by simp only [refreshReader, hclaims]; rfl))
  | ok claims =>
    have hreader : refreshReader token clock.wall = .ok (claims.refreshId, claims.subject) := by
      simp [refreshReader, hclaims, Except.map]
    rw [hclaims] at hread
    have hrest : (do
        let subject ← confirm ctx claims.refreshId claims.subject
        let removed ← tokens (Tokens.revokeOne ctx claims.refreshId)
        if removed = 1 then a.login ctx subject else throw .unauthorized :
          AccountFlow TokenPair).run.Hears u r := hread
    rcases Flow.hears_run_bind hrest with ⟨subject, t₁, t₂, rfl, hconfirm, hk⟩ | ⟨e, rfl, hconfirm⟩
    · rcases hears_confirm hconfirm with ⟨-, hr⟩ | ⟨hb, value, ht, hr⟩
      · cases hr
      split at hr
      · rename_i hvalue
        cases hr
        subst hvalue
        have hfirst : ¬ Failed t₁ := by simp [failed_iff, hb, ht]
        rcases hears_renewal hk with ⟨hf, rfl⟩ | ⟨hf, hend⟩
        · exact .failed (failed_read.2 (failed_append.2 (.inr hf)))
        have hnot : ¬ Failed (.read clock :: (t₁ ++ t₂)) := fun hfailed =>
          (failed_append.1 (failed_read.1 hfailed)).elim hfirst hf
        rcases hend with ⟨p, v, w, ttl, span, ht', rfl⟩ | ⟨n, hn, ht', rfl⟩
        · refine .granted hnot ?_ p
          simp [refused_iff hreader, tellings_append, ht, ht']
        · refine .refused hnot ((refused_iff hreader).2 (.inr ⟨[claims.refreshId], n, ?_, hn⟩))
          simp [tellings_append, ht']
      · cases hr
    · rcases hears_confirm hconfirm with ⟨hf, hr⟩ | ⟨hb, value, ht, hr⟩
      · cases hr
        exact .failed (failed_read.2 hf)
      split at hr
      · cases hr
      · cases hr
        exact .refused (by simp [failed_iff, hb, ht])
          ((refused_iff hreader).2 (.inl ⟨value, by simp [ht], ‹_›⟩))

end Accounts

end Registrar
