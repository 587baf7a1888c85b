import Registrar.Proofs.Crowd.UpToErrors
import Registrar.Proofs.Office.Issue
import Registrar.Proofs.Office.Verdict
/-!
Faults at the office: no visit looks into the errors of the store, so the answer to a session's visit
tells a fault from a bad credential whatever these errors are. Main statement:
`Crowd.faults_not_confused`.
-/
set_option autoImplicit false

namespace Registrar

theorem Call.UpToErrors.store {c : StoreCall} {a b : Except StoreError c.Answer}
    (h : Call.UpToErrors (.store c) a b) : a = b ∨ ∃ e e', a = .error e ∧ b = .error e' := by
  have hab : a.toOption = b.toOption := h
  cases a with
  | ok a =>
    cases b with
    | ok b =>
      cases hab
      exact .inl rfl
    | error e => cases hab
  | error e =>
    cases b with
    | ok b => cases hab
    | error e' => exact .inr ⟨e, e', rfl, rfl⟩

theorem Guard.UpToErrors.under {ctx : Context} {c : StoreCall}
    {o o' : (Guard.under ctx).Outcome (Call.store c).Answer}
    (h : (Guard.under ctx).UpToErrors (.store c) o o') :
    o = o' ∨ ∃ e e' : StoreError, o = Except.ok (Except.error e) ∧ o' = Except.ok (Except.error e') := by
  cases h with
  | same => exact .inl rfl
  | answered hab =>
    rcases Call.UpToErrors.store hab with rfl | ⟨e, e', rfl, rfl⟩
    · exact .inl rfl
    · exact .inr ⟨e, e', rfl, rfl⟩

theorem Guard.UpToErrors.eq {g : Guard} {c : Call} {o o' : g.Outcome c.Answer}
    (h : g.UpToErrors c o o') (hc : ∀ a b, c.UpToErrors a b → a = b) : o = o' := by
  cases h with
  | same => rfl
  | answered hab => rw [hc _ _ hab]

section

variable {α β ε δ γ : Type}

/-- Results that agree but for what the map of their errors leaves out. -/
def Agree (f : ε → δ) (r r' : Except ε α) : Prop := r.mapError f = r'.mapError f

/-- Which errors the store gives can be told from the result no more than the map lets through. -/
def Blind (f : ε → δ) (x : ExceptT ε Flow α) : Prop := x.run.UpToErrors (Agree f) x.run

namespace Blind

theorem pure {f : ε → δ} (a : α) : Blind f (.mk (.done (.ok a))) := .done rfl

theorem error {f : ε → δ} (e : ε) : Blind f (.mk (.done (.error e)) : ExceptT ε Flow α) := .done rfl

theorem bind {f : ε → δ} {x : ExceptT ε Flow α} {k : α → ExceptT ε Flow β} (hx : Blind f x)
    (hk : ∀ a, Blind f (k a)) : Blind f (x >>= k) := by
  refine Flow.UpToErrors.bind hx fun r r' h => ?_
  cases r with
  | ok a =>
    cases r' with
    | ok b =>
      cases h
      exact hk a
    | error e => cases h
  | error e =>
    cases r' with
    | ok b => cases h
    | error e' => exact .done (congrArg Except.error (Except.error.inj h))

theorem adapt {f : δ → γ} {g : ε → δ} {x : ExceptT ε Flow α} (hx : Blind (f ∘ g) x) :
    Blind f (x.adapt g) := by
  refine Flow.UpToErrors.bind hx fun r r' h => .done ?_
  cases r <;> cases r' <;> exact h

end Blind

end

namespace Tokens

variable {ctx : Context}

theorem blind_ask (c : StoreCall) : Blind AccountError.ofToken (ask ctx c) := by
  refine .call fun o o' h => .done ?_
  rcases Guard.UpToErrors.under h with rfl | ⟨e, e', rfl, rfl⟩
  · rfl
  · rfl

theorem blind_clock : Blind AccountError.ofToken clock := .now fun _ => .done rfl

theorem blind_record (subject : Subject) (p : TokenPair) :
    Blind AccountError.ofToken (record ctx subject p) := by
  refine blind_clock.bind fun t => ?_
  refine (blind_ask (.set _ _ _)).bind fun (access : Bool) => ?_
  refine (blind_ask (.set _ _ _)).bind fun (refresh : Bool) => ?_
  cases access with
  | false => exact .error _
  | true =>
    cases refresh with
    | false => exact .error _
    | true => exact .pure ()

theorem blind_resolve (id : String) : Blind AccountError.ofToken (resolve ctx id) := by
  refine (blind_ask (.get id)).bind fun (value : Option String) => ?_
  cases value with
  | none => exact .error _
  | some name => exact .pure _

theorem blind_revoke (a : Access) : Blind AccountError.ofToken (revoke ctx a) := by
  refine (blind_ask (.del [a.accessId])).bind fun (access : Nat) => ?_
  refine (blind_ask (.del [a.refreshId])).bind fun (refresh : Nat) => ?_
  change Blind _ (if access = 1 ∧ refresh = 1 then _ else _)
  split
  · exact .pure ()
  · exact .error _

end Tokens

namespace Allocator

variable {a : Allocator} {ctx : Context} {day : Day} {token : LockToken}

theorem blind_finish {counted counted' : Except AllocError Nat}
    (h : counted.toOption = counted'.toOption) :
    (a.finish day token counted).UpToErrors (Agree AccountError.ofAlloc)
      (a.finish day token counted') := by
  refine .call fun o o' ho => .done ?_
  obtain rfl := ho.eq fun _ _ h => h
  cases counted with
  | ok n =>
    cases counted' with
    | ok m =>
      cases h
      rfl
    | error e => cases h
  | error e =>
    cases counted' with
    | ok m => cases h
    | error e' => rfl

theorem blind_allocate : Blind AccountError.ofAlloc (.mk (a.allocate ctx day)) := by
  refine .call fun o o' ho => ?_
  obtain rfl := ho.eq fun _ _ h => h
  rcases o with i | e | token
  · exact .done rfl
  · exact .done rfl
  refine .call fun o o' ho => ?_
  rcases Guard.UpToErrors.under ho with rfl | ⟨e, e', rfl, rfl⟩
  · rcases o with i | e | n
    · exact blind_finish rfl
    · exact blind_finish rfl
    refine .now fun t => .call fun o o' ho => ?_
    rcases Guard.UpToErrors.under ho with rfl | ⟨e, e', rfl, rfl⟩
    · rcases o with i | e | found
      · exact blind_finish rfl
      · exact blind_finish rfl
      · exact blind_finish rfl
    · exact blind_finish rfl
  · exact blind_finish rfl

theorem blind_allocateToday : Blind AccountError.ofAlloc (.mk (a.allocateToday ctx)) := by
  refine .now fun clock => ?_
  cases clock.today? with
  | none => exact .crash
  | some day => exact blind_allocate

end Allocator

namespace Accounts

variable {a : Accounts} {ctx : Context}

theorem blind_clock : Blind id clock := .now fun _ => .done rfl

theorem blind_mint : Blind id mint := .mint fun _ => .done rfl

theorem blind_expiry (t : Clock) (ttl : Span) : Blind id (expiry t ttl) := by
  unfold expiry
  cases t.wall.after? ttl with
  | none => exact .crash
  | some e => exact .pure e

theorem blind_tokens {α : Type} {f : TokenFlow α} (h : Blind AccountError.ofToken f) :
    Blind id (tokens f) := .adapt h

theorem blind_decoded {α : Type} (r : Except TokenRefusal α) : Blind id (decoded r) := .done rfl

theorem blind_register : Blind id (a.register ctx) := by
  have hallocate : Blind id ((ExceptT.mk (a.allocator.allocateToday ctx)).adapt AccountError.ofAlloc) :=
    .adapt Allocator.blind_allocateToday
  exact hallocate.bind fun _ => .pure _

theorem blind_login (subject : Subject) : Blind id (a.login ctx subject) := by
  refine blind_clock.bind fun t => ?_
  refine blind_mint.bind fun accessId => blind_mint.bind fun refreshId => ?_
  refine (blind_expiry t a.terms.access).bind fun accessExpiry => ?_
  refine (blind_expiry t a.terms.refresh).bind fun refreshExpiry => ?_
  exact (blind_tokens (Tokens.blind_record subject _)).bind fun _ => .pure _

theorem blind_confirm (key : String) (claimed : Subject) : Blind id (confirm ctx key claimed) := by
  refine (blind_tokens (Tokens.blind_resolve key)).bind fun subject => ?_
  change Blind _ (if subject = claimed then _ else _)
  split
  · exact .pure _
  · exact .error _

theorem blind_authenticate (token : String) : Blind id (authenticate ctx token) := by
  refine blind_clock.bind fun t => (blind_decoded _).bind fun claims => ?_
  exact (blind_confirm claims.accessId claims.subject).bind fun subject => .pure _

theorem blind_logout (token : String) : Blind id (logout ctx token) :=
  (blind_authenticate token).bind fun access => blind_tokens (Tokens.blind_revoke access)

theorem blind_refresh (token : String) : Blind id (a.refresh ctx token) := by
  refine blind_clock.bind fun t => (blind_decoded _).bind fun claims => ?_
  refine (blind_confirm claims.refreshId claims.subject).bind fun subject => ?_
  refine (blind_tokens (Tokens.blind_ask (.del [claims.refreshId]))).bind fun (removed : Nat) => ?_
  change Blind _ (if removed = 1 then _ else _)
  split
  · exact blind_login subject
  · exact .error _

end Accounts

theorem eq_of_agree {ε α : Type} {r r' : Except ε α} (h : Agree id r r') : r = r' := by
  cases r <;> cases r' <;> exact h

def failure? {ε α : Type} : Except ε α → Option ε
  | .ok _ => none
  | .error e => some e

theorem Verdict.failure? {α : Type} {failed refused : Prop} {r : Except AccountError α}
    (h : Verdict failed refused r) :
    (failure? r = some .internal ↔ failed) ∧
    (failure? r = some .unauthorized ↔ ¬ failed ∧ refused) ∧
    (failure? r = none ↔ ¬ failed ∧ ¬ refused) := by
  cases h with
  | failed hf => simp [Registrar.failure?, hf]
  | refused hf hr => simp [Registrar.failure?, hf, hr]
  | granted hf hr a => simp [Registrar.failure?, hf, hr]

namespace Visit

/-- What two ends of a visit have in common where the store gave other errors. -/
def Agrees : (v : Visit) → v.Yield → v.Yield → Prop
  | .allocate _ _ => Agree AccountError.ofAlloc
  | .register _ _ | .login _ _ _ | .authenticate _ _ | .logout _ _ | .refresh _ _ _ => Agree id

theorem upToErrors_flow (v : Visit) : v.flow.UpToErrors v.Agrees v.flow := by
  cases v with
  | register a ctx => exact Accounts.blind_register
  | allocate a o =>
    cases o with
    | on ctx day => exact Allocator.blind_allocate
    | today ctx => exact Allocator.blind_allocateToday
    | request root timeout day => exact .request fun ctx => Allocator.blind_allocate
  | login a ctx subject => exact Accounts.blind_login subject
  | authenticate ctx token => exact Accounts.blind_authenticate token
  | logout ctx token => exact Accounts.blind_logout token
  | refresh a ctx token => exact Accounts.blind_refresh token

/-- The visits by which a session is begun, used, ended and renewed. -/
def ofSession : Visit → Bool
  | .login _ _ _ | .authenticate _ _ | .logout _ _ | .refresh _ _ _ => true
  | .register _ _ | .allocate _ _ => false

/-- The error with which a visit to the account service has ended, if it has. -/
def error? : (v : Visit) → v.Yield → Option AccountError
  | .allocate _ _ => fun _ => none
  | .register _ _ | .login _ _ _ | .authenticate _ _ | .logout _ _ | .refresh _ _ _ => failure?

def reader? : Visit → Option (Instant → Except TokenRefusal (String × Subject))
  | .register _ _ | .allocate _ _ | .login _ _ _ => none
  | .authenticate _ token | .logout _ token => some (Accounts.accessReader token)
  | .refresh _ _ token => some (Accounts.refreshReader token)

/-- The credential that a visit comes with has been refused. A login comes with none. -/
def Refused (v : Visit) (t : List Hearing) : Prop := ∃ reader ∈ v.reader?, Hearing.Refused reader t

section

variable {t : List Hearing} {a : Accounts} {ctx : Context} {token : String}

theorem refused_login {subject : Subject} : (login a ctx subject).Refused t ↔ False := by
  simp [Refused, reader?]

theorem refused_authenticate :
    (authenticate ctx token).Refused t ↔ Hearing.Refused (Accounts.accessReader token) t := by
  simp [Refused, reader?]

theorem refused_logout :
    (logout ctx token).Refused t ↔ Hearing.Refused (Accounts.accessReader token) t := by
  simp [Refused, reader?]

theorem refused_refresh :
    (refresh a ctx token).Refused t ↔ Hearing.Refused (Accounts.refreshReader token) t := by
  simp [Refused, reader?]

end

theorem judged {v : Visit} (hv : v.ofSession = true) {t : List Hearing} {r : v.Yield}
    (h : v.flow.Hears t r) :
    (v.error? r = some .internal ↔ Hearing.Failed t) ∧
    (v.error? r = some .unauthorized ↔ ¬ Hearing.Failed t ∧ v.Refused t) ∧
    (v.error? r = none ↔ ¬ Hearing.Failed t ∧ ¬ v.Refused t) := by
  cases v with
  | register a ctx => cases hv
  | allocate a o => cases hv
  | login a ctx subject =>
    rw [refused_login]
    exact (Accounts.verdict_login h).failure?
  | authenticate ctx token =>
    rw [refused_authenticate]
    exact (Accounts.verdict_authenticate h).failure?
  | logout ctx token =>
    rw [refused_logout]
    exact (Accounts.verdict_logout h).failure?
  | refresh a ctx token =>
    rw [refused_refresh]
    exact (Accounts.verdict_refresh h).failure?

theorem eq_of_agrees {v : Visit} (hv : v.ofSession = true) {r r' : v.Yield} (h : v.Agrees r r') :
    r = r' := by
  cases v with
  | register a ctx => cases hv
  | allocate a o => cases hv
  | login a ctx subject => exact eq_of_agree h
  | authenticate ctx token => exact eq_of_agree h
  | logout ctx token => exact eq_of_agree h
  | refresh a ctx token => exact eq_of_agree h

end Visit

namespace Crowd

/-- What somebody who came for this visit has heard. -/
def hearingsOf (s : Crowd office) (i : Nat) (v : Visit) (moves : List (Move office)) :
    List Hearing :=
  (Activity.fresh v.flow).hearings (s.looks i moves)

/-- Whatever happens around a visit of a session, it ends as failed within exactly if a call to the
store was answered by an error, a write was not confirmed, or its context was dead when a call was
to be made or awaited. Otherwise it is refused exactly if its token was, the entry was not there or
another's, or a removal was not one of exactly one entry. Which errors the store gives makes no
difference, to this visit and to the others. -/
theorem faults_not_confused {w : World} {moves : List (Move office)} {i : Nat} {v : Visit}
    {r : v.Yield} (hv : v.ofSession = true)
    (hd : ((around w : Crowd office).play moves).parties[i]? = some ⟨.job v, .done r⟩) :
    (v.error? r = some .internal ↔ Hearing.Failed ((around w).hearingsOf i v moves)) ∧
    (v.error? r = some .unauthorized ↔
      ¬ Hearing.Failed ((around w).hearingsOf i v moves) ∧ v.Refused ((around w).hearingsOf i v moves)) ∧
    (v.error? r = none ↔
      ¬ Hearing.Failed ((around w).hearingsOf i v moves) ∧
        ¬ v.Refused ((around w).hearingsOf i v moves)) ∧
    ∀ (w' : World) (moves' : List (Move office)), w.UpToErrors w' →
      List.Forall₂ Move.UpToErrors moves moves' →
      ((around w' : Crowd office).play moves').parties[i]? = some ⟨.job v, .done r⟩ := by
  have hend := after_looks_of_done (T := office) rfl hd
  obtain ⟨hfailed, hrefused, hgranted⟩ := Visit.judged hv (Activity.hears_of_after hend)
  refine ⟨hfailed, hrefused, hgranted, fun w' moves' hw hmoves => ?_⟩
  have hstart : (around w : Crowd office).UpToErrors Visit.Agrees (around w') := ⟨hw, .nil⟩
  obtain ⟨r', hd', hr⟩ := (hstart.play Visit.upToErrors_flow hmoves).done hd
  rwa [Visit.eq_of_agrees hv hr]

/-- The store answers once with this error, when an entry is removed. -/
def unremoved (e : StoreError) : Faults := { Faults.none with del := [.answer (.error e)] }

/-- Somebody comes to renew the first pair, whose removal is answered so. -/
def renewalUnder (e : StoreError) : List (Move office) :=
  arrival ++ .plan (unremoved e) :: .join (.refresh .brief unending firstPair.refreshToken) ::
    List.replicate 12 (.look 1)

theorem upToErrors_renewalUnder (e e' : StoreError) :
    List.Forall₂ Move.UpToErrors (renewalUnder e) (renewalUnder e') := by
  have hsame (moves : List (Move office)) : List.Forall₂ Move.UpToErrors moves moves :=
    List.forall₂_same.2 fun m _ => .same m
  have hdel : List.Forall₂ (Fault.UpToErrors SameAnswer) (unremoved e).del (unremoved e').del :=
    .cons (.answer rfl) .nil
  exact List.rel_append (hsame _)
    (.cons (.plan { Faults.UpToErrors.refl (unremoved e) with del := hdel }) (hsame _))

theorem faults_not_confused_renewal :
    ((around .numbered).play (renewalUnder Store.outage)).parties[1]? =
      some ⟨.job (.refresh .brief unending firstPair.refreshToken), .done (.error .internal)⟩ ∧
    Hearing.Failed ((around .numbered).hearingsOf 1 (.refresh .brief unending firstPair.refreshToken)
      (renewalUnder Store.outage)) ∧
    ((around .numbered).play (renewalUnder (.protocol "moved"))).parties[1]? =
      some ⟨.job (.refresh .brief unending firstPair.refreshToken), .done (.error .internal)⟩ := by
  have hd : ((around .numbered).play (renewalUnder Store.outage)).parties[1]? =
      some ⟨.job (.refresh .brief unending firstPair.refreshToken), .done (.error .internal)⟩ := by
    rfl
  obtain ⟨hfailed, -, -, hsame⟩ := faults_not_confused rfl hd
  exact ⟨hd, hfailed.1 rfl, hsame _ _ (.refl _) (upToErrors_renewalUnder _ _)⟩

end Crowd

end Registrar
