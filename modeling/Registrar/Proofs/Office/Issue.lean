import Registrar.Proofs.Claims
import Registrar.Proofs.Office.Entries
set_option autoImplicit false

namespace Registrar

namespace Paired

variable {ids : Nat → String} {terms : Terms} {subject : Subject} {h₀ h : List Event}
  {p : TokenPair} {now : Instant}

theorem identifiers (hp : Paired ids terms subject h₀ h p) (hm : mints h₀ = [])
    (hw : written h₀ = []) : ∃ m n, mints h = [n, m] ∧ written h = [ids n, ids m] ∧
      p.accessId = ids m ∧ p.refreshId = ids n := by
  cases hp with
  | @mk t u m n ea er d e ha hr hd he =>
    refine ⟨m, n, by simp [he.mints, hd.mints, hm],
      by simp [he.written_set, hd.written_set, hw], rfl, rfl⟩

theorem formed (hp : Paired ids terms subject h₀ h p) (hbare : ∀ n, Plain.Bare (ids n)) :
    p.Formed subject := by
  cases hp with
  | @mk t u m n ea er d e ha hr hd he =>
    exact .mk (hbare m) (hbare n) (Instant.check?_inRange ha).2 (Instant.check?_inRange hr).2

end Paired

namespace Visit

def token? : Visit → Option String
  | .authenticate _ token | .logout _ token | .refresh _ _ token => some token
  | .register _ _ | .allocate _ _ | .login _ _ _ => none

def isLogin : Visit → Bool
  | .login _ _ _ => true
  | _ => false

end Visit

namespace Crowd

variable {s : Crowd office} {ids : Nat → String} {first : Nat} {trace : Nat → List Event}
  {m : Move office}

/-- Who has issued a pair, be it in a login or in a refresh. -/
def Issues (s : Crowd office) (i : Nat) (p : TokenPair) : Prop :=
  (∃ a ctx subject, s.parties[i]? = some ⟨.job (.login a ctx subject), .done (.ok p)⟩) ∨
    ∃ a ctx token, s.parties[i]? = some ⟨.job (.refresh a ctx token), .done (.ok p)⟩

def issued? (s : Crowd office) (i : Nat) : Option TokenPair :=
  match s.parties[i]? with
  | some ⟨.job (.login _ _ _), .done (.ok p)⟩ => some p
  | some ⟨.job (.refresh _ _ _), .done (.ok p)⟩ => some p
  | _ => none

theorem issued?_eq_some {i : Nat} {p : TokenPair} : s.issued? i = some p ↔ s.Issues i p := by
  unfold issued?
  constructor
  · intro h
    split at h
    · rename_i a ctx subject r hi
      cases h
      exact .inl ⟨a, ctx, subject, hi⟩
    · rename_i a ctx token r hi
      cases h
      exact .inr ⟨a, ctx, token, hi⟩
    · cases h
  · rintro (⟨a, ctx, subject, hi⟩ | ⟨a, ctx, token, hi⟩) <;> rw [hi]

instance (s : Crowd office) (i : Nat) (p : TokenPair) : Decidable (s.Issues i p) :=
  decidable_of_iff (s.issued? i = some p) issued?_eq_some

theorem Chronicle.issued (hc : s.Chronicle sincere first trace) (hids : s.world.ids = ids)
    (hbare : ∀ n, Plain.Bare (ids n)) {i : Nat} {p : TokenPair} (hi : s.Issues i p) :
    ∃ subject m n, p.Formed subject ∧ mints (trace i) = [n, m] ∧ written (trace i) = [ids n, ids m] ∧
      p.accessId = ids m ∧ p.refreshId = ids n := by
  have told : ∀ {terms subject h₀}, Paired ids terms subject h₀ (trace i) p → mints h₀ = [] →
      written h₀ = [] → ∃ subject m n, p.Formed subject ∧ mints (trace i) = [n, m] ∧
        written (trace i) = [ids n, ids m] ∧ p.accessId = ids m ∧ p.refreshId = ids n := by
    intro terms subject h₀ hp hm hw
    obtain ⟨m, n, hids⟩ := hp.identifiers hm hw
    exact ⟨subject, m, n, hp.formed hbare, hids⟩
  rcases hi with ⟨a, ctx, subject, hi⟩ | ⟨a, ctx, token, hi⟩
  · exact told (hc.ends hids hi) rfl rfl
  · cases hc.ends hids hi with
    | mk hclaims hg hd hp =>
      exact told hp (by simp [hd.mints, hg.mints]) (by simp [hd.written_del, hg.written_get])

theorem done_act {i : Nat} {e : office.Role} {r : e.Yield} (hi : s.parties[i]? = some ⟨e, .done r⟩)
    (m : Move office) : (s.act m).parties[i]? = some ⟨e, .done r⟩ := by
  rcases party_act hi m with h | ⟨-, h⟩ | ⟨-, hw, -⟩
  · exact h
  · exact h
  · cases hw

theorem Issues.act {i : Nat} {p : TokenPair} (h : s.Issues i p) (m : Move office) :
    (s.act m).Issues i p := by
  refine h.imp ?_ ?_
  · exact fun ⟨a, ctx, subject, hi⟩ => ⟨a, ctx, subject, done_act hi m⟩
  · exact fun ⟨a, ctx, token, hi⟩ => ⟨a, ctx, token, done_act hi m⟩

def Authentic (s : Crowd office) (token : String) : Prop :=
  ∃ i p, s.Issues i p ∧ (token = p.accessToken ∨ token = p.refreshToken)

theorem Authentic.act {token : String} (h : s.Authentic token) (m : Move office) :
    (s.act m).Authentic token := by
  obtain ⟨i, p, hi, ht⟩ := h
  exact ⟨i, p, hi.act m, ht⟩

def OnlyIssued (s : Crowd office) : Move office → Prop
  | .join v => ∀ token ∈ v.token?, s.Authentic token
  | _ => True

def Presented (s : Crowd office) : Prop :=
  ∀ i v, s.role? i = some (.job v) → ∀ token ∈ v.token?, s.Authentic token

theorem Presented.act (hp : s.Presented) (hm : s.OnlyIssued m) : (s.act m).Presented := by
  intro i v hv token ht
  rcases role?_act s m i with he | ⟨-, ⟨j, rfl, he⟩ | ⟨held, -, -, he⟩⟩
  · exact (hp i v (he ▸ hv) token ht).act m
  · rw [he] at hv
    cases hv
    exact (hm token ht).act _
  · rw [he] at hv
    cases hv

theorem Presented.names (hp : s.Presented) (hc : s.Chronicle sincere first trace)
    (hids : s.world.ids = ids) (hbare : ∀ n, Plain.Bare (ids n)) {i : Nat} {v : Visit}
    (hi : s.role? i = some (.job v)) {key : String} (hn : v.Names key) :
    ∃ j p, s.Issues j p ∧ (∃ token ∈ v.token?, token = p.accessToken ∨ token = p.refreshToken) ∧
      ∃ n ∈ mints (trace j), key = ids n := by
  have access : ∀ {token : String} {now : Instant} {claims : AccessClaims},
      s.Authentic token → AccessClaims.ofToken now token = .ok claims →
      key = claims.accessId ∨ key = claims.refreshId →
      ∃ j p, s.Issues j p ∧ (token = p.accessToken ∨ token = p.refreshToken) ∧
        ∃ n ∈ mints (trace j), key = ids n := by
    rintro token now claims ⟨j, p, hj, ht⟩ hclaims hkey
    obtain ⟨subject, k, n, hformed, hmints, -, ha, hr⟩ := hc.issued hids hbare hj
    refine ⟨j, p, hj, ht, ?_⟩
    rcases ht with rfl | rfl
    · obtain ⟨-, -, rfl⟩ := hformed.access_iff.1 hclaims
      rcases hkey with rfl | rfl
      · exact ⟨k, by simp [hmints], ha⟩
      · exact ⟨n, by simp [hmints], hr⟩
    · rw [hformed.access_of_refresh] at hclaims
      cases hclaims
  cases v with
  | authenticate ctx token =>
    obtain ⟨now, claims, hclaims, hkey⟩ := hn
    obtain ⟨j, p, hj, ht, hmint⟩ := access (hp i _ hi token rfl) hclaims hkey
    exact ⟨j, p, hj, ⟨token, rfl, ht⟩, hmint⟩
  | logout ctx token =>
    obtain ⟨now, claims, hclaims, hkey⟩ := hn
    obtain ⟨j, p, hj, ht, hmint⟩ := access (hp i _ hi token rfl) hclaims hkey
    exact ⟨j, p, hj, ⟨token, rfl, ht⟩, hmint⟩
  | refresh a ctx token =>
    obtain ⟨now, claims, hclaims, rfl⟩ := hn
    obtain ⟨j, p, hj, ht⟩ := hp i _ hi token rfl
    obtain ⟨subject, k, n, hformed, hmints, -, ha, hr⟩ := hc.issued hids hbare hj
    refine ⟨j, p, hj, ⟨token, rfl, ht⟩, n, by simp [hmints], ?_⟩
    rcases ht with rfl | rfl
    · rw [hformed.refresh_of_access] at hclaims
      cases hclaims
    · obtain ⟨-, -, rfl⟩ := hformed.refresh_iff.1 hclaims
      exact hr
  | register a ctx => cases hn
  | allocate a o => cases hn
  | login a ctx subject => cases hn

end Crowd

def World.numbered : World :=
  .start ⟨1577836800 * Instant.nanosPerSec, .utc, 0⟩ none fun n => String.ofList (Numeral.decimal n)

namespace World

theorem numbered_calm : numbered.Calm := start_calm _ _ _

theorem numbered_injective : Function.Injective numbered.ids := by
  intro m n h
  have hd : Numeral.decimal m = Numeral.decimal n := String.ofList_injective h
  rw [← Numeral.value_decimal m, hd, Numeral.value_decimal]

theorem numbered_bare (n : Nat) : Plain.Bare (numbered.ids n) := by
  have hids : (numbered.ids n).toList = Numeral.decimal n := String.toList_ofList
  rw [Plain.Bare, hids]
  exact ⟨Numeral.decimal_ne_nil n, fun h => by simpa using Numeral.isDigit_of_mem_decimal h⟩

theorem numbered_fresh (n : Nat) (_ : numbered.minted ≤ n) :
    numbered.store.entries.get? (numbered.ids n) = none := rfl

end World

/-- Access for a minute, refresh for an hour. -/
def Accounts.brief : Accounts := ⟨.standard, ⟨.ofSecs 60, .ofSecs 3600, by decide, by decide⟩⟩

namespace Crowd

def alice : Subject := ⟨"alice"⟩

def unending : Context := ⟨[], none⟩

def arrival : List (Move office) := .join (.login .brief unending alice) :: List.replicate 10 (.look 0)

def firstPair : TokenPair :=
  Accounts.pair alice "0" "1" (1577836860 * Instant.nanosPerSec) (1577840400 * Instant.nanosPerSec)

theorem issues_firstPair : ((around .numbered).play arrival).Issues 0 firstPair := by
  decide +kernel

end Crowd

end Registrar
