import Registrar.Account
import Registrar.Proofs.Digits
set_option autoImplicit false

namespace Registrar

def Instant.floor (t : Instant) : Instant := t.millis * 1000000

theorem Instant.floor_le (t : Instant) : t.floor ≤ t := Int.ediv_mul_le t (by decide)

theorem Instant.inRange_iff (t : Int) : Instant.InRange t ↔
    (-8334601228800000000000 : Int) ≤ t ∧ t ≤ (8210266876799999999999 : Int) := Iff.rfl

theorem Instant.floor_inRange {t : Instant} (h : t.InRange) : t.floor.InRange := by
  rw [inRange_iff] at h ⊢
  unfold floor millis
  omega

theorem Instant.ofMillis?_millis {t : Instant} (h : t.InRange) :
    ofMillis? t.millis = some t.floor := if_pos (floor_inRange h)

theorem Instant.int64?_millis {t : Instant} (h : t.InRange) :
    Numeral.int64? (Numeral.signed t.millis) = some t.millis := by
  have hmillis : t.millis = (t : Int) / 1000000 := rfl
  rw [inRange_iff] at h
  refine Numeral.int64?_signed ?_ ?_
  · unfold Numeral.minInt64
    omega
  · unfold Numeral.maxInt64
    omega

theorem Instant.check?_inRange {n : Int} {t : Instant} (h : check? n = some t) :
    t = n ∧ t.InRange := by
  unfold check? at h
  split at h
  · rename_i hn
    cases h
    exact ⟨rfl, hn⟩
  · cases h

namespace Plain

/-- An identifier that a token can carry. -/
def Bare (id : String) : Prop := id.toList ≠ [] ∧ ':' ∉ id.toList

theorem strip?_append (h cs : List Char) : strip? h (h ++ cs) = some cs := by
  induction h with
  | nil => rfl
  | cons c h ih => simp [strip?, ih]

theorem part?_append {p : List Char} (h : ':' ∉ p) (cs : List Char) :
    part? (p ++ ':' :: cs) = some (p, cs) := by
  induction p with
  | nil => simp [part?]
  | cons c p ih =>
    simp only [List.mem_cons, not_or] at h
    simp [part?, Ne.symm h.1, ih h.2]

theorem colon_not_mem_expiryChars (t : Instant) : ':' ∉ expiryChars t := by
  have hd : ∀ n : Nat, ':' ∉ Numeral.decimal n := fun n h => by
    simpa using Numeral.isDigit_of_mem_decimal h
  unfold expiryChars Numeral.signed
  split
  · simpa using hd _
  · exact hd _

theorem readExpiry_expiryChars {t : Instant} (h : t.InRange) (now : Instant) :
    readExpiry now (expiryChars t) =
      if t.floor ≤ now then .error .expired else .ok t.floor := by
  have hread : (Numeral.int64? (expiryChars t) >>= Instant.ofMillis?) = some t.floor := by
    rw [expiryChars, Instant.int64?_millis h]
    exact Instant.ofMillis?_millis h
  rw [readExpiry, hread]

end Plain

open Plain

theorem AccessClaims.part?_chars {c : AccessClaims} (ha : Bare c.accessId) :
    (strip? accessHead c.chars >>= part?) = some (c.accessId.toList,
      c.refreshId.toList ++ ':' :: (expiryChars c.expiry ++ ':' :: c.subject.name.toList)) := by
  have hchars : c.chars = accessHead ++ (c.accessId.toList ++ ':' :: (c.refreshId.toList ++
      ':' :: (expiryChars c.expiry ++ ':' :: c.subject.name.toList))) := by
    simp [chars]
  rw [hchars, strip?_append]
  exact part?_append ha.2 _

theorem AccessClaims.ofToken_token {c : AccessClaims} (ha : Bare c.accessId) (hr : Bare c.refreshId)
    (ht : c.expiry.InRange) (now : Instant) :
    ofToken now c.token =
      if c.subject.name.toList = [] then .error .invalid
      else if c.expiry.floor ≤ now then .error .expired
      else .ok { c with expiry := c.expiry.floor } := by
  simp only [ofToken, token, String.toList_ofList, ofChars, part?_chars ha, part?_append hr.2,
    part?_append (colon_not_mem_expiryChars _), ha.1, hr.1, false_or,
    readExpiry_expiryChars ht]
  split
  · rfl
  · split
    · rfl
    · simp [Except.map]

theorem RefreshClaims.part?_chars {c : RefreshClaims} (hr : Bare c.refreshId) :
    (strip? refreshHead c.chars >>= part?) = some (c.refreshId.toList,
      expiryChars c.expiry ++ ':' :: c.subject.name.toList) := by
  have hchars : c.chars = refreshHead ++ (c.refreshId.toList ++
      ':' :: (expiryChars c.expiry ++ ':' :: c.subject.name.toList)) := by
    simp [chars]
  rw [hchars, strip?_append]
  exact part?_append hr.2 _

theorem RefreshClaims.ofToken_token {c : RefreshClaims} (hr : Bare c.refreshId)
    (ht : c.expiry.InRange) (now : Instant) :
    ofToken now c.token =
      if c.subject.name.toList = [] then .error .invalid
      else if c.expiry.floor ≤ now then .error .expired
      else .ok { c with expiry := c.expiry.floor } := by
  simp only [ofToken, token, String.toList_ofList, ofChars, part?_chars hr,
    part?_append (colon_not_mem_expiryChars _), hr.1, false_or, readExpiry_expiryChars ht]
  split
  · rfl
  · split
    · rfl
    · simp [Except.map]

theorem AccessClaims.accessId_of_token {c d : AccessClaims} (hc : Bare c.accessId)
    (hd : Bare d.accessId) (h : c.token = d.token) : c.accessId = d.accessId := by
  have hchars : c.chars = d.chars := String.ofList_injective h
  have hpart := part?_chars hc
  rw [hchars, part?_chars hd] at hpart
  exact String.toList_inj.1 (Prod.mk.inj (Option.some.inj hpart)).1.symm

theorem RefreshClaims.refreshId_of_token {c d : RefreshClaims} (hc : Bare c.refreshId)
    (hd : Bare d.refreshId) (h : c.token = d.token) : c.refreshId = d.refreshId := by
  have hchars : c.chars = d.chars := String.ofList_injective h
  have hpart := part?_chars hc
  rw [hchars, part?_chars hd] at hpart
  exact String.toList_inj.1 (Prod.mk.inj (Option.some.inj hpart)).1.symm

theorem AccessClaims.token_ne (c : AccessClaims) (d : RefreshClaims) : c.token ≠ d.token := by
  have hs : ∀ cs, strip? accessHead (refreshHead ++ cs) = none := fun cs => rfl
  intro h
  have hchars : c.chars = d.chars := String.ofList_injective h
  have hnone : strip? accessHead d.chars = none := by
    rw [RefreshClaims.chars, List.append_assoc, List.append_assoc, hs]
  rw [← hchars, chars, List.append_assoc, List.append_assoc, List.append_assoc, strip?_append] at hnone
  cases hnone

theorem RefreshClaims.ofToken_access (c : AccessClaims) (now : Instant) :
    ofToken now c.token = .error .invalid := by
  have hs : ∀ cs, strip? refreshHead (accessHead ++ cs) = none := fun cs => rfl
  simp [ofToken, AccessClaims.token, AccessClaims.chars, ofChars, hs, List.append_assoc]

theorem AccessClaims.ofToken_refresh (c : RefreshClaims) (now : Instant) :
    ofToken now c.token = .error .invalid := by
  have hs : ∀ cs, strip? accessHead (refreshHead ++ cs) = none := fun cs => rfl
  simp [ofToken, RefreshClaims.token, RefreshClaims.chars, ofChars, hs, List.append_assoc]

theorem read_eq_ok {ε α : Type} {refused : Prop} [Decidable refused] {due now : Instant} {x y : ε}
    {a b : α} : (if refused then .error x else if due ≤ now then .error y else .ok a : Except ε α) =
      .ok b ↔ ¬ refused ∧ now < due ∧ b = a := by
  by_cases hr : refused
  · simp [hr]
  · by_cases hd : due ≤ now
    · have hlate : ¬ now < due := Int.not_lt.2 hd
      simp [hr, hd, hlate]
    · have hearly : now < due := Int.not_le.1 hd
      simp [hr, hd, hearly, eq_comm]

inductive TokenPair.Formed (subject : Subject) : TokenPair → Prop where
  | mk {accessId refreshId : String} {ea er : Instant} (ha : Bare accessId) (hr : Bare refreshId)
      (hea : ea.InRange) (her : er.InRange) :
      Formed subject (Accounts.pair subject accessId refreshId ea er)

namespace TokenPair.Formed

variable {subject : Subject} {p : TokenPair} {now : Instant}

theorem access_iff (hp : p.Formed subject) {claims : AccessClaims} :
    AccessClaims.ofToken now p.accessToken = .ok claims ↔
      subject.name.toList ≠ [] ∧ now < p.accessExpiry.floor ∧
        claims = ⟨p.accessId, p.refreshId, subject, p.accessExpiry.floor⟩ := by
  obtain ⟨ha, hr, hea, -⟩ := hp
  rw [Accounts.pair, AccessClaims.ofToken_token ha hr hea]
  exact read_eq_ok

theorem refresh_iff (hp : p.Formed subject) {claims : RefreshClaims} :
    RefreshClaims.ofToken now p.refreshToken = .ok claims ↔
      subject.name.toList ≠ [] ∧ now < p.refreshExpiry.floor ∧
        claims = ⟨p.refreshId, subject, p.refreshExpiry.floor⟩ := by
  obtain ⟨-, hr, -, her⟩ := hp
  rw [Accounts.pair, RefreshClaims.ofToken_token hr her]
  exact read_eq_ok

theorem access_of_refresh (hp : p.Formed subject) :
    AccessClaims.ofToken now p.refreshToken = .error .invalid := by
  cases hp
  exact AccessClaims.ofToken_refresh _ _

theorem refresh_of_access (hp : p.Formed subject) :
    RefreshClaims.ofToken now p.accessToken = .error .invalid := by
  cases hp
  exact RefreshClaims.ofToken_access _ _

theorem accessId_of_token {q : TokenPair} {other : Subject} (hp : p.Formed subject)
    (hq : q.Formed other) (h : p.accessToken = q.accessToken) : p.accessId = q.accessId := by
  obtain ⟨hp, -⟩ := hp
  obtain ⟨hq, -⟩ := hq
  exact AccessClaims.accessId_of_token hp hq h

theorem refreshId_of_token {q : TokenPair} {other : Subject} (hp : p.Formed subject)
    (hq : q.Formed other) (h : p.refreshToken = q.refreshToken) : p.refreshId = q.refreshId := by
  obtain ⟨-, hp, -⟩ := hp
  obtain ⟨-, hq, -⟩ := hq
  exact RefreshClaims.refreshId_of_token hp hq h

theorem token_ne {q : TokenPair} {other : Subject} (hp : p.Formed subject) (hq : q.Formed other) :
    p.accessToken ≠ q.refreshToken := by
  cases hp
  cases hq
  exact AccessClaims.token_ne _ _

end TokenPair.Formed

end Registrar
