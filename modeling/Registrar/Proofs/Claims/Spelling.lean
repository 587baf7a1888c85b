import Mathlib.Data.List.Induction
import Registrar.Proofs.Claims
set_option autoImplicit false

namespace Registrar

namespace Numeral

/-- Digits whose last counts ones, the one before it tens, and so on. -/
inductive Counts : List Char → Nat → Prop where
  | one {c : Char} (hc : c.isDigit = true) : Counts [c] (digitValue c)
  | more {cs : List Char} {n : Nat} {c : Char} (h : Counts cs n) (hc : c.isDigit = true) :
      Counts (cs ++ [c]) (10 * n + digitValue c)

inductive Denotes : List Char → Int → Prop where
  | plain {cs : List Char} {n : Nat} (h : Counts cs n) : Denotes cs n
  | plus {cs : List Char} {n : Nat} (h : Counts cs n) : Denotes ('+' :: cs) n
  | minus {cs : List Char} {n : Nat} (h : Counts cs n) : Denotes ('-' :: cs) (-n)

theorem value_concat (cs : List Char) (c : Char) :
    value (cs ++ [c]) = 10 * value cs + digitValue c := by
  simp [value, List.foldl_append]

theorem nat?_of_counts {cs : List Char} {n : Nat} (h : Counts cs n) : nat? cs = some n := by
  have hread : cs ≠ [] ∧ cs.all Char.isDigit = true ∧ value cs = n := by
    induction h with
    | one hc => simp [hc, value]
    | more h hc ih => simp [hc, ih, value_concat]
  simp [nat?, hread]

theorem counts_of_nat? {cs : List Char} {n : Nat} (h : nat? cs = some n) : Counts cs n := by
  simp only [nat?, Bool.and_eq_true, Bool.not_eq_true', Option.ite_none_right_eq_some,
    Option.some.injEq, List.isEmpty_eq_false_iff] at h
  obtain ⟨⟨hne, hall⟩, rfl⟩ := h
  induction cs using List.reverseRecOn with
  | nil => exact absurd rfl hne
  | append_singleton cs c ih =>
    rw [List.all_append, List.all_cons, List.all_nil, Bool.and_true, Bool.and_eq_true] at hall
    rw [value_concat]
    by_cases hcs : cs = []
    · subst hcs
      simpa [value] using Counts.one hall.2
    · exact .more (ih hcs hall.1) hall.2

theorem Counts.isDigit {cs : List Char} {n : Nat} (h : Counts cs n) :
    ∀ c ∈ cs, c.isDigit = true := by
  induction h with
  | one hc => simp [hc]
  | more h hc ih => simpa [or_imp, forall_and, hc] using ih

theorem int?_eq_some_iff {cs : List Char} {n : Int} : int? cs = some n ↔ Denotes cs n := by
  constructor
  · intro h
    unfold int? at h
    split at h
    · obtain ⟨m, hm, rfl⟩ := Option.map_eq_some_iff.1 h
      exact .plus (counts_of_nat? hm)
    · obtain ⟨k, hk, rfl⟩ := Option.map_eq_some_iff.1 h
      obtain ⟨m, hm, hk⟩ := Option.bind_eq_some_iff.1 hk
      cases hk
      exact .minus (counts_of_nat? hm)
    · obtain ⟨m, hm, rfl⟩ := Option.map_eq_some_iff.1 h
      exact .plain (counts_of_nat? hm)
  · intro h
    cases h with
    | plain h =>
      rw [int?_of_digits h.isDigit, nat?_of_counts h]
      rfl
    | plus h =>
      rw [int?, nat?_of_counts h]
      rfl
    | minus h =>
      rw [int?, nat?_of_counts h]
      rfl

theorem int64?_eq_some_iff {cs : List Char} {n : Int} :
    int64? cs = some n ↔ Denotes cs n ∧ minInt64 ≤ n ∧ n ≤ maxInt64 := by
  rw [int64?, Option.filter_eq_some_iff, int?_eq_some_iff]
  simp only [Bool.and_eq_true, decide_eq_true_eq]

end Numeral

/-- An expiry is spelled by a number of milliseconds that 64 bits hold and the calendar reaches. -/
inductive Instant.Spelled : String → Instant → Prop where
  | mk {m : String} {n : Int} (hm : Numeral.Denotes m.toList n) (hmin : Numeral.minInt64 ≤ n)
      (hmax : n ≤ Numeral.maxInt64) (hn : Instant.InRange (n * 1000000)) : Spelled m (n * 1000000)

theorem Instant.Spelled.floor {m : String} {t : Instant} (h : Spelled m t) :
    t.floor = t ∧ t.InRange := by
  obtain ⟨-, -, -, hn⟩ := h
  exact ⟨congrArg (· * 1000000) (Int.mul_ediv_cancel _ (by decide)), hn⟩

namespace Plain

instance (id : String) : Decidable (Bare id) := inferInstanceAs (Decidable (_ ∧ _))

theorem strip?_eq_some {h cs rest : List Char} (hs : strip? h cs = some rest) : cs = h ++ rest := by
  induction h generalizing cs with
  | nil => exact Option.some.inj hs
  | cons c h ih =>
    cases cs with
    | nil => cases hs
    | cons d cs =>
      rw [strip?] at hs
      split at hs
      · rename_i hcd
        rw [hcd, ih hs, List.cons_append]
      · cases hs

theorem part?_eq_some {cs p rest : List Char} (hp : part? cs = some (p, rest)) :
    cs = p ++ ':' :: rest ∧ ':' ∉ p := by
  induction cs generalizing p with
  | nil => cases hp
  | cons c cs ih =>
    rw [part?] at hp
    split at hp
    · rename_i hc
      cases hp
      simp [hc]
    · rename_i hc
      obtain ⟨⟨q, r⟩, hq, he⟩ := Option.map_eq_some_iff.1 hp
      cases he
      obtain ⟨rfl, hcolon⟩ := ih hq
      simp [Ne.symm hc, hcolon]

theorem moment_eq_some_iff {m : String} {t : Instant} :
    (Numeral.int64? m.toList >>= Instant.ofMillis?) = some t ↔ Instant.Spelled m t := by
  constructor
  · intro h
    obtain ⟨n, hn, ht⟩ := Option.bind_eq_some_iff.1 h
    obtain ⟨hm, hmin, hmax⟩ := Numeral.int64?_eq_some_iff.1 hn
    obtain ⟨rfl, hin⟩ := Instant.check?_inRange ht
    exact .mk hm hmin hmax hin
  · rintro ⟨hm, hmin, hmax, hn⟩
    exact Option.bind_eq_some_iff.2 ⟨_, Numeral.int64?_eq_some_iff.2 ⟨hm, hmin, hmax⟩, if_pos hn⟩

theorem readExpiry_of_spelled {m : String} {t : Instant} (h : Instant.Spelled m t) (now : Instant) :
    readExpiry now m.toList = if t ≤ now then .error .expired else .ok t := by
  rw [readExpiry, moment_eq_some_iff.2 h]

theorem colon_not_mem_of_spelled {m : String} {t : Instant} (h : Instant.Spelled m t) :
    ':' ∉ m.toList := by
  have hdigits : ∀ {cs n}, Numeral.Counts cs n → ':' ∉ cs := fun hc hmem => by
    simpa using hc.isDigit _ hmem
  obtain ⟨hm, -, -, -⟩ := h
  generalize m.toList = cs at hm
  cases hm with
  | plain hc => exact hdigits hc
  | plus hc => simpa using hdigits hc
  | minus hc => simpa using hdigits hc

theorem toList_colon (x rest : String) :
    (x ++ ":" ++ rest).toList = x.toList ++ ':' :: rest.toList := by
  have hcolon : (":" : String).toList = [':'] := rfl
  rw [String.toList_append, String.toList_append, hcolon, List.append_assoc, List.singleton_append]

theorem toList_three (head r m s : String) : (head ++ r ++ ":" ++ m ++ ":" ++ s).toList =
    head.toList ++ (r.toList ++ ':' :: (m.toList ++ ':' :: s.toList)) := by
  rw [toList_colon, toList_colon, String.toList_append]
  simp only [List.append_assoc, List.cons_append]

theorem toList_four (head a r m s : String) :
    (head ++ a ++ ":" ++ r ++ ":" ++ m ++ ":" ++ s).toList =
    head.toList ++ (a.toList ++ ':' :: (r.toList ++ ':' :: (m.toList ++ ':' :: s.toList))) := by
  rw [toList_colon, toList_three]
  simp only [List.append_assoc, List.cons_append]

theorem map_readExpiry {γ : Type} {m : String} {t : Instant} (h : Instant.Spelled m t)
    (now : Instant) (make : Instant → γ) : (readExpiry now m.toList).map make =
      if t ≤ now then .error .expired else .ok (make t) := by
  rw [readExpiry_of_spelled h]
  split <;> rfl

theorem spelled_of_map_readExpiry {γ : Type} {now : Instant} {m : List Char} {make : Instant → γ}
    (h : (readExpiry now m).map make ≠ .error .invalid) : ∃ t, Instant.Spelled (String.ofList m) t := by
  cases hm : (Numeral.int64? m >>= Instant.ofMillis?) with
  | none =>
    rw [readExpiry, hm] at h
    exact absurd rfl h
  | some t =>
    rw [← String.toList_ofList (l := m)] at hm
    exact ⟨t, moment_eq_some_iff.1 hm⟩

theorem bare_ofList {cs : List Char} (hne : cs ≠ []) (hcolon : ':' ∉ cs) :
    Bare (String.ofList cs) := by
  rw [Bare, String.toList_ofList]
  exact ⟨hne, hcolon⟩

theorem ofList_ne_empty {cs : List Char} (hne : cs ≠ []) : String.ofList cs ≠ "" := fun h =>
  hne (by rw [← String.toList_ofList (l := cs), h]; rfl)

end Plain

open Plain

inductive AccessClaims.Spelled : String → AccessClaims → Prop where
  | mk {a r m s : String} {t : Instant} (ha : Bare a) (hr : Bare r) (hm : Instant.Spelled m t)
      (hs : s ≠ "") :
      Spelled ("fake-access-token:" ++ a ++ ":" ++ r ++ ":" ++ m ++ ":" ++ s) ⟨a, r, ⟨s⟩, t⟩

inductive RefreshClaims.Spelled : String → RefreshClaims → Prop where
  | mk {r m s : String} {t : Instant} (hr : Bare r) (hm : Instant.Spelled m t) (hs : s ≠ "") :
      Spelled ("fake-refresh-token:" ++ r ++ ":" ++ m ++ ":" ++ s) ⟨r, ⟨s⟩, t⟩

namespace AccessClaims

variable {now : Instant} {t : String} {c : AccessClaims}

theorem toList_spelled (a r m s : String) :
    ("fake-access-token:" ++ a ++ ":" ++ r ++ ":" ++ m ++ ":" ++ s).toList =
      accessHead ++ (a.toList ++ ':' :: (r.toList ++ ':' :: (m.toList ++ ':' :: s.toList))) :=
  toList_four _ a r m s

theorem ofToken_of_spelled (h : Spelled t c) (now : Instant) :
    ofToken now t = if c.expiry ≤ now then .error .expired else .ok c := by
  obtain ⟨ha, hr, hm, hs⟩ := h
  have hsubject : _ ≠ [] := fun he => hs (String.toList_eq_nil_iff.1 he)
  have hstrip := strip?_append accessHead
  simp only [ofToken, ofChars, toList_spelled, hstrip, Option.bind_eq_bind, Option.bind_some,
    part?_append ha.2, part?_append hr.2, part?_append (colon_not_mem_of_spelled hm), ha.1, hr.1,
    hsubject, or_self, if_false, map_readExpiry hm, String.ofList_toList]

theorem spelled_of_ofToken (h : ofToken now t ≠ .error .invalid) : ∃ c, Spelled t c := by
  unfold ofToken ofChars at h
  split at h
  · exact absurd rfl h
  rename_i a rest hhead
  obtain ⟨body, hbody, ha⟩ := Option.bind_eq_some_iff.1 hhead
  split at h
  · exact absurd rfl h
  rename_i r rest hr
  split at h
  · exact absurd rfl h
  rename_i m s hm
  split at h
  · exact absurd rfl h
  rename_i hnonempty
  obtain ⟨hane, hrne, hsne⟩ : a ≠ [] ∧ r ≠ [] ∧ s ≠ [] := by simpa only [not_or] using hnonempty
  obtain ⟨rfl, hacolon⟩ := part?_eq_some ha
  obtain ⟨rfl, hrcolon⟩ := part?_eq_some hr
  obtain ⟨rfl, -⟩ := part?_eq_some hm
  obtain ⟨e, he⟩ := spelled_of_map_readExpiry h
  have ht : t = "fake-access-token:" ++ String.ofList a ++ ":" ++ String.ofList r ++ ":" ++
      String.ofList m ++ ":" ++ String.ofList s := by
    apply String.toList_inj.1
    rw [toList_spelled, strip?_eq_some hbody]
    simp only [String.toList_ofList]
  rw [ht]
  exact ⟨_, .mk (bare_ofList hane hacolon) (bare_ofList hrne hrcolon) he (ofList_ne_empty hsne)⟩

end AccessClaims

namespace RefreshClaims

variable {now : Instant} {t : String} {c : RefreshClaims}

theorem toList_spelled (r m s : String) :
    ("fake-refresh-token:" ++ r ++ ":" ++ m ++ ":" ++ s).toList =
    refreshHead ++ (r.toList ++ ':' :: (m.toList ++ ':' :: s.toList)) :=
  toList_three _ r m s

theorem ofToken_of_spelled (h : Spelled t c) (now : Instant) :
    ofToken now t = if c.expiry ≤ now then .error .expired else .ok c := by
  obtain ⟨hr, hm, hs⟩ := h
  have hsubject : _ ≠ [] := fun he => hs (String.toList_eq_nil_iff.1 he)
  have hstrip := strip?_append refreshHead
  simp only [ofToken, ofChars, toList_spelled, hstrip, Option.bind_eq_bind, Option.bind_some,
    part?_append hr.2, part?_append (colon_not_mem_of_spelled hm), hr.1, hsubject, or_self, if_false,
    map_readExpiry hm, String.ofList_toList]

theorem spelled_of_ofToken (h : ofToken now t ≠ .error .invalid) : ∃ c, Spelled t c := by
  unfold ofToken ofChars at h
  split at h
  · exact absurd rfl h
  rename_i r rest hhead
  obtain ⟨body, hbody, hr⟩ := Option.bind_eq_some_iff.1 hhead
  split at h
  · exact absurd rfl h
  rename_i m s hm
  split at h
  · exact absurd rfl h
  rename_i hnonempty
  obtain ⟨hrne, hsne⟩ : r ≠ [] ∧ s ≠ [] := by simpa only [not_or] using hnonempty
  obtain ⟨rfl, hrcolon⟩ := part?_eq_some hr
  obtain ⟨rfl, -⟩ := part?_eq_some hm
  obtain ⟨e, he⟩ := spelled_of_map_readExpiry h
  have ht : t = "fake-refresh-token:" ++ String.ofList r ++ ":" ++ String.ofList m ++ ":" ++
      String.ofList s := by
    apply String.toList_inj.1
    rw [toList_spelled, strip?_eq_some hbody]
    simp only [String.toList_ofList]
  rw [ht]
  exact ⟨_, .mk (bare_ofList hrne hrcolon) he (ofList_ne_empty hsne)⟩

theorem ofToken_of_spelled_access {c : AccessClaims} (h : AccessClaims.Spelled t c)
    (now : Instant) :
    ofToken now t = .error .invalid := by
  have hs : ∀ cs, strip? refreshHead (accessHead ++ cs) = none := fun cs => rfl
  obtain ⟨-, -, -, -⟩ := h
  simp only [ofToken, ofChars, AccessClaims.toList_spelled, hs, Option.bind_eq_bind, Option.bind_none]

end RefreshClaims

namespace Token

/-- A kind of token: how its claims are read from a text and written into one, how a text spells
them, and which claims a token can carry. A token keeps the expiry in whole milliseconds. -/
structure Kind (γ : Type) where
  read : Instant → String → Except TokenRefusal γ
  write : γ → String
  Spelled : String → γ → Prop
  Sayable : γ → Prop
  expiry : γ → Instant
  cut : γ → γ

abbrev access : Kind AccessClaims where
  read := AccessClaims.ofToken
  write := AccessClaims.token
  Spelled := AccessClaims.Spelled
  Sayable c := Bare c.accessId ∧ Bare c.refreshId ∧ c.subject.name ≠ "" ∧ c.expiry.InRange
  expiry := AccessClaims.expiry
  cut c := { c with expiry := c.expiry.floor }

abbrev refresh : Kind RefreshClaims where
  read := RefreshClaims.ofToken
  write := RefreshClaims.token
  Spelled := RefreshClaims.Spelled
  Sayable c := Bare c.refreshId ∧ c.subject.name ≠ "" ∧ c.expiry.InRange
  expiry := RefreshClaims.expiry
  cut c := { c with expiry := c.expiry.floor }

/-- Reading takes what is spelled and nothing else, and gives back what was written. -/
structure Kind.Exact {γ : Type} (k : Kind γ) (now : Instant) : Prop where
  ok_iff : ∀ t c, k.read now t = .ok c ↔ k.Spelled t c ∧ now < k.expiry c
  expired_iff : ∀ t, k.read now t = .error .expired ↔ ∃ c, k.Spelled t c ∧ k.expiry c ≤ now
  invalid_iff : ∀ t, k.read now t = .error .invalid ↔ ¬ ∃ c, k.Spelled t c
  read_write : ∀ c, k.Sayable c → now < (k.expiry c).floor → k.read now (k.write c) = .ok (k.cut c)
  read_write_read : ∀ t c, k.read now t = .ok c → k.read now (k.write c) = .ok c

/-- It is enough to know what becomes of each spelling, that no other text is taken, and what becomes
of what is written. -/
theorem Kind.exact {γ : Type} {k : Kind γ} {now : Instant}
    (hspelled : ∀ {t c}, k.Spelled t c →
      k.read now t = if k.expiry c ≤ now then .error .expired else .ok c)
    (hother : ∀ {t}, k.read now t ≠ .error .invalid → ∃ c, k.Spelled t c)
    (hsayable : ∀ {t c}, k.Spelled t c → k.Sayable c ∧ (k.expiry c).floor = k.expiry c ∧ k.cut c = c)
    (hwrite : ∀ c, k.Sayable c → now < (k.expiry c).floor → k.read now (k.write c) = .ok (k.cut c)) :
    k.Exact now := by
  have hok : ∀ t c, k.read now t = .ok c ↔ k.Spelled t c ∧ now < k.expiry c := by
    intro t c
    constructor
    · intro h
      obtain ⟨d, hd⟩ := hother (t := t) (by simp [h])
      rw [hspelled hd] at h
      split at h
      · cases h
      · rename_i hlt
        cases h
        exact ⟨hd, Int.not_le.1 hlt⟩
    · rintro ⟨h, hlt⟩
      rw [hspelled h, if_neg (Int.not_le.2 hlt)]
  refine ⟨hok, fun t => ?_, fun t => ?_, hwrite, fun t c h => ?_⟩
  · constructor
    · intro h
      obtain ⟨d, hd⟩ := hother (t := t) (by simp [h])
      rw [hspelled hd] at h
      split at h
      · rename_i hle
        exact ⟨d, hd, hle⟩
      · cases h
    · rintro ⟨c, h, hle⟩
      rw [hspelled h, if_pos hle]
  · constructor
    · rintro h ⟨c, hc⟩
      rw [hspelled hc] at h
      split at h <;> cases h
    · exact fun h => Classical.byContradiction fun hne => h (hother hne)
  · obtain ⟨hc, hlt⟩ := (hok t c).1 h
    obtain ⟨hsay, hfloor, hcut⟩ := hsayable hc
    rw [hwrite c hsay (by rwa [hfloor]), hcut]

theorem access_exact (now : Instant) : access.Exact now := by
  refine Kind.exact (fun h => AccessClaims.ofToken_of_spelled h now)
    AccessClaims.spelled_of_ofToken ?_ ?_
  · rintro t c ⟨ha, hr, hm, hs⟩
    obtain ⟨hfloor, hrange⟩ := hm.floor
    exact ⟨⟨ha, hr, hs, hrange⟩, hfloor, congrArg (AccessClaims.mk _ _ _) hfloor⟩
  · rintro c ⟨ha, hr, hs, hrange⟩ hlt
    have hsubject : c.subject.name.toList ≠ [] := fun he => hs (String.toList_eq_nil_iff.1 he)
    have hread := AccessClaims.ofToken_token ha hr hrange now
    rw [if_neg hsubject, if_neg (Int.not_le.2 hlt)] at hread
    simpa only [access] using hread

theorem refresh_exact (now : Instant) : refresh.Exact now := by
  refine Kind.exact (fun h => RefreshClaims.ofToken_of_spelled h now) RefreshClaims.spelled_of_ofToken
    ?_ ?_
  · rintro t c ⟨hr, hm, hs⟩
    obtain ⟨hfloor, hrange⟩ := hm.floor
    exact ⟨⟨hr, hs, hrange⟩, hfloor, congrArg (RefreshClaims.mk _ _) hfloor⟩
  · rintro c ⟨hr, hs, hrange⟩ hlt
    have hsubject : c.subject.name.toList ≠ [] := fun he => hs (String.toList_eq_nil_iff.1 he)
    have hread := RefreshClaims.ofToken_token hr hrange now
    rw [if_neg hsubject, if_neg (Int.not_le.2 hlt)] at hread
    simpa only [refresh] using hread

/-- Both kinds are read exactly as they are spelled, and no text is a token of both, whenever it is
read. -/
theorem kinds_exact (now : Instant) : access.Exact now ∧ refresh.Exact now ∧
    ∀ later t, access.read now t = .error .invalid ∨ refresh.read later t = .error .invalid := by
  refine ⟨access_exact now, refresh_exact now, fun later t => ?_⟩
  by_cases h : ∃ c, access.Spelled t c
  · obtain ⟨c, hc⟩ := h
    exact .inr (RefreshClaims.ofToken_of_spelled_access hc later)
  · exact .inl (((access_exact now).invalid_iff t).2 h)

theorem kinds_exact_tenant :
    access.read (-2000000000) (access.write ⟨"a", "r", ⟨"tenant:42"⟩, -1500000001⟩) =
        .ok ⟨"a", "r", ⟨"tenant:42"⟩, -1501000000⟩ ∧
      refresh.read 0 "fake-refresh-token:r:-1:u:v" = .error .expired := by
  obtain ⟨haccess, hrefresh, -⟩ := kinds_exact (-2000000000)
  obtain ⟨-, hlate, -⟩ := kinds_exact 0
  constructor
  · exact haccess.read_write _ ⟨by decide, by decide, by decide, by decide⟩ (by decide)
  · refine (hlate.expired_iff _).2 ⟨⟨"r", ⟨"u:v"⟩, -1 * 1000000⟩, ?_, by decide⟩
    exact .mk (r := "r") (m := "-1") (s := "u:v") (by decide)
      (.mk (.minus (.one rfl)) (by decide) (by decide) (by decide)) (by decide)

end Token

end Registrar
