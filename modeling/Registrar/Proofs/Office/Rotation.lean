import Mathlib.Data.Finset.Card
import Mathlib.Data.List.Dedup
import Mathlib.Data.Finset.Image
import Registrar.Proofs.Office.Issue
/-!
Rotation. A pair is redeemed once at most: whoever is given a new one for it, or logs out with it,
has taken its refresh entry out, and that can be done once. A refresh writes nothing before it has
done so. So there are never more live refresh entries than logins.
-/
set_option autoImplicit false

namespace Registrar

namespace Crowd

section

variable {T : Trade} {P : Answers} {s : Crowd T}

theorem exists_did {moves : List (Move T)} {d : ServedCall} (hd : d ∈ (s.play moves).log) :
    d ∈ s.log ∨ ∃ before m after, moves = before ++ m :: after ∧ (s.play before).did m = some d := by
  induction moves generalizing s with
  | nil => exact .inl hd
  | cons m moves ih =>
    rcases ih hd with hd | ⟨before, m', after, rfl, hm⟩
    · rw [act_log, List.mem_append, Option.mem_toList] at hd
      rcases hd with hd | hd
      · exact .inr ⟨[], m, moves, rfl, hd⟩
      · exact .inl hd
    · exact .inr ⟨m :: before, m', after, rfl, hm⟩

theorem act_takes (ho : s.Orderly P) (hP : ∀ length, P (.pause length) ()) {m : Move T}
    {d : ServedCall} (hd : s.did m = some d) {key : String} (ht : d.takes key = true) :
    (s.world.store.find? s.now key).isSome = true ∧
      (s.act m).world.store.find? (s.act m).now key = none := by
  rcases act_store ho hP m with ⟨-, hns⟩ | ⟨who, c, a, st, hdid, hp, hs⟩
  · have hmark := ServedCall.mark?_of_takes ht
    rw [ServedCall.mark?_of_not_store (hns d hd)] at hmark
    cases hmark
  · cases hd.symm.trans hdid
    have hmark : c.mark? key s.now a = some none := ServedCall.mark?_of_takes ht
    have hadj : key ∉ c.adjusts := by
      obtain ⟨rfl, -⟩ := of_decide_eq_true (show c.takes key a = true from ht)
      exact List.not_mem_nil
    refine ⟨(Store.perform_agrees hp).of_takes ht, ?_⟩
    rw [hs]
    rcases Store.perform_marked hp hadj with hget | ⟨hn, -⟩
    · rw [hmark] at hget
      rw [Store.find?, hget]
      rfl
    · rw [hmark] at hn
      cases hn

end

variable {s : Crowd office} {ids : Nat → String} {first : Nat} {trace : Nat → List Event}
  {m : Move office}

theorem lawful_neat {w : World} (hw : w.Calm) (hplan : w.faults.Within sincere)
    (hfresh : ∀ n, w.minted ≤ n → w.store.entries.get? (w.ids n) = none) {moves : List (Move office)}
    (h : (around w).Lawful (fun _ => Private w.ids) moves) :
    ((around w).play moves).Orderly sincere ∧
      (∃ trace, ((around w).play moves).Chronicle sincere w.minted trace) ∧
      ((around w).play moves).Neat w.ids w.minted :=
  h.chronicle (fun _ => trivial) (fun _ _ hm => hm) (fun _ _ _ ho hc hm ht => ht.act ho hc hm) hw
    hplan (neat_around hfresh)

theorem lawful_presented {w : World} {moves : List (Move office)}
    (h : (around w).Lawful OnlyIssued moves) : ((around w).play moves).Presented :=
  h.preserves (fun _ _ hm hp => hp.act hm) (by simp [Presented, around, role?])

/-- Whoever has been given a new pair for a pair, or has logged out with it. -/
def Redeems (s : Crowd office) (i : Nat) (p : TokenPair) : Prop :=
  (∃ a ctx r, s.parties[i]? = some ⟨.job (.refresh a ctx p.refreshToken), .done (.ok r)⟩) ∨
    ∃ ctx, s.parties[i]? = some ⟨.job (.logout ctx p.accessToken), .done (.ok ())⟩

def redeems (s : Crowd office) (i : Nat) (p : TokenPair) : Bool :=
  match s.parties[i]? with
  | some ⟨.job (.refresh _ _ token), .done (.ok _)⟩ => token == p.refreshToken
  | some ⟨.job (.logout _ token), .done (.ok _)⟩ => token == p.accessToken
  | _ => false

theorem redeems_eq_true {i : Nat} {p : TokenPair} : s.redeems i p = true ↔ s.Redeems i p := by
  unfold redeems
  constructor
  · intro h
    split at h
    · rename_i a ctx token r hi
      obtain rfl := eq_of_beq h
      exact .inl ⟨a, ctx, r, hi⟩
    · rename_i ctx token r hi
      obtain rfl := eq_of_beq h
      exact .inr ⟨ctx, hi⟩
    · cases h
  · rintro (⟨a, ctx, r, hi⟩ | ⟨ctx, hi⟩) <;> rw [hi] <;> exact beq_self_eq_true _

instance (s : Crowd office) (i : Nat) (p : TokenPair) : Decidable (s.Redeems i p) :=
  decidable_of_iff (s.redeems i p = true) redeems_eq_true

theorem Chronicle.takes (hc : s.Chronicle sincere first trace) {i : Nat} {key : String} {e : Event}
    (he : e ∈ trace i) (hs : e.Says (.del [key]) (1 : Nat)) :
    ∃ d ∈ s.log, d.who = some i ∧ d.takes key = true := by
  obtain ⟨who, time, rfl⟩ := hs
  obtain ⟨hlog, hwho⟩ := hc.told_iff.1 he
  exact ⟨_, hlog, hwho, decide_eq_true ⟨rfl, rfl⟩⟩

theorem Redeems.takes (hc : s.Chronicle sincere first trace) (hids : s.world.ids = ids)
    (hbare : ∀ n, Plain.Bare (ids n)) {i j : Nat} {p : TokenPair} (hp : s.Issues j p)
    (h : s.Redeems i p) : ∃ d ∈ s.log, d.who = some i ∧ d.takes p.refreshId = true := by
  obtain ⟨subject, -, -, hformed, -⟩ := hc.issued hids hbare hp
  rcases h with ⟨a, ctx, r, hi⟩ | ⟨ctx, hi⟩
  · have hends := hc.ends hids hi
    generalize htrace : trace i = h at hends
    cases hends with
    | @mk t claims g d h _ hclaims hg hd hnew =>
      obtain ⟨-, -, rfl⟩ := hformed.refresh_iff.1 hclaims
      refine hc.takes (i := i) (e := d) ?_ hd
      rw [htrace]
      cases hnew
      simp
  · have hends : Accounts.Left p.accessToken (trace i) (.ok ()) := hc.ends hids hi
    generalize htrace : trace i = h at hends
    generalize hr : (Except.ok () : Except AccountError Unit) = r at hends
    cases hends with
    | @removed t claims g d e m n hclaims hg hd he =>
      obtain ⟨-, -, rfl⟩ := hformed.access_iff.1 hclaims
      split at hr
      · rename_i hmn
        obtain ⟨-, rfl⟩ := hmn
        exact hc.takes (by simp [htrace]) he
      · cases hr
    | refused | missing | failed => cases hr

/-- The key under which a visit has written the refresh half of its pair, which is the second that
it was to write under. -/
def renewal? (s : Crowd office) (i : Nat) : Option String :=
  match (s.servedCalls i).filterMap ServedCall.set? with
  | [key, _] => some key
  | _ => none

def Renewable (s : Crowd office) (key : String) : Prop :=
  (∃ i, s.renewal? i = some key) ∧ (s.world.store.find? s.now key).isSome = true

def isLogin (s : Crowd office) (i : Nat) : Bool :=
  match s.role? i with
  | some (.job v) => v.isLogin
  | _ => false

/-- The logins that have been asked for. -/
def logins (s : Crowd office) : List Nat := (List.range s.parties.length).filter s.isLogin

theorem Chronicle.renewal (hc : s.Chronicle sincere first trace) {i : Nat} {key : String} :
    s.renewal? i = some key ↔ ∃ other, written (trace i) = [key, other] := by
  unfold renewal? written
  rw [hc.servedCalls]
  constructor
  · intro h
    split at h
    · rename_i k other hk
      cases h
      exact ⟨other, hk⟩
    · cases h
  · rintro ⟨other, h⟩
    simp [h]

theorem Chronicle.refresh_took (hc : s.Chronicle sincere first trace) (hids : s.world.ids = ids)
    {i : Nat} {a : Accounts} {ctx : Context} {token : String}
    (hi : s.role? i = some (.job (.refresh a ctx token))) {d : ServedCall} (hd : d ∈ s.log)
    (hw : d.who = some i) {key : String} (hset : d.set? = some key) :
    ∃ now claims, RefreshClaims.ofToken now token = .ok claims ∧
      ∃ e ∈ s.log, e.who = some i ∧ e.takes claims.refreshId = true := by
  obtain ⟨value, ttl, hcall⟩ := ServedCall.call_of_set? hset
  rcases hc.servedCall hids hd hw with ⟨v, later, earlier, hv, htrace, hmay⟩ | hns
  · cases hi.symm.trans hv
    rw [hcall] at hmay
    cases hmay with
    | @refreshWrites _ _ _ t claims g x _ _ hclaims hg hx hwrites =>
      refine ⟨t.wall, claims, hclaims, hc.takes (e := x) ?_ hx⟩
      rw [htrace]
      cases hwrites <;> simp
  · exact absurd hcall (hns _)

theorem Presented.took (hp : s.Presented) (hc : s.Chronicle sincere first trace)
    (hids : s.world.ids = ids) (hbare : ∀ n, Plain.Bare (ids n)) {i : Nat} {key : String}
    (hi : s.renewal? i = some key) (hl : s.isLogin i = false) :
    ∃ j n, n ∈ mints (trace j) ∧ s.renewal? j = some (ids n) ∧
      ∃ d ∈ s.log, d.who = some i ∧ d.takes (ids n) = true := by
  obtain ⟨other, hwritten⟩ := hc.renewal.1 hi
  have hmem : key ∈ written (trace i) := by simp [hwritten]
  rw [written, hc.servedCalls] at hmem
  obtain ⟨d, hd, hset⟩ := List.mem_filterMap.1 hmem
  obtain ⟨hd, hw⟩ : d ∈ s.log ∧ d.who = some i := by simpa [servedCalls] using hd
  obtain ⟨value, ttl, hcall⟩ := ServedCall.call_of_set? hset
  rcases hc.servedCall hids hd hw with ⟨v, later, earlier, hv, -, hmay⟩ | hns
  · rw [hcall] at hmay
    cases hmay with
    | register hcalls | allocate hcalls =>
      obtain ⟨day, -, hkeys⟩ := hcalls.counter
      cases hkeys
    | login hwrites => simp [isLogin, hv, Visit.isLogin] at hl
    | @refreshWrites a ctx token =>
      obtain ⟨now, claims, hclaims, e, he, hwe, hte⟩ := hc.refresh_took hids hv hd hw hset
      obtain ⟨j, p, hj, ht⟩ := hp i _ hv token rfl
      obtain ⟨subject, k, n, hformed, hmints, hboth, -, hrid⟩ := hc.issued hids hbare hj
      rcases ht with rfl | rfl
      · rw [hformed.refresh_of_access] at hclaims
        cases hclaims
      · obtain ⟨-, -, rfl⟩ := hformed.refresh_iff.1 hclaims
        exact ⟨j, n, by simp [hmints], hc.renewal.2 ⟨_, hboth⟩, e, he, hwe, hrid ▸ hte⟩
  · exact absurd hcall (hns _)

/-- Each refresh that writes a refresh half takes out another, so that the live ones are no more than
the logins. -/
theorem renewable_le (ht : s.Neat ids first) (hc : s.Chronicle sincere first trace)
    (hp : s.Presented) (hids : Function.Injective ids) (hbare : ∀ n, Plain.Bare (ids n))
    {keys : List String} (hn : keys.Nodup) (hkeys : ∀ key ∈ keys, s.Renewable key) :
    keys.length ≤ s.logins.length := by
  classical
  -- Those who have written a refresh half, with a login and without.
  let writers := (Finset.range s.parties.length).filter fun i => (s.renewal? i).isSome
  let renewers := writers.filter fun i => s.isLogin i = false
  have present : ∀ {i key}, s.renewal? i = some key → i ∈ writers := by
    intro i key hi
    refine Finset.mem_filter.2 ⟨Finset.mem_range.2 ?_, by simp [hi]⟩
    by_contra hlen
    have hgone := hc.unborn i (List.getElem?_eq_none (Nat.le_of_not_lt hlen))
    obtain ⟨other, hwritten⟩ := hc.renewal.1 hi
    rw [hgone] at hwritten
    cases hwritten
  -- Whose half each of the others has taken out.
  have took : ∀ i ∈ renewers, ∃ j n, n ∈ mints (trace j) ∧ s.renewal? j = some (ids n) ∧
      ∃ d ∈ s.log, d.who = some i ∧ d.takes (ids n) = true := by
    intro i hi
    obtain ⟨hw, hl⟩ := Finset.mem_filter.1 hi
    obtain ⟨key, hkey⟩ := Option.isSome_iff_exists.1 (Finset.mem_filter.1 hw).2
    exact hp.took hc ht.supply hbare hkey hl
  choose! prior number hmint hprior htaken using took
  have hinj : Set.InjOn prior renewers := by
    intro i hi j hj hij
    obtain ⟨d, hd, hwd, htd⟩ := htaken i hi
    obtain ⟨e, he, hwe, hte⟩ := htaken j hj
    have hsame : ids (number i) = ids (number j) :=
      Option.some.inj ((hprior i hi).symm.trans (hij ▸ hprior j hj))
    have hde := ht.take_once hc hids (hc.minted _ _ (hmint i hi)).1 hd he htd (hsame ▸ hte)
    exact Option.some.inj (hwd.symm.trans ((congrArg ServedCall.who hde).trans hwe))
  -- The live halves belong to those whose half nobody has taken out.
  have owner : ∀ key ∈ keys.toFinset, ∃ i ∈ writers \ renewers.image prior, s.renewal? i = some key := by
    intro key hkey
    obtain ⟨⟨i, hi⟩, hlive⟩ := hkeys key (List.mem_toFinset.1 hkey)
    refine ⟨i, Finset.mem_sdiff.2 ⟨present hi, fun himage => ?_⟩, hi⟩
    obtain ⟨j, hj, rfl⟩ := Finset.mem_image.1 himage
    obtain ⟨d, hd, -, htd⟩ := htaken j hj
    have hkey : key = ids (number j) := Option.some.inj (hi.symm.trans (hprior j hj))
    have hgone := ht.gone_of_take hc hids (hc.minted _ _ (hmint j hj)).1 hd htd
    rw [hkey, hgone] at hlive
    cases hlive
  choose! holder hholder hrenewal using owner
  have hheld : keys.toFinset.card ≤ (writers \ renewers.image prior).card := by
    refine Finset.card_le_card_of_injOn holder hholder fun k hk l hl hkl => ?_
    exact Option.some.inj ((hrenewal k hk).symm.trans (hkl ▸ hrenewal l hl))
  have hsub : renewers.image prior ⊆ writers := by
    intro j hj
    obtain ⟨i, hi, rfl⟩ := Finset.mem_image.1 hj
    exact present (hprior i hi)
  have hcard := Finset.card_sdiff_add_card_eq_card hsub
  have himage := Finset.card_image_of_injOn hinj
  have hsplit : renewers.card + (writers.filter fun i => ¬ s.isLogin i = false).card = writers.card :=
    Finset.card_filter_add_card_filter_not _
  have hlogins : (writers.filter fun i => ¬ s.isLogin i = false) ⊆ s.logins.toFinset := by
    intro i hi
    simp only [writers, Finset.mem_filter, Finset.mem_range, Bool.not_eq_false] at hi
    simpa [logins] using ⟨hi.1.1, hi.2⟩
  have hle := (Finset.card_le_card hlogins).trans (List.toFinset_card_le _)
  have hlen := List.toFinset_card_of_nodup hn
  omega

/-- A look by which a visit takes out the live entry under a key. -/
def TakesOut (s : Crowd office) (i : Nat) (key : String) : Prop :=
  (s.world.store.find? s.now key).isSome = true ∧
    (s.act (.look i)).world.store.find? (s.act (.look i)).now key = none ∧
    ∃ d ∈ s.did (.look i), d.takes key = true

/-- A look by which a visit writes under some key. -/
def WritesIn (s : Crowd office) (i : Nat) : Prop := ∃ d ∈ s.did (.look i), d.set?.isSome = true

theorem writes_after_taking {w : World} (hw : w.Calm) (hplan : w.faults.Within sincere)
    (hfresh : ∀ n, w.minted ≤ n → w.store.entries.get? (w.ids n) = none)
    {before : List (Move office)} {i : Nat}
    (h : (around w).Lawful (fun _ => Private w.ids) (before ++ [.look i])) {a : Accounts}
    {ctx : Context} {token : String}
    (hi : ((around w).play before).role? i = some (.job (.refresh a ctx token)))
    (hwrites : ((around w).play before).WritesIn i) :
    ∃ early late now claims, before = early ++ .look i :: late ∧
      RefreshClaims.ofToken now token = .ok claims ∧
      ((around w).play early).TakesOut i claims.refreshId := by
  obtain ⟨d, hd, hset⟩ := hwrites
  obtain ⟨key, hkey⟩ := Option.isSome_iff_exists.1 hset
  obtain ⟨-, ⟨trace, hc⟩, ht⟩ := lawful_neat hw hplan hfresh h
  rw [play_append] at hc ht
  change (((around w).play before).act (.look i)).Chronicle sincere w.minted trace at hc
  have hlog : (((around w).play before).act (.look i)).log = d :: ((around w).play before).log := by
    rw [act_log, show ((around w).play before).did (.look i) = some d from hd]
    rfl
  have hwho : d.who = some i := by
    rcases (did_eq_some hd).2 with ⟨j, p, hj, -, hserved⟩ | ⟨-, ⟨c, hm, -⟩ | ⟨token, hm, -⟩⟩
    · cases hj
      exact (Activity.servedCall_eq_some hserved).1
    · cases hm
    · cases hm
  have hi' : (((around w).play before).act (.look i)).role? i =
      some (.job (.refresh a ctx token)) := role?_stays hi _
  obtain ⟨now, claims, hclaims, e, he, hwe, hte⟩ :=
    hc.refresh_took ht.supply hi' (hlog ▸ List.mem_cons_self) hwho hkey
  rw [hlog] at he
  rcases List.mem_cons.1 he with rfl | he
  · rw [ServedCall.set?_of_takes hte] at hkey
    cases hkey
  · rcases exists_did he with hstart | ⟨early, m, late, rfl, hdid⟩
    · cases hstart
    · obtain rfl : m = .look i := by
        rcases (did_eq_some hdid).2 with ⟨j, p, rfl, -, hserved⟩ | ⟨hnone, -⟩
        · rw [(Activity.servedCall_eq_some hserved).1] at hwe
          rw [Option.some.inj hwe]
        · rw [hnone] at hwe
          cases hwe
      have horder := (lawful_neat hw hplan hfresh h.of_append.of_append).1
      have htakes := act_takes horder (fun _ => trivial) hdid hte
      exact ⟨early, late, now, claims, rfl, hclaims, htakes.1, htakes.2, e, hdid, hte⟩

/-- A refresh entry is consumed once at most. -/
theorem refresh_consumed_once {w : World} (hw : w.Calm) (hplan : w.faults.Within sincere)
    (hids : Function.Injective w.ids) (hbare : ∀ n, Plain.Bare (w.ids n))
    (hfresh : ∀ n, w.minted ≤ n → w.store.entries.get? (w.ids n) = none) {moves : List (Move office)}
    (h : (around w).Lawful (fun _ => Private w.ids) moves) {s : Crowd office}
    (hs : s = (around w).play moves) :
    (∀ p, (∃ k, s.Issues k p) → ∀ i j, s.Redeems i p → s.Redeems j p → i = j) ∧
      (∀ (before : List (Move office)) i after, moves = before ++ .look i :: after → ∀ a ctx token,
        ((around w).play before).role? i = some (.job (.refresh a ctx token)) →
        ((around w).play before).WritesIn i →
        ∃ early late now claims, before = early ++ .look i :: late ∧
          RefreshClaims.ofToken now token = .ok claims ∧
          ((around w).play early).TakesOut i claims.refreshId) ∧
      ((around w).Lawful OnlyIssued moves → ∀ keys : List String, keys.Nodup →
        (∀ key ∈ keys, s.Renewable key) → keys.length ≤ s.logins.length) := by
  obtain ⟨-, ⟨trace, hc⟩, ht⟩ := lawful_neat hw hplan hfresh h
  rw [← hs] at hc ht
  refine ⟨?_, ?_, ?_⟩
  · rintro p ⟨k, hk⟩ i j hi hj
    obtain ⟨d, hd, hwd, htd⟩ := hi.takes hc ht.supply hbare hk
    obtain ⟨e, he, hwe, hte⟩ := hj.takes hc ht.supply hbare hk
    obtain ⟨subject, x, n, -, hmints, -, -, hrid⟩ := hc.issued ht.supply hbare hk
    rw [hrid] at htd hte
    have hde := ht.take_once hc hids (hc.minted k n (by simp [hmints])).1 hd he htd hte
    exact Option.some.inj (hwd.symm.trans ((congrArg ServedCall.who hde).trans hwe))
  · rintro before i after rfl a ctx token hi hwrites
    rw [List.append_cons] at h
    exact writes_after_taking hw hplan hfresh h.of_append hi hwrites
  · intro hissued keys hn hkeys
    have hp := lawful_presented hissued
    rw [← hs] at hp
    exact renewable_le ht hc hp hids hbare hn hkeys

/-- A refresh and a logout go for one pair at once. -/
def race : List (Move office) :=
  .join (.refresh .brief unending firstPair.refreshToken) ::
    .join (.logout unending firstPair.accessToken) :: (List.replicate 16 [.look 1, .look 2]).flatten

theorem lawful_race : (around .numbered).Lawful OnlyIssued (arrival ++ race) := by
  refine Lawful.append ?_ ?_
  · simp [arrival, Lawful, OnlyIssued, Visit.token?, List.replicate]
  · have hrefresh : ((around .numbered).play arrival).Authentic firstPair.refreshToken :=
      ⟨0, firstPair, issues_firstPair, .inr rfl⟩
    have haccess : ((around .numbered).play arrival).Authentic firstPair.accessToken :=
      ⟨0, firstPair, issues_firstPair, .inl rfl⟩
    have haccess := haccess.act (.join (.refresh .brief unending firstPair.refreshToken))
    simpa [race, Lawful, OnlyIssued, Visit.token?, List.replicate] using ⟨hrefresh, haccess⟩

theorem refresh_consumed_once_race :
    ((around .numbered).play (arrival ++ race)).Redeems 1 firstPair ∧
      (∀ j, ((around .numbered).play (arrival ++ race)).Redeems j firstPair → j = 1) ∧
      ∀ keys : List String, keys.Nodup →
        (∀ key ∈ keys, ((around .numbered).play (arrival ++ race)).Renewable key) → keys.length ≤ 1 := by
  have hlaw : (around .numbered).Lawful (fun _ => Private World.numbered.ids) (arrival ++ race) := by
    simp [arrival, race, Lawful, Private, Visit.allocator?, List.replicate]
  obtain ⟨honce, -, hle⟩ := refresh_consumed_once World.numbered_calm (Faults.within_none _)
    World.numbered_injective World.numbered_bare World.numbered_fresh hlaw rfl
  have hissued : ((around .numbered).play (arrival ++ race)).Issues 0 firstPair := by decide +kernel
  have hwon : ((around .numbered).play (arrival ++ race)).Redeems 1 firstPair := by decide +kernel
  have hlogins : ((around .numbered).play (arrival ++ race)).logins.length = 1 := by decide +kernel
  refine ⟨hwon, fun j hj => honce _ ⟨0, hissued⟩ j 1 hj hwon, fun keys hn hkeys => ?_⟩
  exact hlogins ▸ hle lawful_race keys hn hkeys

end Crowd

end Registrar
