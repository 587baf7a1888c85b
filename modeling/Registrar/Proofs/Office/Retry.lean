import Registrar.Proofs.Office.Rotation
import Registrar.Proofs.Service
/-!
Logging out once more. A logout removes the access half of a pair before the refresh half, and looks
the access half up before either. So one that is answered throughout leaves no half of the pair,
unless another has stopped between the two: then no logout comes to the refresh half any more.
-/
set_option autoImplicit false

namespace Registrar

namespace ServedCall

variable {key : String} {d : ServedCall}

/-- A visit has read or removed what is under a key. -/
def Touches (key : String) (d : ServedCall) : Prop :=
  d.who.isSome = true ∧ d.set? = none ∧ ∃ c, d.call = .store c ∧ key ∈ c.keys

theorem Removes.touches (h : d.Removes key) (hw : d.who.isSome = true) : d.Touches key := by
  obtain ⟨keys, hcall, hk⟩ := h.call
  exact ⟨hw, by rw [set?, hcall], _, hcall, hk⟩

end ServedCall

theorem replay_removed {key : String} {later earlier : List ServedCall} {d : ServedCall}
    (hd : d.Removes key)
    (hlater : ∀ e ∈ later, e.set? ≠ some key) : replay key (later ++ d :: earlier) = none := by
  induction later with
  | nil =>
    have hmark : d.mark? key = some none := hd
    rw [List.nil_append, replay, hmark]
    rfl
  | cons e later ih =>
    simp only [List.mem_cons, forall_eq_or_imp] at hlater
    rw [List.cons_append, replay]
    cases hm : e.mark? key with
    | none => exact ih hlater.2
    | some mark =>
      cases mark with
      | none => rfl
      | some entry => exact absurd (ServedCall.set?_of_puts (by simp [ServedCall.puts, hm])) hlater.1

namespace Crowd

variable {s : Crowd office} {ids : Nat → String} {first : Nat} {trace : Nat → List Event}
  {m : Move office}

/-- Nothing is written under an identifier after a visit has read or removed what is there. -/
def Settled (ids : Nat → String) (first : Nat) (s : Crowd office) : Prop :=
  s.log.Pairwise fun later earlier =>
    ∀ n, first ≤ n → earlier.Touches (ids n) → later.set? ≠ some (ids n)

theorem Chronicle.writer (hc : s.Chronicle sincere first trace) (hids : s.world.ids = ids)
    (hinj : Function.Injective ids) (hm : Private ids m)
    {d : ServedCall} (hd : s.did m = some d) {n : Nat}
    (hset : d.set? = some (ids n)) : ∃ i, s.Busy i ∧ n ∈ mints (trace i) := by
  obtain ⟨value, ttl, hcall⟩ := ServedCall.call_of_set? hset
  rcases hc.did hids hd hcall with ⟨i, v, -, -, -, hbusy, hmay⟩ | ⟨-, rfl⟩
  · refine ⟨i, hbusy, ?_⟩
    rcases hmay.written with ⟨x, y, hmints, -, hkey⟩ | ⟨x, y, hmints, -, hkey⟩
    · simp [hmints, hinj hkey]
    · simp [hmints, hinj hkey]
  · exact absurd (List.mem_singleton_self _) (hm n)

theorem Presented.touches (hp : s.Presented) (ht : s.Neat ids first)
    (hc : s.Chronicle sincere first trace) (hbare : ∀ n, Plain.Bare (ids n)) {d : ServedCall}
    (hd : d ∈ s.log) {n : Nat} (htouch : d.Touches (ids n)) :
    ∃ i v j p, d.who = some i ∧ s.role? i = some (.job v) ∧
      (∃ earlier, v.May ids earlier d.call) ∧ s.Issues j p ∧
      (∃ token ∈ v.token?, token = p.accessToken ∨ token = p.refreshToken) ∧
      ∃ k ∈ mints (trace j), ids n = ids k := by
  obtain ⟨hwho, hset, c, hcall, hk⟩ := htouch
  obtain ⟨i, hw⟩ := Option.isSome_iff_exists.1 hwho
  rcases hc.servedCall ht.supply hd hw with ⟨v, later, earlier, hv, -, hmay⟩ | hns
  · have hmay' := hmay
    rw [hcall] at hmay'
    rcases hmay'.names hk with ⟨a, ha, day, hkey⟩ | ⟨value, ttl, rfl⟩ | hnames
    · exact absurd hkey (ht.counters i v hv a ha n day)
    · simp [ServedCall.set?, hcall] at hset
    · obtain ⟨j, p, hj, htoken, hmint⟩ := hp.names hc ht.supply hbare hv hnames
      exact ⟨i, v, j, p, hw, hv, ⟨earlier, hmay⟩, hj, htoken, hmint⟩
  · exact absurd hcall (hns c)

theorem Issues.not_busy {i : Nat} {p : TokenPair} (h : s.Issues i p) : ¬ s.Busy i := by
  rintro ⟨q, hi, g, c, held, k, hr⟩
  rcases h with ⟨a, ctx, subject, h⟩ | ⟨a, ctx, token, h⟩
  all_goals
    obtain rfl := Option.some.inj (hi.symm.trans h)
    cases hr

theorem Settled.act (hs : s.Settled ids first) (ht : s.Neat ids first)
    (hc : s.Chronicle sincere first trace) (hp : s.Presented) (hinj : Function.Injective ids)
    (hbare : ∀ n, Plain.Bare (ids n)) (hm : Private ids m) : (s.act m).Settled ids first := by
  unfold Settled
  rw [act_log]
  cases hdid : s.did m with
  | none => exact hs
  | some d =>
    refine List.pairwise_cons.2 ⟨fun e he n hn htouch hset => ?_, hs⟩
    -- Who writes there is at it still, but the pair that names the entry has been issued.
    obtain ⟨i, hbusy, hmint⟩ := hc.writer ht.supply hinj hm hdid hset
    obtain ⟨-, -, j, p, -, -, -, hj, -, x, hx, hkey⟩ := hp.touches ht hc hbare he htouch
    obtain rfl := hinj hkey
    obtain rfl := hc.apart i j n hmint hx
    exact hj.not_busy hbusy

theorem Settled.gone (hs : s.Settled ids first) (ht : s.Neat ids first) {n : Nat} (hn : first ≤ n)
    {d : ServedCall} (hd : d ∈ s.log) (hw : d.who.isSome = true) (hr : d.Removes (ids n)) :
    s.world.store.find? s.now (ids n) = none := by
  obtain ⟨later, earlier, hlog⟩ := List.append_of_mem hd
  have hlater : ∀ e ∈ later, e.set? ≠ some (ids n) := by
    have hpairs := hs
    rw [Settled, hlog] at hpairs
    exact fun e he => (List.pairwise_append.1 hpairs).2.2 e he d List.mem_cons_self n hn (hr.touches hw)
  rw [(ht.ledger n hn).find?, hlog, replay_removed hr hlater]
  rfl

theorem Settled.gone_half (hs : s.Settled ids first) (ht : s.Neat ids first)
    (hc : s.Chronicle sincere first trace) (hbare : ∀ n, Plain.Bare (ids n)) {j : Nat} {p : TokenPair}
    (hj : s.Issues j p) {key : String} (hkey : key ∈ [p.accessId, p.refreshId]) {d : ServedCall}
    (hd : d ∈ s.log) (hw : d.who.isSome = true) (hr : d.Removes key) :
    s.world.store.find? s.now key = none := by
  obtain ⟨-, m, n, -, hmints, -, hm, hn⟩ := hc.issued ht.supply hbare hj
  have hfirst : ∀ k ∈ [n, m], first ≤ k := fun k hk => (hc.minted j k (hmints ▸ hk)).1
  rcases List.mem_pair.1 hkey with rfl | rfl
  · rw [hm] at hr ⊢
    exact hs.gone ht (hfirst m (by simp)) hd hw hr
  · rw [hn] at hr ⊢
    exact hs.gone ht (hfirst n (by simp)) hd hw hr

theorem Settled.written_before (hs : s.Settled ids first) {n : Nat} (hn : first ≤ n)
    {d e : ServedCall}
    {later earlier : List ServedCall} (hlog : s.log = later ++ d :: earlier) (hd : d.Touches (ids n))
    (he : e ∈ s.log) (hset : e.set? = some (ids n)) : e ∈ earlier := by
  have hpairs := hs
  rw [Settled, hlog] at hpairs
  rw [hlog, List.mem_append, List.mem_cons] at he
  rcases he with he | rfl | he
  · exact absurd hset ((List.pairwise_append.1 hpairs).2.2 e he d List.mem_cons_self n hn hd)
  · cases hd.2.1.symm.trans hset
  · exact he

theorem lawful_settled {w : World} (hw : w.Calm) (hplan : w.faults.Within sincere)
    (hinj : Function.Injective w.ids) (hbare : ∀ n, Plain.Bare (w.ids n))
    (hfresh : ∀ n, w.minted ≤ n → w.store.entries.get? (w.ids n) = none) {moves : List (Move office)}
    (h : (around w).Lawful (fun s m => Private w.ids m ∧ s.OnlyIssued m) moves) {s : Crowd office}
    (hs : s = (around w).play moves) :
    (∃ trace, s.Chronicle sincere w.minted trace) ∧ s.Neat w.ids w.minted ∧ s.Presented ∧
      s.Settled w.ids w.minted := by
  subst hs
  refine (h.chronicle (I := fun s => s.Neat w.ids w.minted ∧ s.Presented ∧ s.Settled w.ids w.minted)
    (fun _ => trivial) (fun _ _ hm => hm.1) ?_ hw hplan ⟨neat_around hfresh, ?_, List.Pairwise.nil⟩).2
  · intro s m trace ho hc hm ⟨ht, hp, hs⟩
    exact ⟨ht.act ho hc hm.1, hp.act hm.2, hs.act ht hc hp hinj hbare hm.1⟩
  · simp [Presented, around, role?]

/-- A visit that has ended without a call of it failing. -/
def Served (s : Crowd office) (i : Nat) : Prop :=
  ∃ (v : Visit) (r : v.Yield) (h : List Event), s.parties[i]? = some ⟨.job v, .done r⟩ ∧
    v.flow.Leads sincere s.world.ids h (.done r) ∧ heard h = s.servedCalls i ∧ ∀ e ∈ h, ∀ c, ¬ e.Fails c

theorem Chronicle.served_iff (hc : s.Chronicle sincere first trace) {i : Nat} {ctx : Context}
    {token : String} {r : Except AccountError Unit}
    (hi : s.parties[i]? = some ⟨.job (.logout ctx token), .done r⟩) :
    s.Served i ↔ r ≠ .error .internal := by
  constructor
  · rintro ⟨v, r', h, hi', hl, -, hsaid⟩ rfl
    cases hi.symm.trans hi'
    have hleft : Accounts.Left token h (.error .internal) :=
      (Visit.keeps s.world.ids (.logout ctx token)).leads hl
    generalize hr : (Except.error .internal : Except AccountError Unit) = r at hleft
    cases hleft with
    | failed he => exact hsaid _ List.mem_cons_self _ he
    | removed => split at hr <;> cases hr
    | refused | missing => cases hr
  · intro hr
    have hleft : Accounts.Left token (trace i) r := hc.ends rfl hi
    refine ⟨.logout ctx token, r, trace i, hi, hc.ended hi, hc.servedCalls i, ?_⟩
    have said : ∀ {e : Event} {c : StoreCall} {a : c.Answer}, e.Says c a → ∀ c, ¬ e.Fails c := by
      rintro e c a ⟨who, time, rfl⟩ c' (h | ⟨who', x, time', h⟩) <;> cases h
    have read : ∀ (t : Clock) c, ¬ (Event.read t).Fails c := by
      rintro t c (h | ⟨who, x, time, h⟩) <;> cases h
    generalize trace i = h at hleft
    cases hleft with
    | refused => simpa using fun c => read _ c
    | missing _ hg => simpa using ⟨said hg, read _⟩
    | removed _ hg hd he => simpa using ⟨said he, said hd, said hg, read _⟩
    | failed => exact absurd rfl hr

theorem le_of_reading {origin moment : Int} {reading t : Nat} (h : reading ≤ t) :
    moment ≤ origin + ((t + (moment - (origin + reading)).toNat : Nat) : Int) := by
  omega

theorem Chronicle.recorded (hc : s.Chronicle sincere first trace) {i : Nat} {a : Accounts}
    {ctx : Context} {subject : Subject} {p : TokenPair}
    (hi : s.parties[i]? = some ⟨.job (.login a ctx subject), .done (.ok p)⟩) :
    ∃ d ∈ s.log, ∃ dies : Tick, d.mark? p.accessId = some (some ⟨subject.name, some dies⟩) ∧
      p.accessExpiry ≤ s.world.clock.origin + dies := by
  have hpair : Paired s.world.ids a.terms subject [] (trace i) p := hc.ends rfl hi
  have hordered := hc.ordered i
  have hread := hc.clock i
  have htold := fun d => hc.told_iff (i := i) (d := d)
  generalize trace i = h at hpair hordered hread htold
  cases hpair with
  | @mk t u m n ea er d e ha hr hd he =>
    obtain ⟨who, time, rfl⟩ := hd
    have hlog := ((htold _).1 (List.mem_cons_of_mem _ List.mem_cons_self)).1
    refine ⟨_, hlog, time + u.wall.untilInstant ea, ?_, ?_⟩
    · simp [Accounts.pair, ServedCall.mark?, Call.mark?, StoreCall.mark?]
    · -- The time to live was told by a reading of the clock no later than the entry.
      have hle : u.now ≤ time := by
        have hpairs := (List.pairwise_cons.1 (List.pairwise_cons.1 hordered).2).1
        exact hpairs (.read u) List.mem_cons_self time rfl u.now rfl
      have horigin : u.origin = s.world.clock.origin := hread u (by simp)
      rw [Instant.untilInstant, Clock.wall, horigin]
      exact le_of_reading hle

/-- What a visit removes from under the access identifier of a pair it removes in a logout from the
pair. -/
theorem Presented.access_remover (hp : s.Presented) (ht : s.Neat ids first)
    (hc : s.Chronicle sincere first trace) (hinj : Function.Injective ids)
    (hbare : ∀ n, Plain.Bare (ids n)) {j : Nat} {p : TokenPair} (hj : s.Issues j p) {d : ServedCall}
    (hd : d ∈ s.log) (hw : d.who.isSome = true) (hr : d.Removes p.accessId) :
    ∃ l ctx, d.who = some l ∧ s.role? l = some (.job (.logout ctx p.accessToken)) ∧
      d.call = .store (.del [p.accessId]) := by
  obtain ⟨subject, x, y, hformed, hmints, -, hx, hy⟩ := hc.issued ht.supply hbare hj
  have hne : p.accessId ≠ p.refreshId := by
    have hnodup := hc.once j
    rw [hmints] at hnodup
    rw [hx, hy]
    exact fun h => (List.pairwise_cons.1 hnodup).1 x (by simp) (hinj h).symm
  have htouch := hr.touches hw
  obtain ⟨keys, hcall, hkey⟩ := hr.call
  rw [hx] at htouch
  obtain ⟨l, v, j', p', hl, hv, ⟨earlier, hmay⟩, hj', ⟨token, hvt, htoken⟩, k, hk, hxk⟩ :=
    hp.touches ht hc hbare hd htouch
  obtain rfl := hinj hxk
  obtain rfl := hc.apart j j' x (by simp [hmints]) hk
  obtain rfl : p' = p := Option.some.inj ((issued?_eq_some.2 hj').symm.trans (issued?_eq_some.2 hj))
  rw [hcall] at hmay
  obtain ⟨key, rfl, hrevokes, hnames⟩ := hmay.removes
  obtain rfl := List.mem_singleton.1 hkey
  cases v with
  | logout ctx token =>
    cases hvt
    obtain ⟨now, claims, hclaims, -⟩ := hnames
    rcases htoken with rfl | rfl
    · exact ⟨l, ctx, hl, hv, hcall⟩
    · rw [hformed.access_of_refresh] at hclaims
      cases hclaims
  | refresh a ctx token =>
    cases hvt
    obtain ⟨now, claims, hclaims, hid⟩ := hnames
    rcases htoken with rfl | rfl
    · rw [hformed.refresh_of_access] at hclaims
      cases hclaims
    · obtain ⟨-, -, rfl⟩ := hformed.refresh_iff.1 hclaims
      exact absurd hid hne
  | register a ctx => cases hrevokes
  | allocate a o => cases hrevokes
  | login a ctx subject => cases hrevokes
  | authenticate ctx token => cases hrevokes

section

variable {i j : Nat} {a : Accounts} {ctx : Context} {subject : Subject} {p : TokenPair}
  (hs : s.Settled ids first) (hp : s.Presented) (ht : s.Neat ids first)
  (hc : s.Chronicle sincere first trace) (hinj : Function.Injective ids)
  (hbare : ∀ n, Plain.Bare (ids n))
include hs hp ht hc hinj hbare

/-- Who does not find the access half of a pair while it would be live comes after a logout that has
removed it. -/
theorem removed_before (hj : s.parties[j]? = some ⟨.job (.login a ctx subject), .done (.ok p)⟩)
    (hlt : s.world.clock.wall < p.accessExpiry) {time : Tick} {v : Option String}
    (hd : ⟨some i, .store (.get p.accessId), .ok v, time⟩ ∈ s.log) (hv : v ≠ some subject.name) :
    ∃ l ctx, s.role? l = some (.job (.logout ctx p.accessToken)) ∧
      ∃ x ∈ s.log, x.who = some l ∧ x.takes p.accessId = true := by
  have hissues : s.Issues j p := .inl ⟨a, ctx, subject, hj⟩
  obtain ⟨-, n, n', -, hmints, -, hn, -⟩ := hc.issued ht.supply hbare hissues
  have hfirst := (hc.minted j n (by simp [hmints])).1
  obtain ⟨put, hput, dies, hmark, hdies⟩ := hc.recorded hj
  have hnow : s.now < dies := by
    have hwall : s.world.clock.wall < s.world.clock.origin + dies := lt_of_lt_of_le hlt hdies
    exact Int.ofNat_lt.1 (Int.lt_of_add_lt_add_left hwall)
  have remover := fun d => hp.access_remover ht hc hinj hbare hissues (d := d)
  rw [hn] at hd hmark remover ⊢
  have hhonest := (ht.ledger n hfirst).honest
  have hputs : put.puts (ids n) = true := by rw [ServedCall.puts, hmark]; rfl
  have live : ∀ {d}, d ∈ s.log → ∀ {l}, d.who = some l →
      Entry.live d.time ⟨subject.name, some dies⟩ = true := by
    intro d hd l hw
    have hmem := hc.told_iff.2 ⟨hd, hw⟩
    exact decide_eq_true (Nat.lt_of_le_of_lt (hc.past l _ hmem _ rfl) hnow)
  obtain ⟨later, earlier, hlog⟩ := List.append_of_mem hd
  have hearlier : earlier ⊆ s.log := by
    rw [hlog]
    exact fun d hd => List.mem_append_right _ (List.mem_cons_of_mem _ hd)
  have hbefore : put ∈ earlier :=
    hs.written_before hfirst hlog ⟨rfl, rfl, _, rfl, List.mem_singleton_self _⟩ hput
      (ServedCall.set?_of_puts hputs)
  have hgone : replay (ids n) earlier = none := by
    cases hr : replay (ids n) earlier with
    | none => rfl
    | some e =>
      obtain rfl := ht.replay_put hc hinj hput hmark hearlier hr
      have hagrees := (hlog ▸ hhonest).agrees
      rw [hr, Option.filter_some, if_pos (live hd rfl)] at hagrees
      exact absurd (hagrees rfl) hv
  obtain ⟨later', x, earlier', hsplit, hx, hthere⟩ := exists_removal ⟨put, hbefore, hputs⟩ hgone
  have hxlog : x ∈ s.log := hearlier (by simp [hsplit])
  have hwho : x.who.isSome = true := by
    cases hw : x.who with
    | some l => rfl
    | none =>
      obtain ⟨keys, hcall, hkey⟩ := ServedCall.Removes.call hx
      exact absurd hkey (ht.strangers x hxlog hw _ hcall n)
  obtain ⟨l, ctx', hl, hlogout, hcall⟩ := remover x hxlog hwho hx
  refine ⟨l, ctx', hlogout, x, hxlog, hl, ?_⟩
  obtain ⟨e, he⟩ := Option.isSome_iff_exists.1 hthere
  have hsub : earlier' ⊆ s.log := fun d hd => hearlier (by simp [hsplit, hd])
  obtain rfl := ht.replay_put hc hinj hput hmark hsub he
  have hagrees : x.Agrees (ids n) ((replay (ids n) earlier').filter (Entry.live x.time)) := by
    rw [hlog, hsplit, ← List.cons_append, ← List.append_assoc] at hhonest
    exact hhonest.agrees
  rw [he, Option.filter_some, if_pos (live hxlog hl)] at hagrees
  obtain ⟨who, c, answer, time⟩ := x
  cases hcall
  cases answer with
  | error e => cases hx
  | ok n => exact decide_eq_true ⟨rfl, hagrees rfl⟩

theorem Served.removed (hserved : s.Served i)
    (hj : s.parties[j]? = some ⟨.job (.login a ctx subject), .done (.ok p)⟩)
    (hsubject : subject.name.toList ≠ []) (hlt : s.world.clock.wall < p.accessExpiry.floor)
    {ctx' : Context} (hi : s.role? i = some (.job (.logout ctx' p.accessToken))) :
    (∀ key ∈ [p.accessId, p.refreshId], ∃ d ∈ s.log, d.who.isSome = true ∧ d.Removes key) ∨
      ∃ l ctx, l ≠ i ∧ s.role? l = some (.job (.logout ctx p.accessToken)) ∧
        ∃ d ∈ s.log, d.who = some l ∧ d.takes p.accessId = true := by
  have hended := hserved
  obtain ⟨v, r, h, hparty, -⟩ := hended
  have hv : s.role? i = some (.job v) := by simp [role?, hparty]
  cases hi.symm.trans hv
  have hr := (hc.served_iff hparty).1 hserved
  have hpair : Paired ids a.terms subject [] (trace j) p := hc.ends ht.supply hj
  have htold := fun d => hc.told_iff (i := i) (d := d)
  have hread : ∀ t, .read t ∈ trace i → t.wall < p.accessExpiry.floor := by
    intro t ht
    have hle : t.now ≤ s.world.clock.now := hc.past i _ ht _ rfl
    refine lt_of_le_of_lt ?_ hlt
    rw [Clock.wall, Clock.wall, hc.clock i t ht]
    exact Int.add_le_add_left (Int.ofNat_le.2 hle) _
  have hclaims : ∀ t, .read t ∈ trace i → AccessClaims.ofToken t.wall p.accessToken =
      .ok ⟨p.accessId, p.refreshId, subject, p.accessExpiry.floor⟩ := by
    intro t ht
    exact (hpair.formed hbare).access_iff.2 ⟨hsubject, hread t ht, rfl⟩
  have hleft : Accounts.Left p.accessToken (trace i) r := hc.ends ht.supply hparty
  generalize trace i = h at htold hclaims hleft
  cases hleft with
  | refused hc =>
    rw [hclaims _ (by simp)] at hc
    cases hc
  | @missing t claims g v hc' hg hv =>
    cases (hclaims t (by simp)).symm.trans hc'
    obtain ⟨who, time, rfl⟩ := hg
    obtain ⟨hlog, hwho⟩ := (htold _).1 List.mem_cons_self
    obtain rfl : who = some i := hwho
    obtain ⟨l, ctx', hl, x, hx, hxw, htakes⟩ := removed_before hs hp ht hc hinj hbare hj
      (lt_of_lt_of_le hlt (Instant.floor_le _)) hlog hv
    refine .inr ⟨l, ctx', ?_, hl, x, hx, hxw, htakes⟩
    rintro rfl
    obtain rfl : x = _ := by simpa using (htold x).2 ⟨hx, hxw⟩
    cases htakes
  | @removed t claims g d e m n hc' hg hd he =>
    cases (hclaims t (by simp)).symm.trans hc'
    obtain ⟨who, time, rfl⟩ := hd
    obtain ⟨who', time', rfl⟩ := he
    obtain ⟨hlog, hwho⟩ := (htold _).1 (List.mem_cons_of_mem _ List.mem_cons_self)
    obtain ⟨hlog', hwho'⟩ := (htold _).1 List.mem_cons_self
    refine .inl fun key hkey => ?_
    rcases List.mem_pair.1 hkey with rfl | rfl
    · refine ⟨_, hlog, Option.isSome_of_eq_some hwho, ?_⟩
      simp [ServedCall.Removes, ServedCall.mark?, Call.mark?, StoreCall.mark?]
    · refine ⟨_, hlog', Option.isSome_of_eq_some hwho', ?_⟩
      simp [ServedCall.Removes, ServedCall.mark?, Call.mark?, StoreCall.mark?]
  | failed => exact absurd rfl hr

end

theorem role?_play {i : Nat} {e : office.Role} (h : s.role? i = some e)
    (moves : List (Move office)) : (s.play moves).role? i = some e := by
  induction moves generalizing s with
  | nil => exact h
  | cons m moves ih => exact ih (role?_stays h m)

theorem done_play {i : Nat} {e : office.Role} {r : e.Yield}
    (hi : s.parties[i]? = some ⟨e, .done r⟩) (moves : List (Move office)) :
    (s.play moves).parties[i]? = some ⟨e, .done r⟩ := by
  induction moves generalizing s with
  | nil => exact hi
  | cons m moves ih => exact ih (done_act hi m)

theorem log_play (s : Crowd office) (moves : List (Move office)) : s.log ⊆ (s.play moves).log := by
  induction moves generalizing s with
  | nil => exact fun d hd => hd
  | cons m moves ih =>
    refine fun d hd => ih (s.act m) ?_
    rw [act_log]
    exact List.mem_append_right _ hd

/-- A logout that has removed the access half of its pair, and has not been told of the other. -/
def StoppedHalfway (s : Crowd office) (l : Nat) (p : TokenPair) : Prop :=
  (∃ ctx, s.role? l = some (.job (.logout ctx p.accessToken))) ∧
    (∃ d ∈ s.log, d.who = some l ∧ d.takes p.accessId = true) ∧
      ∀ d ∈ s.log, d.who = some l → ¬ d.Removes p.refreshId

/-- A logout that is served before its pair's access half expires leaves neither half of the pair,
unless another has stopped between the two; so the pair is renewed no more. -/
theorem logout_completed {w : World} (hw : w.Calm) (hplan : w.faults.Within sincere)
    (hinj : Function.Injective w.ids) (hbare : ∀ n, Plain.Bare (w.ids n))
    (hfresh : ∀ n, w.minted ≤ n → w.store.entries.get? (w.ids n) = none)
    {before after : List (Move office)}
    (h : (around w).Lawful (fun s m => Private w.ids m ∧ s.OnlyIssued m) (before ++ after))
    {s t : Crowd office} (hs : s = (around w).play before) (ht : t = s.play after)
    {j : Nat} {a : Accounts} {ctx : Context} {subject : Subject} {p : TokenPair}
    (hj : s.parties[j]? = some ⟨.job (.login a ctx subject), .done (.ok p)⟩)
    {i : Nat} {ctx' : Context} (hi : s.role? i = some (.job (.logout ctx' p.accessToken)))
    (hserved : s.Served i) (hlt : s.world.clock.wall < p.accessExpiry.floor) :
    (subject.name ≠ "" → t.world.store.find? t.now p.accessId = none) ∧
      ((∃ l, l ≠ i ∧ t.StoppedHalfway l p) ∨
        (subject.name ≠ "" → t.world.store.find? t.now p.refreshId = none) ∧
          ∀ (b : Accounts) (c : Context), t.world.Healthy → t.world.Live c →
            ∃ v, (b.refresh c p.refreshToken).run.Yields t.world v (.error .unauthorized)) := by
  obtain ⟨⟨trace, hc⟩, hneat, hp, hsettled⟩ := lawful_settled hw hplan hinj hbare hfresh h.of_append hs
  have htplay : t = (around w).play (before ++ after) := by rw [ht, hs, play_append]
  obtain ⟨⟨trace', hc'⟩, hneat', hp', hsettled'⟩ := lawful_settled hw hplan hinj hbare hfresh h htplay
  have hj' : t.parties[j]? = some ⟨.job (.login a ctx subject), .done (.ok p)⟩ := ht ▸ done_play hj after
  have hsub : s.log ⊆ t.log := ht ▸ log_play s after
  have hpair : Paired w.ids a.terms subject [] (trace' j) p := hc'.ends hneat'.supply hj'
  have gone : ∀ {d : ServedCall} {key : String}, key ∈ [p.accessId, p.refreshId] → d ∈ t.log →
      d.who.isSome = true → d.Removes key → t.world.store.find? t.now key = none :=
    fun hkey hd hwho hr =>
      hsettled'.gone_half hneat' hc' hbare (.inl ⟨a, ctx, subject, hj'⟩) hkey hd hwho hr
  have renewed : (subject.name ≠ "" → t.world.store.find? t.now p.refreshId = none) →
      (subject.name ≠ "" → t.world.store.find? t.now p.refreshId = none) ∧
        ∀ (b : Accounts) (c : Context), t.world.Healthy → t.world.Live c →
          ∃ v, (b.refresh c p.refreshToken).run.Yields t.world v (.error .unauthorized) :=
    fun hr => ⟨hr, fun b c hh hl => Accounts.yields_refresh_gone hh hl b (hpair.formed hbare) hr⟩
  by_cases hsubject : subject.name = ""
  · exact ⟨fun hne => absurd hsubject hne, .inr (renewed fun hne => absurd hsubject hne)⟩
  · have hname : subject.name.toList ≠ [] := fun he => hsubject (String.toList_eq_nil_iff.1 he)
    rcases Served.removed hsettled hp hneat hc hinj hbare hserved hj hname hlt hi with
      hboth | ⟨l, c, hl, hlogout, d, hd, hwho, htakes⟩
    · have both : ∀ key ∈ [p.accessId, p.refreshId], t.world.store.find? t.now key = none := by
        intro key hkey
        obtain ⟨d, hd, hwho, hr⟩ := hboth key hkey
        exact gone hkey (hsub hd) hwho hr
      exact ⟨fun _ => both _ (by simp), .inr (renewed fun _ => both _ (by simp))⟩
    · have haccess := gone (by simp) (hsub hd) (Option.isSome_of_eq_some hwho)
        (ServedCall.mark?_of_takes htakes)
      refine ⟨fun _ => haccess, ?_⟩
      by_cases hrest : ∃ d ∈ t.log, d.who = some l ∧ d.Removes p.refreshId
      · obtain ⟨e, he, hwe, hr⟩ := hrest
        exact .inr (renewed fun _ => gone (by simp) he (Option.isSome_of_eq_some hwe) hr)
      · refine .inl ⟨l, hl, ⟨c, ht ▸ role?_play hlogout after⟩, ⟨d, hsub hd, hwho, htakes⟩, ?_⟩
        exact fun e he hwe hr => hrest ⟨e, he, hwe, hr⟩

/-- Somebody comes to log out from the first pair, and is done. -/
def leaving (i : Nat) : List (Move office) :=
  .join (.logout unending firstPair.accessToken) :: List.replicate 12 (.look i)

/-- The store fails once, when an entry is looked up. -/
def outage : Faults := { Faults.none with get := [.answer (.error Store.outage)] }

def relapse : Faults := { Faults.none with del := [.pass, .answer (.error Store.outage)] }

theorem outage_sincere : outage.Within sincere := by
  intro c f hf a ha
  cases c with
  | store c =>
    cases c with
    | get key =>
      obtain rfl := List.mem_singleton.1 hf
      cases ha
      exact ⟨_, rfl⟩
    | _ => cases hf
  | _ => trivial

theorem relapse_sincere : relapse.Within sincere := by
  intro c f hf a ha
  cases c with
  | store c =>
    cases c with
    | del keys =>
      rcases List.mem_pair.1 hf with rfl | rfl
      · cases ha
      · cases ha
        exact ⟨_, rfl⟩
    | _ => cases hf
  | _ => trivial

def retrial : List (Move office) := arrival ++ .plan outage :: (leaving 1 ++ leaving 2)

theorem lawful_retrial : (around .numbered).Lawful
    (fun s m => Private World.numbered.ids m ∧ s.OnlyIssued m) (retrial ++ []) := by
  rw [List.append_nil]
  refine Lawful.both ?_ (Lawful.append ?_ ?_)
  · simp [retrial, arrival, leaving, Lawful, Private, Visit.allocator?, List.replicate, outage_sincere]
  · simp [arrival, Lawful, OnlyIssued, Visit.token?, List.replicate]
  · have hfirst : ((around .numbered).play arrival).Authentic firstPair.accessToken :=
      ⟨0, firstPair, issues_firstPair, .inl rfl⟩
    have hsecond : (((around .numbered).play (arrival ++ .plan outage :: leaving 1))).Authentic
        firstPair.accessToken := by
      refine ⟨0, firstPair, ?_, .inl rfl⟩
      decide +kernel
    rw [play_append] at hsecond
    simpa [leaving, Lawful, OnlyIssued, Visit.token?, List.replicate, play] using
      ⟨hfirst.act (.plan outage), hsecond⟩

theorem retrial_login : ((around .numbered).play retrial).parties[0]? =
    some ⟨.job (.login .brief unending alice), .done (.ok firstPair)⟩ := by rfl

theorem retrial_logout : ((around .numbered).play retrial).parties[2]? =
    some ⟨.job (.logout unending firstPair.accessToken), .done (.ok ())⟩ := by rfl

theorem retrial_removal : ∀ d ∈ ((around .numbered).play retrial).log,
    d.takes firstPair.accessId = true → d.who = some 2 := by decide +kernel

theorem retrial_wall :
    ((around .numbered).play retrial).world.clock.wall < firstPair.accessExpiry.floor := by
  decide +kernel

theorem retrial_healthy : ((around .numbered).play retrial).world.Healthy ∧
    ((around .numbered).play retrial).world.Live unending :=
  ⟨⟨by rfl, by rfl, by rfl⟩, by rfl⟩

theorem logout_completed_retrial :
    ((around .numbered).play retrial).Served 2 ∧
      ((around .numbered).play retrial).world.store.find? ((around .numbered).play retrial).now
        firstPair.accessId = none ∧
      ((around .numbered).play retrial).world.store.find? ((around .numbered).play retrial).now
        firstPair.refreshId = none ∧
      ∃ v, (Accounts.brief.refresh unending firstPair.refreshToken).run.Yields
        ((around .numbered).play retrial).world v (.error .unauthorized) := by
  have hlogin := retrial_login
  have hlogout := retrial_logout
  have hown := retrial_removal
  have hlt := retrial_wall
  have hlaw := lawful_retrial
  have hwell := retrial_healthy
  generalize hs : (around .numbered : Crowd office).play retrial = s at *
  obtain ⟨⟨trace, hc⟩, -⟩ := lawful_settled World.numbered_calm (Faults.within_none _)
    World.numbered_injective World.numbered_bare World.numbered_fresh hlaw.of_append hs.symm
  have hserved := (hc.served_iff hlogout).2 (by simp)
  have hi : s.role? 2 = some (.job (.logout unending firstPair.accessToken)) := by
    simp [role?, hlogout]
  obtain ⟨haccess, hrest⟩ := logout_completed World.numbered_calm (Faults.within_none _)
    World.numbered_injective World.numbered_bare World.numbered_fresh hlaw hs.symm rfl hlogin hi
    hserved hlt
  have hname : alice.name ≠ "" := by decide
  refine ⟨hserved, haccess hname, ?_⟩
  rcases hrest with ⟨l, hl, -, ⟨d, hd, hwho, htakes⟩, -⟩ | ⟨hrefresh, hrefused⟩
  · exact absurd (Option.some.inj (hwho.symm.trans (hown d hd htakes))) hl
  · exact ⟨hrefresh hname, hrefused .brief unending hwell.1 hwell.2⟩

/-- A logout from a pair that a login has issued, begun before the access half expires, and served;
yet the refresh half is live after it. -/
def LogsOutInVain (early late : List (Move office)) (i : Nat) (p : TokenPair) : Prop :=
  let s : Crowd office := (around .numbered).play early
  let t := s.play (.join (.logout unending p.accessToken) :: late)
  (∃ a ctx subject, s.parties[0]? = some ⟨.job (.login a ctx subject), .done (.ok p)⟩) ∧
    s.parties.length = i ∧ s.world.clock.wall < p.accessExpiry.floor ∧ t.Served i ∧
      (t.world.store.find? t.now p.refreshId).isSome = true

theorem logsOutInVain {early late : List (Move office)} {i : Nat} {p : TokenPair} {a : Accounts}
    {ctx : Context} {subject : Subject} {moves : List (Move office)}
    (hmoves : moves = early ++ .join (.logout unending p.accessToken) :: late)
    (hlaw : (around .numbered).Lawful (fun _ => Private World.numbered.ids) moves)
    (hlogin : ((around .numbered).play early).parties[0]? =
      some ⟨.job (.login a ctx subject), .done (.ok p)⟩)
    (hlength : ((around .numbered).play early).parties.length = i)
    (hlt : ((around .numbered).play early).world.clock.wall < p.accessExpiry.floor)
    (hlogout : ((around .numbered).play moves).parties[i]? =
      some ⟨.job (.logout unending p.accessToken), .done (.error .unauthorized)⟩)
    (hleft : (((around .numbered).play moves).world.store.find?
      ((around .numbered).play moves).now p.refreshId).isSome = true) :
    LogsOutInVain early late i p := by
  obtain ⟨-, ⟨trace, hc⟩, -⟩ :=
    lawful_neat World.numbered_calm (Faults.within_none _) World.numbered_fresh hlaw
  have hserved := (hc.served_iff hlogout).2 (by simp)
  rw [hmoves, play_append] at hserved hleft
  exact ⟨⟨a, ctx, subject, hlogin⟩, hlength, hlt, hserved, hleft⟩

/-- A logout stops between the two halves of its pair. -/
def stopping : List (Move office) := arrival ++ .plan relapse :: leaving 1

/-- The access half expires while a logout is on its way to look it up. -/
def tarrying : List (Move office) :=
  .look 1 :: .look 1 :: .pass (.ofSecs 60) :: List.replicate 10 (.look 1)

def late : List (Move office) :=
  arrival ++ .join (.logout unending firstPair.accessToken) :: tarrying

def nobody : List (Move office) :=
  .join (.login .brief unending ⟨""⟩) :: List.replicate 10 (.look 0)

def nobodysPair : TokenPair :=
  Accounts.pair ⟨""⟩ "0" "1" (1577836860 * Instant.nanosPerSec) (1577840400 * Instant.nanosPerSec)

def renewal (i : Nat) : List (Move office) :=
  .join (.refresh .brief unending firstPair.refreshToken) :: List.replicate 16 (.look i)

/-- A logout that is served may leave the refresh half behind: after another has stopped halfway, if
it comes too late to find the access half, or if the pair is for nobody. -/
theorem logout_not_completed :
    (LogsOutInVain stopping (List.replicate 12 (.look 2)) 2 firstPair ∧
        ((around .numbered).play (stopping ++ leaving 2 ++ renewal 3)).Redeems 3 firstPair) ∧
      (LogsOutInVain arrival tarrying 1 firstPair ∧
        ((around .numbered).play (late ++ renewal 2)).Redeems 2 firstPair) ∧
      LogsOutInVain nobody (List.replicate 12 (.look 1)) 1 nobodysPair := by
  have hfirst : ((around .numbered).play arrival).parties[0]? =
      some ⟨.job (.login .brief unending alice), .done (.ok firstPair)⟩ := by rfl
  refine ⟨⟨?_, by decide +kernel⟩, ⟨?_, by decide +kernel⟩, ?_⟩
  · have hlogout : ((around .numbered).play (stopping ++ leaving 2)).parties[2]? =
        some ⟨.job (.logout unending firstPair.accessToken), .done (.error .unauthorized)⟩ := by rfl
    refine logsOutInVain rfl ?_ (done_play hfirst (.plan relapse :: leaving 1)) (by decide +kernel)
      (by decide +kernel) hlogout (by decide +kernel)
    simp [stopping, arrival, leaving, Lawful, Private, Visit.allocator?, List.replicate,
      relapse_sincere]
  · have hlogout : ((around .numbered).play late).parties[1]? =
        some ⟨.job (.logout unending firstPair.accessToken), .done (.error .unauthorized)⟩ := by rfl
    refine logsOutInVain rfl ?_ hfirst (by decide +kernel) (by decide +kernel) hlogout
      (by decide +kernel)
    simp [tarrying, arrival, Lawful, Private, Visit.allocator?, List.replicate]
  · have hlogin : ((around .numbered).play nobody).parties[0]? =
        some ⟨.job (.login .brief unending ⟨""⟩), .done (.ok nobodysPair)⟩ := by rfl
    refine logsOutInVain rfl ?_ hlogin (by decide +kernel) (by decide +kernel) (by rfl)
      (by decide +kernel)
    simp [nobody, Lawful, Private, Visit.allocator?, List.replicate]

end Crowd

end Registrar
