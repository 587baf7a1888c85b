import Registrar.Proofs.Crowd.Ledger
import Registrar.Proofs.Office
set_option autoImplicit false

namespace Registrar

def ServedCall.set? (d : ServedCall) : Option String :=
  match d.call with
  | .store (.set key _ _) => some key
  | _ => none

theorem ServedCall.set?_of_puts {key : String} {d : ServedCall} (h : d.puts key = true) :
    d.set? = some key := by
  obtain ⟨who, c, answer, time⟩ := d
  cases c with
  | store c =>
    cases c with
    | set k value ttl =>
      rcases answer with e | _ | _
      · cases h
      · cases h
      · by_cases hk : key = k
        · exact congrArg some hk.symm
        · simp [puts, mark?, Call.mark?, StoreCall.mark?, hk] at h
    | del keys =>
      cases answer with
      | error e => cases h
      | ok n => by_cases hk : key ∈ keys <;> simp [puts, mark?, Call.mark?, StoreCall.mark?, hk] at h
    | _ => cases h
  | _ => cases h

theorem ServedCall.call_of_set? {d : ServedCall} {key : String} (h : d.set? = some key) :
    ∃ value ttl, d.call = .store (.set key value ttl) := by
  obtain ⟨who, c, answer, time⟩ := d
  cases c with
  | store c =>
    cases c with
    | set k value ttl =>
      cases h
      exact ⟨value, ttl, rfl⟩
    | _ => cases h
  | _ => cases h

theorem ServedCall.set?_of_takes {key : String} {d : ServedCall} (h : d.takes key = true) :
    d.set? = none := by
  obtain ⟨who, c, answer, time⟩ := d
  cases c with
  | store c =>
    obtain ⟨rfl, -⟩ := of_decide_eq_true (show c.takes key answer = true from h)
    rfl
  | _ => rfl

/-- The keys that were to be written under in a trace, the last first. -/
def written (h : List Event) : List String := (heard h).filterMap ServedCall.set?

section

variable {e : Event} {h : List Event}

@[simp] theorem written_nil : written [] = [] := rfl
@[simp] theorem written_read (t : Clock) : written (.read t :: h) = written h := rfl
@[simp] theorem written_minted (n : Nat) : written (.minted n :: h) = written h := rfl

@[simp] theorem Event.Says.mints {c : StoreCall} {a : c.Answer} (he : e.Says c a) :
    mints (e :: h) = mints h := by
  obtain ⟨who, time, rfl⟩ := he
  rfl

theorem Event.Says.written_set {key value : String} {ttl : Span} {b : Bool}
    (he : e.Says (.set key value ttl) b) : written (e :: h) = key :: written h := by
  obtain ⟨who, time, rfl⟩ := he
  rfl

theorem Event.Says.written_get {key : String} {v : Option String} (he : e.Says (.get key) v) :
    written (e :: h) = written h := by
  obtain ⟨who, time, rfl⟩ := he
  rfl

theorem Event.Says.written_del {keys : List String} {n : Nat} (he : e.Says (.del keys) n) :
    written (e :: h) = written h := by
  obtain ⟨who, time, rfl⟩ := he
  rfl

end

theorem Allocator.Calls.counter {a : Allocator} {c : StoreCall} (hc : a.Calls (.store c)) :
    ∃ day, c.keys = [a.counterKey day] ∧ c.adjusts = [a.counterKey day] := by
  rcases hc with ⟨day, rfl⟩ | ⟨day, ttl, rfl⟩ <;> exact ⟨day, rfl, rfl⟩

namespace Visit

variable {ids : Nat → String} {v : Visit} {h : List Event} {key : String}

def allocator? : Visit → Option Allocator
  | .register a _ => some a.allocator
  | .allocate a _ => some a
  | .login _ _ _ | .authenticate _ _ | .logout _ _ | .refresh _ _ _ => none

/-- The keys that the token of a visit names, at one time or another. -/
def Names (key : String) : Visit → Prop
  | .authenticate _ token | .logout _ token =>
    ∃ now claims, AccessClaims.ofToken now token = .ok claims ∧
      (key = claims.accessId ∨ key = claims.refreshId)
  | .refresh _ _ token =>
    ∃ now claims, RefreshClaims.ofToken now token = .ok claims ∧ key = claims.refreshId
  | .register _ _ | .allocate _ _ | .login _ _ _ => False

def revokes : Visit → Bool
  | .logout _ _ | .refresh _ _ _ => true
  | .register _ _ | .allocate _ _ | .login _ _ _ | .authenticate _ _ => false

theorem written_of_writes {h₀ : List Event} {value : String} {ttl : Span}
    (hw : Writes ids h₀ h (.set key value ttl)) (hmints : mints h₀ = []) (hnone : written h₀ = []) :
    (∃ m n, mints h = [n, m] ∧ written h = [] ∧ key = ids m) ∨
      ∃ m n, mints h = [n, m] ∧ written h = [ids m] ∧ key = ids n := by
  cases hw with
  | @access t u m n => exact .inl ⟨m, n, by simp [hmints], by simpa using hnone, rfl⟩
  | @refresh t u m n _ _ _ _ _ _ hd =>
    exact .inr ⟨m, n, by simp [hd.mints, hmints], by simp [hd.written_set, hnone], rfl⟩

theorem May.written {value : String} {ttl : Span} (hm : v.May ids h (.store (.set key value ttl))) :
    (∃ m n, mints h = [n, m] ∧ written h = [] ∧ key = ids m) ∨
      ∃ m n, mints h = [n, m] ∧ written h = [ids m] ∧ key = ids n := by
  cases hm with
  | register hc | allocate hc =>
    obtain ⟨day, -, hkeys⟩ := hc.counter
    cases hkeys
  | login hw => exact written_of_writes hw rfl rfl
  | refreshWrites hc hg hd hw =>
    exact written_of_writes hw (by simp [hd.mints, hg.mints]) (by simp [hd.written_del, hg.written_get])

theorem May.names {c : StoreCall} (hm : v.May ids h (.store c)) (hk : key ∈ c.keys) :
    (∃ a ∈ v.allocator?, ∃ day, key = a.counterKey day) ∨
      (∃ value ttl, c = .set key value ttl) ∨ v.Names key := by
  cases hm with
  | register hc | allocate hc =>
    obtain ⟨day, hkeys, -⟩ := hc.counter
    rw [hkeys] at hk
    exact .inl ⟨_, rfl, day, List.mem_singleton.1 hk⟩
  | login hw =>
    cases hw <;> obtain rfl := List.mem_singleton.1 hk <;> exact .inr (.inl ⟨_, _, rfl⟩)
  | refreshWrites hc hg hd hw =>
    cases hw <;> obtain rfl := List.mem_singleton.1 hk <;> exact .inr (.inl ⟨_, _, rfl⟩)
  | authenticate hc | logoutLooks hc | logoutAccess hc hg =>
    exact .inr (.inr ⟨_, _, hc, .inl (List.mem_singleton.1 hk)⟩)
  | logoutRefresh hc hg hd => exact .inr (.inr ⟨_, _, hc, .inr (List.mem_singleton.1 hk)⟩)
  | refreshLooks hc | refreshRemoves hc hg =>
    exact .inr (.inr ⟨_, _, hc, List.mem_singleton.1 hk⟩)

theorem May.adjusts {c : StoreCall} (hm : v.May ids h (.store c)) (hk : key ∈ c.adjusts) :
    ∃ a ∈ v.allocator?, ∃ day, key = a.counterKey day := by
  cases hm with
  | register hc | allocate hc =>
    obtain ⟨day, -, hkeys⟩ := hc.counter
    rw [hkeys] at hk
    exact ⟨_, rfl, day, List.mem_singleton.1 hk⟩
  | login hw => cases hw <;> cases hk
  | refreshWrites hc hg hd hw => cases hw <;> cases hk
  | _ => cases hk

theorem May.removes {keys : List String} (hm : v.May ids h (.store (.del keys))) :
    ∃ key, keys = [key] ∧ v.revokes = true ∧ v.Names key := by
  cases hm with
  | register hc | allocate hc =>
    obtain ⟨day, -, hkeys⟩ := hc.counter
    cases hkeys
  | login hw => cases hw
  | refreshWrites hc hg hd hw => cases hw
  | logoutAccess hc hg => exact ⟨_, rfl, rfl, _, _, hc, .inl rfl⟩
  | logoutRefresh hc hg hd => exact ⟨_, rfl, rfl, _, _, hc, .inr rfl⟩
  | refreshRemoves hc hg => exact ⟨_, rfl, rfl, _, _, hc, rfl⟩

theorem written_of_kept (hk : Flow.Kept (v.May ids) h) :
    written h = [] ∨ (∃ m ∈ mints h, written h = [ids m]) ∨
      ∃ m n, [n, m].Sublist (mints h) ∧ written h = [ids n, ids m] := by
  induction h with
  | nil => exact .inl rfl
  | cons e h ih =>
    cases e with
    | read t => exact ih hk
    | opened ctx => exact ih hk
    | missed c => exact ih hk.2
    | minted k =>
      refine (ih hk).imp id (.imp ?_ ?_)
      · exact fun ⟨m, hm, hw⟩ => ⟨m, List.mem_cons_of_mem _ hm, hw⟩
      · exact fun ⟨m, n, hmn, hw⟩ => ⟨m, n, hmn.cons _, hw⟩
    | told d =>
      obtain ⟨who, c, answer, time⟩ := d
      obtain ⟨hm, hk⟩ := hk
      cases c with
      | store c =>
        cases c with
        | set key value ttl =>
          have hnew : Registrar.written (.told ⟨who, .store (.set key value ttl), answer, time⟩ :: h) =
            key :: Registrar.written h := rfl
          rw [hnew, mints_told]
          rcases hm.written with ⟨m, n, hmints, hnone, rfl⟩ | ⟨m, n, hmints, hone, rfl⟩
          · exact .inr (.inl ⟨m, by simp [hmints], by rw [hnone]⟩)
          · exact .inr (.inr ⟨m, n, by rw [hmints], by rw [hone]⟩)
        | _ => exact ih hk
      | _ => exact ih hk

theorem minted_of_written (hk : Flow.Kept (v.May ids) h) (hw : key ∈ written h) :
    ∃ n ∈ mints h, key = ids n := by
  rcases written_of_kept hk with hnone | ⟨m, hm, hone⟩ | ⟨m, n, hmn, hboth⟩
  · rw [hnone] at hw
    cases hw
  · rw [hone] at hw
    exact ⟨m, hm, List.mem_singleton.1 hw⟩
  · rw [hboth] at hw
    rcases List.mem_pair.1 hw with rfl | rfl
    · exact ⟨n, hmn.subset List.mem_cons_self, rfl⟩
    · exact ⟨m, hmn.subset (by simp), rfl⟩

theorem nodup_written (hids : Function.Injective ids) (hk : Flow.Kept (v.May ids) h)
    (hn : (mints h).Nodup) : (written h).Nodup := by
  rcases written_of_kept hk with hnone | ⟨m, hm, hone⟩ | ⟨m, n, hmn, hboth⟩
  · simp [hnone]
  · simp [hone]
  · have hne : n ≠ m := by simpa using hn.sublist hmn
    simpa [hboth] using fun h => hne (hids h)

end Visit

theorem Flow.keeps_release {P : Answers} {ids : Nat → String} (held : Held) :
    (Flow.release held).Keeps P ids (fun _ c => c = .unlock held.token) (fun _ _ => True) [] :=
  ⟨rfl, fun _ _ _ => trivial, fun _ _ => trivial⟩

theorem eq_of_countP_le_one {α : Type} {q : α → Bool} {l : List α} (h : l.countP q ≤ 1) {a b : α}
    (ha : a ∈ l) (hb : b ∈ l) (hqa : q a = true) (hqb : q b = true) : a = b := by
  rw [List.countP_eq_length_filter] at h
  have ha := List.mem_filter.2 ⟨ha, hqa⟩
  have hb := List.mem_filter.2 ⟨hb, hqb⟩
  generalize l.filter q = picked at h ha hb
  match picked, h with
  | [x], _ => exact (List.mem_singleton.1 ha).trans (List.mem_singleton.1 hb).symm

namespace Crowd

variable {s : Crowd office} {ids : Nat → String} {first : Nat} {trace : Nat → List Event}
  {m : Move office}

theorem role?_stays {T : Trade} {s : Crowd T} {i : Nat} {e : T.Role} (h : s.role? i = some e)
    (m : Move T) : (s.act m).role? i = some e := by
  rcases role?_act s m i with he | ⟨hn, -⟩
  · exact he.trans h
  · simp [role?, hn] at h

/-- Where nothing but the visits reaches the entries under the identifiers. -/
def Private (ids : Nat → String) : Move office → Prop
  | .join v => ∀ a ∈ v.allocator?, ∀ n day, ids n ≠ a.counterKey day
  | .store c => ∀ n, ids n ∉ c.writes
  | .plan fs => fs.Within sincere
  | _ => True

def Busy (s : Crowd office) (i : Nat) : Prop :=
  ∃ p, s.parties[i]? = some p ∧ ∃ g c held k, p.activity.rest = .call g c held k

namespace Chronicle

theorem kept (hc : s.Chronicle sincere first trace) (hids : s.world.ids = ids) {i : Nat} {v : Visit}
    (hi : s.role? i = some (.job v)) : Flow.Kept (v.May ids) (trace i) := by
  obtain ⟨⟨e, act⟩, hp, he⟩ := Option.map_eq_some_iff.1 hi
  cases he
  obtain ⟨g, hl, -⟩ := hc.leads i _ hp
  exact (v.keeps ids).kept (hids ▸ hl)

theorem ends (hc : s.Chronicle sincere first trace) (hids : s.world.ids = ids) {i : Nat} {v : Visit}
    {r : v.Yield} (hi : s.parties[i]? = some ⟨.job v, .done r⟩) : v.Ends ids (trace i) r := by
  have hl : v.flow.Leads sincere s.world.ids (trace i) (.done r) := hc.ended hi
  exact (v.keeps ids).leads (hids ▸ hl)

theorem told_iff (hc : s.Chronicle sincere first trace) {i : Nat} {d : ServedCall} :
    .told d ∈ trace i ↔ d ∈ s.log ∧ d.who = some i := by
  rw [← mem_heard, hc.servedCalls, Crowd.servedCalls, List.mem_filter, decide_eq_true_iff]

theorem servedCall (hc : s.Chronicle sincere first trace) (hids : s.world.ids = ids)
    {d : ServedCall} {i : Nat} (hd : d ∈ s.log) (hw : d.who = some i) :
    (∃ v later earlier, s.role? i = some (.job v) ∧ trace i = later ++ .told d :: earlier ∧
      v.May ids earlier d.call) ∨ ∀ c, d.call ≠ .store c := by
  have hmem : .told d ∈ trace i := hc.told_iff.2 ⟨hd, hw⟩
  cases hp : s.parties[i]? with
  | none =>
    rw [hc.unborn i hp] at hmem
    cases hmem
  | some p =>
    obtain ⟨e, act⟩ := p
    have he : s.role? i = some e := by simp [role?, hp]
    cases e with
    | job v =>
      obtain ⟨later, earlier, htrace, hm⟩ := (hc.kept hids he).told hmem
      exact .inl ⟨v, later, earlier, he, htrace, hm⟩
    | release held =>
      obtain ⟨g, hl, -⟩ := hc.leads i _ hp
      obtain ⟨later, earlier, -, hcall⟩ := ((Flow.keeps_release held).kept hl).told hmem
      exact .inr fun c hcc => by cases hcc.symm.trans hcall

theorem did (hc : s.Chronicle sincere first trace) (hids : s.world.ids = ids) {d : ServedCall}
    (hd : s.did m = some d) {c : StoreCall} (hcall : d.call = .store c) :
    (∃ i v, m = .look i ∧ d.who = some i ∧ s.role? i = some (.job v) ∧ s.Busy i ∧
      v.May ids (trace i) (.store c)) ∨ d.who = none ∧ m = .store c := by
  rcases (did_eq_some hd).2 with ⟨i, p, hlook, hi, hserved⟩ | ⟨hnone, ⟨c', rfl, hc'⟩ | ⟨token, -, hu⟩⟩
  · obtain ⟨hwho, -, g, held, k, hr⟩ := Activity.servedCall_eq_some hserved
    have hl := hc.calls hi hr
    have hbusy : s.Busy i := ⟨p, hi, g, d.call, held, k, hr⟩
    obtain ⟨e, act⟩ := p
    cases e with
    | job v =>
      have hmay := ((v.keeps s.world.ids).leads hl).1
      rw [hcall, hids] at hmay
      exact .inl ⟨i, v, hlook, hwho, by simp [role?, hi], hbusy, hmay⟩
    | release h =>
      have hunlock := ((Flow.keeps_release h).leads hl).1
      cases hunlock.symm.trans hcall
  · cases hc'.symm.trans hcall
    exact .inr ⟨hnone, rfl⟩
  · cases hu.symm.trans hcall

end Chronicle

/-- What holds where nothing but the visits reaches the entries under the identifiers. -/
structure Neat (ids : Nat → String) (first : Nat) (s : Crowd office) : Prop where
  supply : s.world.ids = ids
  counters : ∀ i v, s.role? i = some (.job v) → ∀ a ∈ v.allocator?, ∀ n day,
    ids n ≠ a.counterKey day
  strangers : ∀ d ∈ s.log, d.who = none → ∀ c, d.call = .store c → ∀ n, ids n ∉ c.writes
  ledger : ∀ n, first ≤ n → s.Ledger (ids n)

theorem neat_around {w : World} (h : ∀ n, w.minted ≤ n → w.store.entries.get? (w.ids n) = none) :
    (around w).Neat w.ids w.minted where
  supply := rfl
  counters := by simp [around, role?]
  strangers := by simp [around]
  ledger := fun n hn => ledger_around (h n hn)

namespace Neat

theorem act (ht : s.Neat ids first) (ho : s.Orderly sincere) (hc : s.Chronicle sincere first trace)
    (hm : Private ids m) : (s.act m).Neat ids first where
  supply := (act_ids ho (fun _ => trivial) m).trans ht.supply
  counters := by
    intro i v hv
    rcases role?_act s m i with he | ⟨-, ⟨j, rfl, he⟩ | ⟨held, -, -, he⟩⟩
    · exact ht.counters i v (he ▸ hv)
    · rw [he] at hv
      cases hv
      exact hm
    · rw [he] at hv
      cases hv
  strangers := by
    intro d hd hw c hcall n
    rw [act_log, List.mem_append, Option.mem_toList] at hd
    rcases hd with hd | hd
    · rcases hc.did ht.supply hd hcall with ⟨i, v, -, hwho, -⟩ | ⟨-, rfl⟩
      · cases hw.symm.trans hwho
      · exact hm n
    · exact ht.strangers d hd hw c hcall n
  ledger := by
    intro n hn
    refine (ht.ledger n hn).act ho (fun _ => trivial) fun d hd c hcall hadj => ?_
    rcases hc.did ht.supply hd hcall with ⟨i, v, -, -, hv, -, hmay⟩ | ⟨-, rfl⟩
    · obtain ⟨a, ha, day, hkey⟩ := hmay.adjusts hadj
      exact ht.counters i v hv a ha n day hkey
    · refine hm n ?_
      cases c <;> first | exact hadj | cases hadj

theorem puts_le (ht : s.Neat ids first) (hc : s.Chronicle sincere first trace)
    (hids : Function.Injective ids) (n : Nat) : s.log.countP (ServedCall.puts (ids n)) ≤ 1 := by
  have minted : ∀ d ∈ s.log, d.puts (ids n) = true → ∃ i v, d.who = some i ∧
      s.role? i = some (.job v) ∧ n ∈ mints (trace i) := by
    intro d hd hp
    obtain ⟨value, ttl, hcall⟩ := ServedCall.call_of_set? (ServedCall.set?_of_puts hp)
    cases hw : d.who with
    | none =>
      exact absurd (List.mem_singleton_self _) (ht.strangers d hd hw _ hcall n)
    | some i =>
      rcases hc.servedCall ht.supply hd hw with ⟨v, later, earlier, hi, htrace, -⟩ | hns
      · have hwritten : ids n ∈ written (trace i) := by
          refine List.mem_filterMap.2 ⟨d, ?_, ServedCall.set?_of_puts hp⟩
          rw [htrace]
          exact mem_heard.2 (by simp)
        obtain ⟨k, hk, hkey⟩ := Visit.minted_of_written (hc.kept ht.supply hi) hwritten
        exact ⟨i, v, rfl, hi, hids hkey ▸ hk⟩
      · exact absurd hcall (hns _)
  by_cases hnone : ∃ d ∈ s.log, d.puts (ids n) = true
  · obtain ⟨d, hd, hp⟩ := hnone
    obtain ⟨i, v, hw, hi, hmint⟩ := minted d hd hp
    have hown : ∀ e ∈ s.log, e.puts (ids n) = true → e.who = some i := by
      intro e he hpe
      obtain ⟨j, -, hwj, -, hj⟩ := minted e he hpe
      rw [hwj, hc.apart i j n hmint hj]
    have hservedCalls : s.log.countP (ServedCall.puts (ids n)) =
        (s.servedCalls i).countP (ServedCall.puts (ids n)) := by
      rw [servedCalls, List.countP_filter]
      exact List.countP_congr fun e he => by simpa using hown e he
    have hwritten : (s.servedCalls i).countP (ServedCall.puts (ids n)) ≤
        (written (trace i)).count (ids n) := by
      rw [written, hc.servedCalls, List.count_filterMap]
      exact List.countP_mono_left fun e _ hpe => by simp [ServedCall.set?_of_puts hpe]
    have hnodup := Visit.nodup_written hids (hc.kept ht.supply hi) (hc.once i)
    rw [hservedCalls]
    exact Nat.le_trans hwritten (List.nodup_iff_count_le_one.1 hnodup _)
  · rw [List.countP_eq_zero.2 fun d hd hp => hnone ⟨d, hd, hp⟩]
    exact Nat.zero_le _

theorem put_once (ht : s.Neat ids first) (hc : s.Chronicle sincere first trace)
    (hids : Function.Injective ids) {n : Nat} {d e : ServedCall} (hd : d ∈ s.log) (he : e ∈ s.log)
    (hdp : d.puts (ids n) = true) (hep : e.puts (ids n) = true) : d = e :=
  eq_of_countP_le_one (ht.puts_le hc hids n) hd he hdp hep

theorem replay_put (ht : s.Neat ids first) (hc : s.Chronicle sincere first trace)
    (hids : Function.Injective ids) {n : Nat} {put : ServedCall} (hput : put ∈ s.log) {entry e : Entry}
    (hmark : put.mark? (ids n) = some (some entry)) {log : List ServedCall} (hsub : log ⊆ s.log)
    (he : replay (ids n) log = some e) : e = entry := by
  obtain ⟨d, hd, hdm⟩ := exists_put he
  have hputs : put.puts (ids n) = true := by rw [ServedCall.puts, hmark]; rfl
  have hdputs : d.puts (ids n) = true := by rw [ServedCall.puts, hdm]; rfl
  obtain rfl := ht.put_once hc hids hput (hsub hd) hputs hdputs
  exact Option.some.inj (Option.some.inj (hdm.symm.trans hmark))

theorem take_once (ht : s.Neat ids first) (hc : s.Chronicle sincere first trace)
    (hids : Function.Injective ids) {n : Nat} (hn : first ≤ n) {d e : ServedCall} (hd : d ∈ s.log)
    (he : e ∈ s.log) (hdt : d.takes (ids n) = true) (het : e.takes (ids n) = true) : d = e := by
  have hle := (ht.ledger n hn).honest.takes_le
  have hputs := ht.puts_le hc hids n
  exact eq_of_countP_le_one (by omega) hd he hdt het

theorem gone_of_take (ht : s.Neat ids first) (hc : s.Chronicle sincere first trace)
    (hids : Function.Injective ids) {n : Nat} (hn : first ≤ n) {d : ServedCall} (hd : d ∈ s.log)
    (hdt : d.takes (ids n) = true) : s.world.store.find? s.now (ids n) = none := by
  have hle := (ht.ledger n hn).honest.takes_le
  have hputs := ht.puts_le hc hids n
  have hpos : 0 < s.log.countP (ServedCall.takes (ids n)) := List.countP_pos_iff.2 ⟨d, hd, hdt⟩
  have hreplay : replay (ids n) s.log = none := by
    cases hr : replay (ids n) s.log with
    | none => rfl
    | some e =>
      rw [hr, Option.toList_some, List.length_singleton] at hle
      omega
  rw [(ht.ledger n hn).find?, hreplay]
  rfl

end Neat

end Crowd

end Registrar
