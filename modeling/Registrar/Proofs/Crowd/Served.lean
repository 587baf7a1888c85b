import Registrar.Proofs.Crowd.Order
/-!
What served calls tell of the adapters. A move changes the entries of the store only by the store call
that it serves (`Crowd.act_store`); it seats a holder only by serving the grant, and unseats one only by
serving the unlock of that very token (`Crowd.act_holds_iff`).
-/
set_option autoImplicit false

namespace Registrar

theorem Call.freed?_of_granted {c : Call} {a : c.Answer} {token : LockToken}
    (h : c.granted? a = some token) : c.freed? = none := by
  cases c with
  | lock name direct => rfl
  | store c => cases h
  | unlock t => cases h
  | pause length => cases h

namespace ServedCall

def grant? (d : ServedCall) : Option (Nat × LockToken) :=
  match d.who, d.call.granted? d.answer with
  | some i, some token => some (i, token)
  | _, _ => none

def freed? (d : ServedCall) : Option LockToken := d.call.freed?

theorem granted_of_grant {d : ServedCall} {i : Nat} {token : LockToken}
    (h : d.grant? = some (i, token)) : d.who = some i ∧ d.call.granted? d.answer = some token := by
  unfold grant? at h
  split at h
  · rename_i hw hg
    cases h
    exact ⟨hw, hg⟩
  · cases h

theorem freed?_of_grant {d : ServedCall} {e : Nat × LockToken} (h : d.grant? = some e) :
    d.freed? = none :=
  Call.freed?_of_granted (granted_of_grant h).2

end ServedCall

namespace Activity

variable {α : Type} {P : Answers} {act : Activity α} {w : World} {i : Nat}

theorem servedCall_eq_some {d : ServedCall} (h : act.servedCall i w = some d) :
    d.who = some i ∧ d.time = w.now ∧ ∃ g held k, act.rest = .call g d.call held k := by
  cases act with
  | waiting ticket lapse g c held k p =>
    obtain ⟨a, -, rfl⟩ := Option.map_eq_some_iff.1 h
    exact ⟨rfl, rfl, g, held, k, rfl⟩
  | fresh f => cases h
  | done a => cases h
  | crashed => cases h

theorem look_waiting {ticket : Nat} {lapse : Tick} {g : Guard} {c : Call} {held : Option Held}
    {k : g.Outcome c.Answer → Flow α} {p : Phase c} (w : World) :
    ((Activity.waiting ticket lapse g c held k p).look w).1.locks =
        (w.attend ticket lapse g c p).1.locks ∧
      ((Activity.waiting ticket lapse g c held k p).look w).1.store =
        (w.attend ticket lapse g c p).1.store ∧
      ((Activity.waiting ticket lapse g c held k p).look w).1.clock =
        (w.attend ticket lapse g c p).1.clock := by
  simp only [look]
  generalize w.attend ticket lapse g c p = r
  obtain ⟨v, turn⟩ := r
  cases turn <;> exact ⟨rfl, rfl, rfl⟩

theorem look_clock (hat : act.Attended P w) : (act.look w).1.clock = w.clock := by
  cases act with
  | fresh f => exact (look_fresh f w).2.2.1
  | done a => rfl
  | crashed => rfl
  | waiting ticket lapse g c held k p =>
    rw [(look_waiting w).2.2]
    exact (World.Attended.steady hat).clock

theorem look_orphans (hat : act.Attended P w) :
    ∃ more, (act.look w).1.orphans = w.orphans ++ more := by
  cases act with
  | fresh f => exact ⟨[], by rw [(look_fresh f w).2.2.2.1, List.append_nil]⟩
  | done a => exact ⟨[], (List.append_nil _).symm⟩
  | crashed => exact ⟨[], (List.append_nil _).symm⟩
  | waiting ticket lapse g c held k p =>
    have hv := World.Attended.steady hat |>.orphans
    simp only [look]
    generalize w.attend ticket lapse g c p = r at hv ⊢
    obtain ⟨v, turn⟩ := r
    replace hv : v.orphans = w.orphans := hv
    cases turn with
    | concluded o => exact ⟨[], by simpa using hv⟩
    | pending q => exact ⟨[], by simpa using hv⟩
    | crashed => exact ⟨held.toList, congrArg (· ++ held.toList) hv⟩

theorem look_store (hat : act.Attended P w) :
    (act.look w).1.store = w.store ∧ (∀ d ∈ act.servedCall i w, ∀ c, d.call ≠ .store c) ∨
      ∃ c a s, act.servedCall i w = some ⟨some i, .store c, a, w.now⟩ ∧
        w.store.perform w.now c = some (a, s) ∧ (act.look w).1.store = s := by
  cases act with
  | fresh f => exact .inl ⟨(look_fresh f w).2.1, by simp [servedCall]⟩
  | done a => exact .inl ⟨rfl, by simp [servedCall]⟩
  | crashed => exact .inl ⟨rfl, by simp [servedCall]⟩
  | waiting ticket lapse g c held k p =>
    rw [(look_waiting w).2.1]
    simp only [Attended] at hat
    simp only [servedCall]
    generalize w.attend ticket lapse g c p = r at hat ⊢
    generalize w.served ticket g c p = served at hat ⊢
    obtain ⟨v, turn⟩ := r
    cases hat with
    | served h =>
      cases h with
      | store hs hv => exact .inr ⟨_, _, _, rfl, hs, hv.store⟩
      | granted hs hv => exact .inl ⟨hv.store, by simp⟩
      | late hs hv => exact .inl ⟨hv.store, by simp⟩
      | unlocked hv => exact .inl ⟨hv.store, by simp⟩
      | paused hv => exact .inl ⟨hv.store, by simp⟩
    | madeUp ha hq hv => exact .inl ⟨hv.store, by simp⟩
    | cutOff ho hv => exact .inl ⟨hv.store, by simp⟩
    | pending hq hv => exact .inl ⟨World.Stirred.store hv, by simp⟩
    | crashed hc hv => exact .inl ⟨hv.store, by simp⟩

theorem look_holds_iff (hat : act.Attended P w) (token : LockToken) :
    (act.look w).1.locks.Holds token ↔
      w.locks.Holds token ∧ (∀ d ∈ act.servedCall i w, d.freed? ≠ some token) ∨
        ∃ d ∈ act.servedCall i w, d.grant? = some (i, token) := by
  cases act with
  | fresh f => simp [(look_fresh f w).1, servedCall]
  | done a => simp [look, servedCall]
  | crashed => simp [look, servedCall]
  | waiting ticket lapse g c held k p =>
    have h := World.Attended.holds_iff hat token
    rw [(look_waiting w).1, h]
    simp only [servedCall]
    cases w.served ticket g c p with
    | none => simp
    | some a =>
      cases hg : c.granted? a <;> simp [ServedCall.freed?, ServedCall.grant?, hg]

theorem look_issued_le (hat : act.Attended P w) :
    w.locks.issued ≤ (act.look w).1.locks.issued := by
  cases act with
  | fresh f => exact Nat.le_of_eq (congrArg Locks.issued (look_fresh f w).1).symm
  | done a => exact Nat.le_refl _
  | crashed => exact Nat.le_refl _
  | waiting ticket lapse g c held k p =>
    rw [(look_waiting w).1]
    exact World.Attended.issued_le hat

theorem look_served (hat : act.Attended P w) {d : ServedCall} (hd : act.servedCall i w = some d) :
    ∃ ticket queued c a, d = ⟨some i, c, a, w.now⟩ ∧ w.Served ticket queued c a (act.look w).1 := by
  cases act with
  | fresh f => cases hd
  | done a => cases hd
  | crashed => cases hd
  | waiting ticket lapse g c held k p =>
    obtain ⟨a, hs, rfl⟩ := Option.map_eq_some_iff.1 hd
    simp only [Attended] at hat
    simp only [look]
    generalize w.attend ticket lapse g c p = r at hat ⊢
    rw [hs] at hat
    obtain ⟨v, turn⟩ := r
    cases hat with
    | served h => exact ⟨ticket, _, c, a, rfl, h⟩

theorem look_granted (hat : act.Attended P w) {d : ServedCall} (hd : act.servedCall i w = some d)
    {e : Nat × LockToken} (hg : d.grant? = some e) :
    e.1 = i ∧ e.2.holder = .issued w.locks.issued ∧
      (act.look w).1.locks.issued = w.locks.issued + 1 ∧
      (∃ direct, d.call = .lock e.2.name direct) ∧ ∀ h, ¬ w.locks.Holds ⟨e.2.name, h⟩ := by
  obtain ⟨ticket, queued, c, a, rfl, h⟩ := look_served hat hd
  cases ht : c.granted? a with
  | none => simp [ServedCall.grant?, ht] at hg
  | some token =>
    simp only [ServedCall.grant?, ht, Option.some.injEq] at hg
    subst hg
    obtain ⟨hh, hi, hc, hn⟩ := h.granted_new ht
    exact ⟨rfl, hh, hi, hc, hn⟩

end Activity

namespace World

def Quiet (w v : World) : Prop :=
  v = w ∨ ∃ ticket c before after, w.Stirred ticket c before after v

namespace Quiet

variable {w v : World}

theorem steady (h : w.Quiet v) : World.Steady w v := by
  rcases h with rfl | ⟨_, _, _, _, h⟩
  · exact (Alike.refl v).toSteady
  · exact h.steady

theorem store (h : w.Quiet v) : v.store = w.store := by
  rcases h with rfl | ⟨_, _, _, _, h⟩
  · rfl
  · exact h.store

theorem holds_iff (h : w.Quiet v) (token : LockToken) :
    v.locks.Holds token ↔ w.locks.Holds token := by
  rcases h with rfl | ⟨_, _, _, _, h⟩
  · exact Iff.rfl
  · exact h.holds_iff token

theorem issued (h : w.Quiet v) : v.locks.issued = w.locks.issued := by
  rcases h with rfl | ⟨_, _, _, _, h⟩
  · rfl
  · exact h.issued

end Quiet

end World

theorem Activity.forsake_annals {α : Type} (act : Activity α) (w : World) :
    (act.forsake w).annals = w.annals := by
  cases act with
  | waiting ticket lapse g c held k p => exact World.annals_abandon w ticket c p
  | _ => rfl

theorem Activity.forsake_quiet {α : Type} (act : Activity α) (w : World) :
    w.Quiet (act.forsake w) := by
  cases act with
  | waiting ticket lapse g c held k p =>
    exact .inr ⟨ticket, c, p.isQueued, false,
      (World.Stirred.of_alike (World.Alike.refl w) p.isQueued).abandon⟩
  | _ => exact .inl rfl

namespace Crowd

variable {T : Trade} {P : Answers} {s : Crowd T}

def did (s : Crowd T) : Move T → Option ServedCall
  | .look i => s.parties[i]? >>= fun p => p.activity.servedCall i s.world
  | .store c => (s.world.store.perform s.now c).map fun r => ⟨none, .store c, r.1, s.now⟩
  | .unlock token => some ⟨none, .unlock token, .ok (s.world.locks.unlock token).1, s.now⟩
  | .join _ | .drop _ | .forsake _ | .adopt | .pass _ | .signal _ | .plan _ | .switchStore _ _
  | .switchLocks _ => none

theorem world_given_up {m : Move T} {i : Nat} (hm : m = .drop i ∨ m = .forsake i) :
    ∃ v held, s.world.Quiet v ∧ v.annals = s.world.annals ∧ (s.act m).world = v.orphan held := by
  rcases act_given_up (s := s) hm with h | ⟨p, held, -, -, h⟩
  · exact ⟨s.world, none, .inl rfl, rfl, by simp [h, World.orphan]⟩
  · exact ⟨_, held, p.activity.forsake_quiet s.world, p.activity.forsake_annals s.world, by rw [h]; rfl⟩

theorem did_look {i : Nat} {p : Party T} (hi : s.parties[i]? = some p) :
    s.did (.look i) = p.activity.servedCall i s.world := by
  simp [did, hi]

theorem act_log (s : Crowd T) (m : Move T) : (s.act m).log = (s.did m).toList ++ s.log := by
  cases m with
  | look i =>
    cases hi : s.parties[i]? with
    | none => simp [act, did, hi]
    | some p =>
      rw [act_look hi, did_look hi]
      rfl
  | drop i =>
    simp only [act, did]
    split
    · rfl
    · split <;> rfl
  | forsake i =>
    simp only [act, did]
    split
    · rfl
    · split <;> rfl
  | store c =>
    simp only [act, did]
    cases s.world.store.perform s.now c <;> rfl
  | unlock token => rfl
  | _ => rfl

theorem did_eq_some {m : Move T} {d : ServedCall} (hd : s.did m = some d) :
    d.time = s.now ∧
      ((∃ i p, m = .look i ∧ s.parties[i]? = some p ∧ p.activity.servedCall i s.world = some d) ∨
        d.who = none ∧ ((∃ c, m = .store c ∧ d.call = .store c) ∨
          ∃ token, m = .unlock token ∧ d.call = .unlock token)) := by
  cases m with
  | look i =>
    cases hi : s.parties[i]? with
    | none => simp [did, hi] at hd
    | some p =>
      rw [did_look hi] at hd
      exact ⟨(Activity.servedCall_eq_some hd).2.1, .inl ⟨i, p, rfl, hi, hd⟩⟩
  | store c =>
    obtain ⟨r, -, rfl⟩ := Option.map_eq_some_iff.1 hd
    exact ⟨rfl, .inr ⟨rfl, .inl ⟨c, rfl, rfl⟩⟩⟩
  | unlock token =>
    cases hd
    exact ⟨rfl, .inr ⟨rfl, .inr ⟨token, rfl, rfl⟩⟩⟩
  | _ => cases hd

theorem act_clock (ho : s.Orderly P) (hP : ∀ length, P (.pause length) ()) (m : Move T) :
    (s.act m).world.clock = s.world.clock ∨
      ∃ length, m = .pass length ∧
        (s.act m).world.clock = { s.world.clock with now := s.now + length } := by
  cases m with
  | look i =>
    refine .inl ?_
    cases hi : s.parties[i]? with
    | none => simp [act, hi]
    | some p =>
      rw [act_look hi]
      exact Activity.look_clock (ho.attended hP hi)
  | drop i =>
    obtain ⟨v, held, hq, -, hv⟩ := world_given_up (s := s) (i := i) (.inl rfl)
    exact .inl (hv ▸ hq.steady.clock)
  | forsake i =>
    obtain ⟨v, held, hq, -, hv⟩ := world_given_up (s := s) (i := i) (.inr rfl)
    exact .inl (hv ▸ hq.steady.clock)
  | store c =>
    refine .inl ?_
    simp only [act]
    split <;> rfl
  | pass length => exact .inr ⟨length, rfl, rfl⟩
  | _ => exact .inl rfl

theorem act_now_le (ho : s.Orderly P) (hP : ∀ length, P (.pause length) ()) (m : Move T) :
    s.now ≤ (s.act m).now := by
  rcases act_clock ho hP m with h | ⟨length, -, h⟩
  · exact Nat.le_of_eq (congrArg Clock.now h).symm
  · have hn : (s.act m).now = s.now + length := congrArg Clock.now h
    rw [hn]
    exact Nat.le_add_right _ _

theorem act_orphans (ho : s.Orderly P) (hP : ∀ length, P (.pause length) ()) (m : Move T) :
    m = .adopt ∨ ∃ more, (s.act m).world.orphans = s.world.orphans ++ more := by
  have still : ∀ v : World, v.orphans = s.world.orphans → ∃ more, v.orphans = s.world.orphans ++ more :=
    fun v hv => ⟨[], hv.trans (List.append_nil _).symm⟩
  cases m with
  | adopt => exact .inl rfl
  | look i =>
    refine .inr ?_
    cases hi : s.parties[i]? with
    | none => exact still _ (by simp only [act, hi])
    | some p =>
      rw [act_look hi]
      exact Activity.look_orphans (ho.attended hP hi)
  | drop i =>
    obtain ⟨v, held, hq, -, hv⟩ := world_given_up (s := s) (i := i) (.inl rfl)
    exact .inr ⟨held.toList, by rw [hv, World.orphan, hq.steady.orphans]⟩
  | forsake i =>
    obtain ⟨v, held, hq, -, hv⟩ := world_given_up (s := s) (i := i) (.inr rfl)
    exact .inr ⟨held.toList, by rw [hv, World.orphan, hq.steady.orphans]⟩
  | store c =>
    refine .inr (still _ ?_)
    simp only [act]
    split <;> rfl
  | _ => exact .inr (still _ rfl)

theorem act_store (ho : s.Orderly P) (hP : ∀ length, P (.pause length) ()) (m : Move T) :
    (s.act m).world.store.entries = s.world.store.entries ∧
        (∀ d ∈ s.did m, ∀ c, d.call ≠ .store c) ∨
      ∃ who c a st, s.did m = some ⟨who, .store c, a, s.now⟩ ∧
        s.world.store.perform s.now c = some (a, st) ∧ (s.act m).world.store = st := by
  cases m with
  | look i =>
    cases hi : s.parties[i]? with
    | none => exact .inl ⟨by simp [act, hi], by simp [did, hi]⟩
    | some p =>
      rw [act_look hi, did_look hi]
      rcases Activity.look_store (i := i) (ho.attended hP hi) with ⟨hs, hd⟩ | ⟨c, a, st, hd, hp, hs⟩
      · exact .inl ⟨congrArg Store.entries hs, hd⟩
      · exact .inr ⟨some i, c, a, st, hd, hp, hs⟩
  | drop i =>
    obtain ⟨v, held, hq, -, hv⟩ := world_given_up (s := s) (i := i) (.inl rfl)
    exact .inl ⟨by rw [hv, World.orphan, hq.store], by simp [did]⟩
  | forsake i =>
    obtain ⟨v, held, hq, -, hv⟩ := world_given_up (s := s) (i := i) (.inr rfl)
    exact .inl ⟨by rw [hv, World.orphan, hq.store], by simp [did]⟩
  | store c =>
    cases hp : s.world.store.perform s.now c with
    | none => exact .inl ⟨by simp [act, hp], by simp [did, hp]⟩
    | some r => exact .inr ⟨none, c, r.1, r.2, by simp [did, hp], hp, by simp [act, hp]⟩
  | unlock token => exact .inl ⟨rfl, by simp [did]⟩
  | _ => exact .inl ⟨rfl, by simp [did]⟩

theorem act_holds_iff (ho : s.Orderly P) (hP : ∀ length, P (.pause length) ()) (m : Move T)
    (token : LockToken) :
    (s.act m).world.locks.Holds token ↔
      s.world.locks.Holds token ∧ (∀ d ∈ s.did m, d.freed? ≠ some token) ∨
        ∃ d ∈ s.did m, ∃ i, d.grant? = some (i, token) := by
  -- For the moves without a grant or an unlock it is enough that the seats stay as they are.
  have idle : ((s.act m).world.locks.Holds token ↔ s.world.locks.Holds token) →
      (∀ d ∈ s.did m, d.freed? = none ∧ d.grant? = none) →
      ((s.act m).world.locks.Holds token ↔
        s.world.locks.Holds token ∧ (∀ d ∈ s.did m, d.freed? ≠ some token) ∨
          ∃ d ∈ s.did m, ∃ i, d.grant? = some (i, token)) := by
    intro hh hd
    rw [hh]
    constructor
    · exact fun h => .inl ⟨h, fun d hm => by simp [(hd d hm).1]⟩
    · rintro (h | ⟨d, hm, i, hg⟩)
      · exact h.1
      · simp [(hd d hm).2] at hg
  cases m with
  | look i =>
    cases hi : s.parties[i]? with
    | none => exact idle (by simp only [act, hi]) (by simp [did, hi])
    | some p =>
      have h := Activity.look_holds_iff (i := i) (ho.attended hP hi) token
      rw [act_look hi, did_look hi]
      refine h.trans (or_congr Iff.rfl ⟨?_, ?_⟩)
      · rintro ⟨d, hd, hg⟩
        exact ⟨d, hd, i, hg⟩
      · rintro ⟨d, hd, j, hg⟩
        have hj : j = i := (Activity.look_granted (ho.attended hP hi) hd hg).1
        exact ⟨d, hd, hj ▸ hg⟩
  | drop i =>
    obtain ⟨v, held, hq, -, hv⟩ := world_given_up (s := s) (i := i) (.inl rfl)
    refine idle ?_ (by simp [did])
    rw [hv]
    exact hq.holds_iff token
  | forsake i =>
    obtain ⟨v, held, hq, -, hv⟩ := world_given_up (s := s) (i := i) (.inr rfl)
    refine idle ?_ (by simp [did])
    rw [hv]
    exact hq.holds_iff token
  | store c =>
    refine idle ?_ fun d hd => ?_
    · simp only [act]
      split <;> exact Iff.rfl
    · obtain ⟨r, -, rfl⟩ := Option.map_eq_some_iff.1 hd
      exact ⟨rfl, rfl⟩
  | unlock t =>
    have h := Locks.unlock_holds_iff s.world.locks t token
    simpa [act, did, ServedCall.freed?, Call.freed?, ServedCall.grant?, eq_comm] using h
  | _ => exact idle Iff.rfl (by simp [did])

theorem act_issued_le (ho : s.Orderly P) (hP : ∀ length, P (.pause length) ()) (m : Move T) :
    s.world.locks.issued ≤ (s.act m).world.locks.issued := by
  cases m with
  | look i =>
    cases hi : s.parties[i]? with
    | none => simp [act, hi]
    | some p =>
      rw [act_look hi]
      exact Activity.look_issued_le (ho.attended hP hi)
  | drop i =>
    obtain ⟨v, held, hq, -, hv⟩ := world_given_up (s := s) (i := i) (.inl rfl)
    exact Nat.le_of_eq (by rw [hv, World.orphan, hq.issued])
  | forsake i =>
    obtain ⟨v, held, hq, -, hv⟩ := world_given_up (s := s) (i := i) (.inr rfl)
    exact Nat.le_of_eq (by rw [hv, World.orphan, hq.issued])
  | store c =>
    simp only [act]
    split <;> exact Nat.le_refl _
  | unlock token => exact Nat.le_of_eq (Locks.unlock_issued _ _).symm
  | _ => exact Nat.le_refl _

/-- A grant goes to whoever was looked at, under a number not issued before, and nobody held the
lock. -/
theorem act_granted (ho : s.Orderly P) (hP : ∀ length, P (.pause length) ()) {m : Move T}
    {d : ServedCall} (hd : s.did m = some d) {e : Nat × LockToken} (hg : d.grant? = some e) :
    m = .look e.1 ∧ e.2.holder = .issued s.world.locks.issued ∧
      (s.act m).world.locks.issued = s.world.locks.issued + 1 ∧
      (∃ direct, d.call = .lock e.2.name direct) ∧ ∀ h, ¬ s.world.locks.Holds ⟨e.2.name, h⟩ := by
  rcases (did_eq_some hd).2 with ⟨j, p, rfl, hj, hserved⟩ | ⟨hwho, -⟩
  · rw [act_look hj]
    obtain ⟨hij, hrest⟩ := Activity.look_granted (ho.attended hP hj) hserved hg
    exact ⟨by rw [hij], hrest⟩
  · simp [ServedCall.grant?, hwho] at hg

theorem act_journal (s : Crowd T) (m : Move T) :
    (s.act m).world.journal = s.world.journal ∨
      ∃ i p g c held k, m = .look i ∧ s.parties[i]? = some p ∧
        p.activity.rest = .call g c held k ∧ (s.act m).world.journal = c :: s.world.journal := by
  cases m with
  | look i =>
    cases hi : s.parties[i]? with
    | none => exact .inl (by simp only [act, hi])
    | some p =>
      rw [act_look hi]
      obtain ⟨e, act⟩ := p
      cases act with
      | fresh f => exact .inl (congrArg Prod.snd (Activity.look_fresh f s.world).2.2.2.2.1)
      | done a => exact .inl rfl
      | crashed => exact .inl rfl
      | waiting ticket lapse g c held k p =>
        have hj := World.journal_attend s.world ticket lapse g c p
        simp only [Activity.look]
        generalize s.world.attend ticket lapse g c p = r at hj ⊢
        obtain ⟨v, turn⟩ := r
        rcases hj with hj | hj
        · exact .inl (by cases turn <;> exact hj)
        · refine .inr ⟨i, ⟨e, .waiting ticket lapse g c held k p⟩, g, c, held, k, rfl, hi, rfl, ?_⟩
          cases turn <;> exact hj
  | drop i =>
    obtain ⟨v, held, -, ha, hv⟩ := world_given_up (s := s) (i := i) (.inl rfl)
    exact .inl (by rw [hv]; exact congrArg Prod.snd ha)
  | forsake i =>
    obtain ⟨v, held, -, ha, hv⟩ := world_given_up (s := s) (i := i) (.inr rfl)
    exact .inl (by rw [hv]; exact congrArg Prod.snd ha)
  | store c =>
    simp only [act]
    split <;> exact .inl rfl
  | _ => exact .inl rfl

end Crowd

end Registrar
