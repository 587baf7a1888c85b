import Registrar.Proofs.Crowd.Dealing
import Registrar.Proofs.Mint.Exclusion
/-!
Locks over whole runs. A token is outstanding from its grant until an unlock of it answers that it
was found; whoever is outstanding holds its lock, and nobody else does (`Crowd.Latched.held`).
Whoever waits stands in the line and nobody else does, and a lock that is not held is offered to the
first of them. Main statement: `Crowd.locks_reliable`.
-/
set_option autoImplicit false

namespace Registrar

def Lock.Tight (l : Lock) : Prop := l.seat = .free → l.line = []

namespace Lock

theorem tight_passOn (queue : List Nat) : (passOn queue).Tight := by
  cases queue <;> simp [Tight, passOn, idle, line]

theorem Tight.leave {l : Lock} (h : l.Tight) (ticket : Nat) : (l.leave ticket).Tight := by
  intro hs
  rw [line_leave]
  by_cases ho : l.seat = .offered ticket
  · rw [Lock.leave, if_pos ho] at hs
    have hline : (passOn l.queue).line = [] := tight_passOn l.queue hs
    rw [line_passOn] at hline
    simp [line, ho, hline]
  · rw [Lock.leave, if_neg ho] at hs
    simp [h hs]

end Lock

def Call.lock? : Call → Option String
  | .lock name _ => some name
  | .unlock token => some token.name
  | .store _ | .pause _ => none

namespace Locks

/-- What the locks keep through a move that concerns one of them and one ticket at most. -/
structure Moved (ls : Locks) (name? : Option String) (ticket? : Option Nat) (ls' : Locks) :
    Prop where
  others : ∀ name, name? ≠ some name → ls'.find name = ls.find name
  tight : ∀ name, (ls.find name).Tight → (ls'.find name).Tight
  stays : ∀ name t, ticket? ≠ some t → t ∈ (ls.find name).line → t ∈ (ls'.find name).line

variable {ls ls' : Locks} {name : String} {ticket : Nat}

theorem Moved.refl (ls : Locks) (name? : Option String) (ticket? : Option Nat) :
    ls.Moved name? ticket? ls :=
  ⟨fun _ _ => rfl, fun _ h => h, fun _ _ _ h => h⟩

theorem Stirred.moved {before after : Bool} (h : ls.Stirred name ticket before after ls') :
    ls.Moved (some name) (some ticket) ls' where
  others other hne := by
    have ho : other ≠ name := fun h => hne (by rw [h])
    cases h <;> simp [find_leave, join, find_put, ho]
  tight other ht := by
    by_cases ho : other = name
    · subst ho
      have hjoin : (ls.find other).seat ≠ .free → ((ls.join other ticket).find other).Tight := by
        intro hs hf
        exact absurd ((find_join ls other other ticket).1 ▸ hf) hs
      cases h with
      | still => exact ht
      | joined hs => exact hjoin hs
      | left => simpa [find_leave] using ht.leave ticket
      | brief hs => simpa [find_leave] using (hjoin hs).leave ticket
    · have hsame : ls'.find other = ls.find other := by
        cases h <;> simp [find_leave, join, find_put, ho]
      rwa [hsame]
  stays other t hne hmem := by
    have htt : t ≠ ticket := fun h => hne (by rw [h])
    rcases h.line other with ⟨hl, -⟩ | ⟨-, hl⟩ | ⟨-, -, -, hl⟩ | ⟨-, -, -, hl⟩ | ⟨-, -, -, hl⟩ <;>
      simp [hl, hmem, List.mem_erase_of_ne htt]

theorem Stirred.mem_line {before : Bool} (h : ls.Stirred name ticket before true ls')
    (hb : before = true → ticket ∈ (ls.find name).line) : ticket ∈ (ls'.find name).line := by
  cases h with
  | still => exact hb rfl
  | joined => simp [(find_join ls name name ticket).2]

theorem moved_grant (h : (ls.find name).seat = .free ∨ (ls.find name).seat = .offered ticket) :
    ls.Moved (some name) (some ticket) (ls.grant name).2 where
  others other hne := by
    have ho : other ≠ name := fun h => hne (by rw [h])
    simp [find_grant, ho]
  tight other ht := by
    by_cases ho : other = name
    · simp [find_grant, ho, Lock.Tight]
    · simpa [find_grant, ho] using ht
  stays other t hne hmem := by
    by_cases ho : other = name
    · subst ho
      have htt : t ≠ ticket := fun h => hne (by rw [h])
      rcases h with h | h <;> simpa [find_grant, Lock.line, h, htt] using hmem
    · simpa [find_grant, ho] using hmem

theorem moved_unlock (ls : Locks) (token : LockToken) (ticket? : Option Nat) :
    ls.Moved (some token.name) ticket? (ls.unlock token).2 where
  others other hne := by
    have ho : other ≠ token.name := fun h => hne (by rw [h])
    simp [find_unlock, ho]
  tight other ht := by
    rw [find_unlock]
    split
    · exact Lock.tight_passOn _
    · exact ht
  stays other t _ hmem := by rwa [line_unlock]

end Locks

namespace World

variable {w v : World} {ticket : Nat} {c : Call} {a : c.Answer}

theorem Served.moved {queued : Bool} (h : w.Served ticket queued c a v) :
    w.locks.Moved c.lock? (some ticket) v.locks := by
  cases h with
  | store hs hv => rw [hv.locks]; exact .refl ..
  | granted hs hv => rw [hv.locks]; exact Locks.moved_grant (hs.imp And.left id)
  | late hs hv => rw [hv.locks]; exact hs.moved
  | unlocked hv => rw [hv.locks]; exact Locks.moved_unlock ..
  | paused hv => rw [hv.locks]; exact .refl ..

theorem Stirred.moved {before after : Bool} (h : w.Stirred ticket c before after v) :
    w.locks.Moved c.lock? (some ticket) v.locks := by
  cases c with
  | lock name direct =>
    obtain ⟨ls, hs, ha⟩ := h
    rw [ha.locks]
    exact hs.moved
  | store c => rw [h.locks]; exact .refl ..
  | unlock token => rw [h.locks]; exact .refl ..
  | pause length => rw [h.locks]; exact .refl ..

theorem Attended.moved {P : Answers} {lapse : Tick} {g : Guard} {p : Phase c} {turn : Turn g c}
    {served : Option c.Answer} (h : Attended P w ticket lapse g c p v turn served) :
    w.locks.Moved c.lock? (some ticket) v.locks := by
  cases h with
  | served h => exact h.moved
  | madeUp ha hq hv => rw [hv.locks]; exact .refl ..
  | cutOff ho hv => exact hv.moved
  | pending hq hv => exact Stirred.moved hv
  | crashed hc hv => rw [hv.locks]; exact .refl ..

end World

theorem Locks.unlock_found_eq (ls : Locks) (token : LockToken) :
    (ls.unlock token).1 = decide (ls.Holds token) := by
  rw [Bool.eq_iff_iff, unlock_found, decide_eq_true_iff]

/-- The token that a served call was to free, and whether it was found. -/
def ServedCall.unlocked? : ServedCall → Option (LockToken × Bool)
  | ⟨_, .unlock token, .ok found, _⟩ => some (token, found)
  | _ => none

/-- The tokens that have been granted, and that no unlock has been told were found since. -/
def outstanding : List ServedCall → List LockToken
  | [] => []
  | d :: log =>
    ((d.grant?.map Prod.snd).toList ++ outstanding log).filter fun t => d.unlocked? ≠ some (t, true)

theorem mem_outstanding_cons {d : ServedCall} {log : List ServedCall} {t : LockToken} :
    t ∈ outstanding (d :: log) ↔
      ((∃ i, d.grant? = some (i, t)) ∨ t ∈ outstanding log) ∧ d.unlocked? ≠ some (t, true) := by
  simp [outstanding, or_and_right]

theorem grant_of_outstanding {log : List ServedCall} {t : LockToken} (h : t ∈ outstanding log) :
    ∃ i, (i, t) ∈ grants log := by
  induction log with
  | nil => cases h
  | cons d log ih =>
    rcases (mem_outstanding_cons.1 h).1 with ⟨i, hi⟩ | hold
    · exact ⟨i, by simp [grants, hi]⟩
    · obtain ⟨i, hi⟩ := ih hold
      exact ⟨i, List.mem_filterMap.2 ((List.mem_filterMap.1 hi).imp fun _ hd => ⟨.tail _ hd.1, hd.2⟩)⟩

theorem ServedCall.freed?_of_unlocked {d : ServedCall} {t : LockToken} {found : Bool}
    (h : d.unlocked? = some (t, found)) : d.freed? = some t := by
  obtain ⟨who, c, a, time⟩ := d
  cases c with
  | unlock token =>
    cases a with
    | ok b =>
      cases h
      rfl
    | error e => cases h
  | _ => cases h

namespace Activity

variable {α : Type} {P : Answers} {act : Activity α} {w : World} {i : Nat}

def call? : Activity α → Option Call
  | .waiting _ _ _ c _ _ _ => some c
  | _ => none

def lock? (act : Activity α) : Option String := act.call? >>= Call.lock?

def barred : Activity α → World → Bool
  | .waiting _ _ g c _ _ _, w => (w.before g : Option (g.Outcome c.Answer)).isSome
  | _, _ => false

theorem look_moved (hat : act.Attended P w) :
    w.locks.Moved act.lock? act.ticket? (act.look w).1.locks := by
  cases act with
  | fresh f => rw [(look_fresh f w).1]; exact .refl ..
  | done a => exact .refl ..
  | crashed => exact .refl ..
  | waiting ticket lapse g c held k p =>
    rw [(look_waiting w).1]
    exact World.Attended.moved hat

theorem forsake_moved (act : Activity α) (w : World) :
    w.locks.Moved act.lock? act.ticket? (act.forsake w).locks := by
  cases act with
  | waiting ticket lapse g c held k p =>
    exact (World.Stirred.of_alike (World.Alike.refl w) p.isQueued).abandon.moved
  | _ => exact .refl ..

theorem look_unlocked (hat : act.Attended P w) {d : ServedCall} (hd : act.servedCall i w = some d)
    {t : LockToken} (hf : d.freed? = some t) :
    d.unlocked? = some (t, decide (w.locks.Holds t)) ∧
      (¬ w.locks.Holds t → (act.look w).1.locks = w.locks) := by
  obtain ⟨ticket, queued, c, a, rfl, h⟩ := look_served hat hd
  generalize (act.look w).1 = v at h ⊢
  cases h with
  | unlocked hv =>
    cases hf
    have hl : v.locks = (w.locks.unlock t).2 := hv.locks
    constructor
    · simp only [ServedCall.unlocked?, Locks.unlock_found_eq]
    · intro hn
      rw [hl, Locks.unlock_eq, if_neg hn]
  | _ => cases hf

theorem queued_look {name : String} {ticket : Nat} (hat : act.Attended P w)
    (hold : act.QueuesFor name ticket → ticket ∈ (w.locks.find name).line)
    (hq : (act.look w).2.QueuesFor name ticket) :
    ticket ∈ ((act.look w).1.locks.find name).line := by
  cases act with
  | waiting ticket' lapse g c held k p =>
    rw [(look_waiting w).1]
    simp only [look] at hq
    simp only [Attended] at hat
    generalize w.attend ticket' lapse g c p = r at hat hq ⊢
    generalize w.served ticket' g c p = served at hat
    obtain ⟨v, turn⟩ := r
    cases turn with
    | concluded o => exact hq.elim
    | crashed => exact hq.elim
    | pending q =>
      obtain ⟨rfl, ⟨direct, rfl⟩, hqueued⟩ := hq
      cases hat with
      | pending hm hv =>
        obtain ⟨ls, hs, ha⟩ := hv
        rw [hqueued] at hs
        rw [ha.locks]
        exact hs.mem_line fun hp => hold ⟨rfl, ⟨direct, rfl⟩, hp⟩
  | fresh f =>
    cases f with
    | call g c held k => cases hq.2.2
    | request root timeout k =>
      simp only [look] at hq
      split at hq <;> exact hq.elim
    | _ => exact hq.elim
  | done a => exact hq.elim
  | crashed => exact hq.elim

theorem servedCall_of_ended (h : act.inFlight = false) : act.servedCall i w = none := by
  cases act <;> first | rfl | cases h

def inEarnest : Activity α → World → Bool
  | .waiting _ _ _ c _ _ p, w => w.inEarnest c p
  | _, _ => false

theorem servedCall_of_work {ticket : Nat} {lapse : Tick} {g : Guard} {name : String} {direct : Bool}
    {held : Option Held} {k : g.Outcome (Call.lock name direct).Answer → Flow α}
    {p : Phase (.lock name direct)} {token : LockToken}
    (hb : (Activity.waiting ticket lapse g _ held k p).barred w = false)
    (he : w.inEarnest _ p = true) (hw : (w.work ticket _ p).2.answer? = some (.ok token)) :
    ∃ d, (Activity.waiting ticket lapse g _ held k p).servedCall i w = some d ∧
      d.grant? = some (i, token) := by
  have hnone : (w.before g : Option (g.Outcome (Call.lock name direct).Answer)) = none := by
    simpa [barred] using hb
  have hserved : w.served ticket g (.lock name direct) p = some (.ok token) := by
    rw [World.served, hnone]
    simp [World.workServed, he, hw]
  refine ⟨⟨some i, .lock name direct, .ok token, w.now⟩, ?_, rfl⟩
  simp only [servedCall, hserved]
  rfl

theorem servedCall_of_offered {name : String} {ticket : Nat} (hq : act.QueuesFor name ticket)
    (hs : (w.locks.find name).seat = .offered ticket) (hb : act.barred w = false) :
    ∃ d h, act.servedCall i w = some d ∧ d.grant? = some (i, ⟨name, h⟩) := by
  cases act with
  | waiting ticket' lapse g c held k p =>
    obtain ⟨rfl, ⟨direct, rfl⟩, hp⟩ := hq
    cases p with
    | queued limit =>
      have hw : (w.work ticket' (.lock name direct) (.queued limit)).2.answer? =
          some (.ok (w.locks.grant name).1) := by
        simp [World.work, World.await, Locks.collect, hs, Progress.answer?]
      obtain ⟨d, hd, hg⟩ := servedCall_of_work (i := i) hb rfl hw
      exact ⟨d, _, hd, hg⟩
    | _ => cases hp
  | _ => exact hq.elim

theorem servedCall_of_free {name : String} {direct : Bool}
    (hc : act.call? = some (.lock name direct))
    (hq : ∀ ticket, ¬ act.QueuesFor name ticket) (hs : (w.locks.find name).seat = .free)
    (ha : w.locks.available = true) (hb : act.barred w = false) (he : act.inEarnest w = true) :
    ∃ d h, act.servedCall i w = some d ∧ d.grant? = some (i, ⟨name, h⟩) := by
  cases act with
  | waiting ticket lapse g c held k p =>
    obtain rfl := Option.some.inj hc
    have hperform : ∀ v : World, v.locks = w.locks →
        (v.perform ticket (.lock name direct)).2.answer? = some (.ok (w.locks.grant name).1) := by
      intro v hv
      simp [World.perform, hv, ha, Locks.enter, hs, Progress.answer?]
    have hwork : (w.work ticket (.lock name direct) p).2.answer? =
        some (.ok (w.locks.grant name).1) := by
      cases p with
      | queued limit => exact absurd ⟨rfl, ⟨direct, rfl⟩, rfl⟩ (hq ticket)
      | stalled => cases he
      | fresh =>
        change ((World.record _ _).undergo ticket _ (w.faults.take _).1).2.answer? = _
        rw [World.undergo_of_passes _ _ _ he]
        exact hperform _ (World.Alike.record _ _).locks
      | sleeping due next =>
        simp only [inEarnest, World.inEarnest, Bool.and_eq_true, decide_eq_true_eq] at he
        rw [World.work, if_pos he.1, World.undergo_of_passes _ _ _ he.2]
        exact hperform w rfl
    obtain ⟨d, hd, hg⟩ := servedCall_of_work (i := i) hb he hwork
    exact ⟨d, _, hd, hg⟩
  | _ => cases hc

end Activity

namespace Crowd

variable {T : Trade} {s : Crowd T} {m : Move T}

def lock? (s : Crowd T) : Move T → Option String
  | .look i | .drop i | .forsake i => s.parties[i]? >>= fun p => p.activity.lock?
  | .unlock token => some token.name
  | _ => none

def ticket? (s : Crowd T) : Move T → Option Nat
  | .look i | .drop i | .forsake i => s.parties[i]? >>= fun p => p.activity.ticket?
  | _ => none

theorem party_of_ticket {ticket : Nat} (h : s.ticket? m = some ticket) :
    ∃ (j : Nat) (q : Party T), (m = .look j ∨ m = .drop j ∨ m = .forsake j) ∧
      s.parties[j]? = some q ∧ q.activity.ticket? = some ticket := by
  cases m with
  | look j | drop j | forsake j =>
    obtain ⟨q, hj, hq⟩ := Option.bind_eq_some_iff.1 h
    exact ⟨j, q, by simp, hj, hq⟩
  | _ => cases h

theorem moved_party {i : Nat} {p : Party T} (hi : s.parties[i]? = some p) {ls : Locks}
    (hm : m = .look i ∨ m = .drop i ∨ m = .forsake i)
    (h : s.world.locks.Moved p.activity.lock? p.activity.ticket? ls) :
    s.world.locks.Moved (s.lock? m) (s.ticket? m) ls := by
  rcases hm with rfl | rfl | rfl <;> simpa [lock?, ticket?, hi] using h

theorem moved_given_up {i : Nat} (hm : m = .drop i ∨ m = .forsake i) :
    s.world.locks.Moved (s.lock? m) (s.ticket? m) (s.act m).world.locks := by
  rcases act_given_up (s := s) hm with h | ⟨p, held, hi, -, h⟩
  · rw [h]
    exact .refl ..
  · rw [h]
    exact moved_party hi (.inr hm) (p.activity.forsake_moved s.world)

theorem act_moved (ho : s.Orderly anything) (m : Move T) :
    s.world.locks.Moved (s.lock? m) (s.ticket? m) (s.act m).world.locks := by
  cases m with
  | look i =>
    cases hi : s.parties[i]? with
    | none =>
      simp only [act, hi]
      exact .refl ..
    | some p =>
      rw [act_look hi]
      exact moved_party hi (.inl rfl) (Activity.look_moved (ho.attended (fun _ => trivial) hi))
  | drop i => exact moved_given_up (.inl rfl)
  | forsake i => exact moved_given_up (.inr rfl)
  | unlock token => exact Locks.moved_unlock ..
  | store c =>
    simp only [act]
    split <;> exact .refl ..
  | switchLocks available => exact ⟨fun _ _ => rfl, fun _ h => h, fun _ _ _ h => h⟩
  | _ => exact .refl ..

theorem did_unlocked (ho : s.Orderly anything) {d : ServedCall} (hd : s.did m = some d)
    {t : LockToken} (hf : d.freed? = some t) :
    d.unlocked? = some (t, decide (s.world.locks.Holds t)) ∧
      (¬ s.world.locks.Holds t → (s.act m).world.locks = s.world.locks) := by
  rcases (did_eq_some hd).2 with ⟨i, p, rfl, hi, hserved⟩ | ⟨-, ⟨c, -, hc⟩ | ⟨token, rfl, -⟩⟩
  · rw [act_look hi]
    exact Activity.look_unlocked (ho.attended (fun _ => trivial) hi) hserved hf
  · rw [ServedCall.freed?, hc] at hf
    cases hf
  · cases hd
    cases hf
    constructor
    · simp only [ServedCall.unlocked?, Locks.unlock_found_eq]
    · intro hn
      simp only [act, Locks.unlock_eq, if_neg hn]

theorem party_ended {i : Nat} {p : Party T} (hi : s.parties[i]? = some p)
    (hp : p.activity.inFlight = false) (m : Move T) : (s.act m).parties[i]? = some p := by
  obtain ⟨e, act⟩ := p
  rcases party_act hi m with h | ⟨-, h⟩ | ⟨-, hw, -⟩
  · exact h
  · cases act with
    | done a => exact h
    | crashed => exact h
    | _ => cases hp
  · cases act <;> simp_all [Activity.inFlight, Activity.isWaiting]

structure Latched (s : Crowd T) : Prop where
  orderly : s.Orderly anything
  held : ∀ t, t ∈ outstanding s.log ↔ s.world.locks.Holds t
  numbered : ∀ e ∈ grants s.log, ∃ n, n < s.world.locks.issued ∧ e.2.holder = .issued n
  tight : ∀ name, (s.world.locks.find name).Tight
  queued : ∀ (i : Nat) (p : Party T) name t, s.parties[i]? = some p → p.activity.QueuesFor name t →
    t ∈ (s.world.locks.find name).line

namespace Latched

variable {d : ServedCall} {i : Nat} {t : LockToken}

theorem held_act (hl : s.Latched) (t : LockToken) :
    t ∈ outstanding (s.act m).log ↔ (s.act m).world.locks.Holds t := by
  have hP : ∀ length, anything (.pause length) () := fun _ => trivial
  rw [act_holds_iff hl.orderly hP, act_log, ← hl.held]
  cases hd : s.did m with
  | none => simp
  | some d =>
    simp only [Option.toList_some, List.singleton_append, mem_outstanding_cons, Option.mem_some_iff,
      forall_eq', exists_eq_left']
    constructor
    · intro ⟨h, hn⟩
      refine h.symm.imp (fun ht => ⟨ht, fun hf => hn ?_⟩) id
      simpa [(hl.held t).1 ht] using (did_unlocked hl.orderly hd hf).1
    · intro h
      rcases h with ⟨ht, hn⟩ | ⟨i, hg⟩
      · exact ⟨.inr ht, fun hu => hn (ServedCall.freed?_of_unlocked hu)⟩
      · refine ⟨.inl ⟨i, hg⟩, fun hu => ?_⟩
        simpa [ServedCall.freed?_of_grant hg] using ServedCall.freed?_of_unlocked hu

theorem numbered_act (hl : s.Latched) :
    ∀ e ∈ grants (s.act m).log,
      ∃ n, n < (s.act m).world.locks.issued ∧ e.2.holder = .issued n := by
  have hP : ∀ length, anything (.pause length) () := fun _ => trivial
  intro e he
  rcases mem_grants_act.1 he with ⟨d, hd, hg⟩ | hold
  · obtain ⟨-, hh, hi, -⟩ := act_granted hl.orderly hP hd hg
    exact ⟨s.world.locks.issued, by rw [hi]; exact Nat.lt_succ_self _, hh⟩
  · obtain ⟨n, hn, hh⟩ := hl.numbered e hold
    exact ⟨n, Nat.lt_of_lt_of_le hn (act_issued_le hl.orderly hP m), hh⟩

theorem queued_act (hl : s.Latched) {p : Party T} {name : String} {ticket : Nat}
    (hi : (s.act m).parties[i]? = some p) (hq : p.activity.QueuesFor name ticket) :
    ticket ∈ ((s.act m).world.locks.find name).line := by
  cases hr : s.parties[i]? with
  | none =>
    rw [party_new hr hi] at hq
    exact hq.elim
  | some r =>
    by_cases hm : m = .look i
    · subst hm
      rw [act_look hr] at hi ⊢
      obtain rfl := Option.some.inj
        ((become_self (w := (r.activity.look s.world).1) hr).symm.trans hi)
      exact Activity.queued_look (hl.orderly.attended (fun _ => trivial) hr)
        (fun hqr => hl.queued i r name ticket hr hqr) hq
    · rcases party_act hr m with h | ⟨h, -⟩ | ⟨-, -, h⟩
      · obtain rfl := Option.some.inj (h.symm.trans hi)
        have hline := hl.queued i r name ticket hr hq
        by_cases ht : s.ticket? m = some ticket
        · -- The party itself is to be given up, but has not been, so nothing has happened.
          obtain ⟨j, q, hj, hjq, hqt⟩ := party_of_ticket ht
          obtain rfl := hl.orderly.apart j i q r ticket hjq hr hqt hq.ticket
          have hgone : m = .drop j ∨ m = .forsake j := hj.resolve_left hm
          rcases act_given_up (s := s) hgone with hsame | ⟨o, held, ho, -, hact⟩
          · rwa [hsame]
          · rw [hact, become_self ho] at h
            cases h
            exact hq.elim
        · exact (act_moved hl.orderly m).stays name ticket ht hline
      · exact absurd h hm
      · obtain rfl := Option.some.inj (h.symm.trans hi)
        exact hq.elim

theorem act (hl : s.Latched) (m : Move T) : (s.act m).Latched where
  orderly := hl.orderly.act_anything m
  held := hl.held_act
  numbered := hl.numbered_act
  tight name := (act_moved hl.orderly m).tight name (hl.tight name)
  queued _ _ _ _ hi hq := hl.queued_act hi hq

theorem play (hl : s.Latched) (moves : List (Move T)) : (s.play moves).Latched := by
  induction moves generalizing s with
  | nil => exact hl
  | cons m moves ih => exact ih (hl.act m)

end Latched

theorem latched_around {w : World} (hidle : ∀ name, w.locks.find name = .idle)
    (ho : w.orphans = []) : (around w : Crowd T).Latched where
  orderly := orderly_around (within_anything _) ⟨fun name => by rw [hidle]; rfl, ho⟩
  held t := by simp [around, outstanding, Locks.Holds, hidle, Lock.idle]
  numbered e he := by cases he
  tight name _ := by
    change (w.locks.find name).line = []
    rw [hidle]
    rfl
  queued i p name t hi := by cases hi

/-- What a crowd can rely on with its locks, now and whatever is done from now on. -/
structure Reliable (s : Crowd T) : Prop where
  single : ∀ t ∈ outstanding s.log, ∀ u ∈ outstanding s.log, t.name = u.name → t = u
  isHeld : ∀ t ∈ outstanding s.log, s.world.locks.isHeld t.name = true
  granted : ∀ m d i token, s.did m = some d → d.grant? = some (i, token) →
    (∀ t ∈ outstanding s.log, t.name ≠ token.name) ∧ token ∈ outstanding (s.act m).log
  /-- Every unlock is told whether its token is outstanding. -/
  unlocked : ∀ m d token, s.did m = some d → d.freed? = some token →
    d.unlocked? = some (token, decide (token ∈ outstanding s.log))
  spent : ∀ m d token, s.did m = some d → d.unlocked? = some (token, true) →
    ∀ later, token ∉ outstanding ((s.act m).play later).log
  vain : ∀ m d token, s.did m = some d → d.unlocked? = some (token, false) →
    (s.act m).world.locks = s.world.locks
  /-- Whoever has come to an end, however, is granted nothing more. -/
  past : ∀ (i : Nat) (p : Party T), s.parties[i]? = some p → p.activity.inFlight = false →
    ∀ later token, (i, token) ∈ grants (s.play later).log → (i, token) ∈ grants s.log
  /-- Those in line are those who still wait. -/
  line : ∀ name ticket, ticket ∈ (s.world.locks.find name).line ↔
    ∃ (i : Nat) (p : Party T), s.parties[i]? = some p ∧ p.activity.QueuesFor name ticket
  /-- A lock that nobody holds goes to the first in line, if there is any. -/
  next : ∀ name, (∀ t ∈ outstanding s.log, t.name ≠ name) →
    (s.world.locks.find name).line = [] ∧ s.world.locks.isHeld name = false ∨
      ∃ (i : Nat) (p : Party T) (ticket : Nat), s.parties[i]? = some p ∧
        (s.world.locks.find name).line.head? = some ticket ∧ p.activity.QueuesFor name ticket ∧
          (p.activity.barred s.world = false → ∃ h, ⟨name, h⟩ ∈ outstanding (s.act (.look i)).log)
  /-- If there is nobody in line, it goes to whoever comes. -/
  arrival : ∀ (i : Nat) (p : Party T) name direct, s.parties[i]? = some p →
    p.activity.call? = some (.lock name direct) → p.activity.inEarnest s.world = true →
    p.activity.barred s.world = false → s.world.locks.available = true →
    s.world.locks.isHeld name = false → ∃ h, ⟨name, h⟩ ∈ outstanding (s.act (.look i)).log
  others : ∀ m name, s.lock? m ≠ some name →
    (s.act m).world.locks.find name = s.world.locks.find name

namespace Latched

theorem act_of_grant (hl : s.Latched) {d : ServedCall} (hd : s.did m = some d) {i : Nat}
    {token : LockToken} (hg : d.grant? = some (i, token)) :
    (∀ t ∈ outstanding s.log, t.name ≠ token.name) ∧ token ∈ outstanding (s.act m).log := by
  have hP : ∀ length, anything (.pause length) () := fun _ => trivial
  obtain ⟨-, -, -, -, hfree⟩ := act_granted hl.orderly hP hd hg
  constructor
  · intro t ht hn
    exact hfree t.holder (hn ▸ (hl.held t).1 ht)
  · rw [hl.held_act, act_holds_iff hl.orderly hP]
    exact .inr ⟨d, hd, i, hg⟩

theorem not_outstanding_later (hl : s.Latched) {n : Nat} (hn : n < s.world.locks.issued)
    {token : LockToken} (ht : token.holder = .issued n) (hg : token ∉ outstanding s.log)
    (later : List (Move T)) : token ∉ outstanding (s.play later).log := by
  have hP : ∀ length, anything (.pause length) () := fun _ => trivial
  induction later generalizing s with
  | nil => exact hg
  | cons m later ih =>
    refine ih (hl.act m) (Nat.lt_of_lt_of_le hn (act_issued_le hl.orderly hP m)) ?_
    rw [hl.held_act, act_holds_iff hl.orderly hP, ← hl.held]
    rintro (h | ⟨d, hd, i, hgrant⟩)
    · exact hg h.1
    · -- What is granted now has a number that was not issued before.
      obtain ⟨-, hh, -⟩ := act_granted hl.orderly hP hd hgrant
      rw [ht] at hh
      cases hh
      exact Nat.lt_irrefl _ hn

theorem unlocked (hl : s.Latched) {d : ServedCall} (hd : s.did m = some d) {token : LockToken}
    (hf : d.freed? = some token) :
    d.unlocked? = some (token, decide (token ∈ outstanding s.log)) := by
  rw [(did_unlocked hl.orderly hd hf).1]
  simp only [hl.held]

theorem spent (hl : s.Latched) {d : ServedCall} (hd : s.did m = some d) {token : LockToken}
    (hu : d.unlocked? = some (token, true)) (later : List (Move T)) :
    token ∉ outstanding ((s.act m).play later).log := by
  have hP : ∀ length, anything (.pause length) () := fun _ => trivial
  have hout : token ∈ outstanding s.log := by
    simpa [hu] using hl.unlocked hd (ServedCall.freed?_of_unlocked hu)
  obtain ⟨i, hi⟩ := grant_of_outstanding hout
  obtain ⟨n, hn, hh⟩ := hl.numbered _ hi
  refine (hl.act m).not_outstanding_later
    (Nat.lt_of_lt_of_le hn (act_issued_le hl.orderly hP m)) hh ?_ later
  rw [act_log, hd]
  simp [mem_outstanding_cons, hu]

theorem vain (hl : s.Latched) {d : ServedCall} (hd : s.did m = some d) {token : LockToken}
    (hu : d.unlocked? = some (token, false)) : (s.act m).world.locks = s.world.locks := by
  obtain ⟨hfound, hsame⟩ := did_unlocked hl.orderly hd (ServedCall.freed?_of_unlocked hu)
  exact hsame (by simpa [hu] using hfound)

theorem past (hl : s.Latched) {i : Nat} {p : Party T} (hi : s.parties[i]? = some p)
    (hp : p.activity.inFlight = false) (later : List (Move T)) {token : LockToken}
    (hg : (i, token) ∈ grants (s.play later).log) : (i, token) ∈ grants s.log := by
  have hP : ∀ length, anything (.pause length) () := fun _ => trivial
  induction later generalizing s with
  | nil => exact hg
  | cons m later ih =>
    rcases mem_grants_act.1 (ih (hl.act m) (party_ended hi hp m) hg) with ⟨d, hd, hgrant⟩ | hold
    · obtain ⟨rfl, -⟩ := act_granted hl.orderly hP hd hgrant
      rw [did_look hi, Activity.servedCall_of_ended hp] at hd
      cases hd
    · exact hold

theorem offered (hl : s.Latched) {name : String}
    (hnone : ∀ t ∈ outstanding s.log, t.name ≠ name) :
    (s.world.locks.find name).line = [] ∧ (s.world.locks.find name).seat = .free ∨
      ∃ ticket, (s.world.locks.find name).seat = .offered ticket := by
  cases hs : (s.world.locks.find name).seat with
  | free => exact .inl ⟨hl.tight name hs, rfl⟩
  | offered ticket => exact .inr ⟨ticket, rfl⟩
  | held h => exact absurd rfl (hnone ⟨name, h⟩ ((hl.held _).2 hs))

theorem reliable (hl : s.Latched) : s.Reliable where
  single t ht u hu hn := Locks.Holds.unique ((hl.held t).1 ht) ((hl.held u).1 hu) hn
  isHeld t ht := by
    have hs : (s.world.locks.find t.name).seat = .held t.holder := (hl.held t).1 ht
    simp [Locks.isHeld, hs]
  granted m d i token hd hg := hl.act_of_grant hd hg
  unlocked m d token hd hf := hl.unlocked hd hf
  spent m d token hd hu later := hl.spent hd hu later
  vain m d token hd hu := hl.vain hd hu
  past i p hi hp later token hg := hl.past hi hp later hg
  line name ticket := by
    constructor
    · exact hl.orderly.waits name ticket
    · intro ⟨i, p, hi, hq⟩
      exact hl.queued i p name ticket hi hq
  next name hnone := by
    rcases hl.offered hnone with ⟨hline, hs⟩ | ⟨ticket, hs⟩
    · exact .inl ⟨hline, by simp [Locks.isHeld, hs]⟩
    · obtain ⟨i, p, hi, hq⟩ := hl.orderly.waits name ticket (Lock.mem_line_of_offered hs)
      refine .inr ⟨i, p, ticket, hi, by simp [Lock.line, hs], hq, fun hb => ?_⟩
      obtain ⟨d, h, hd, hg⟩ := Activity.servedCall_of_offered (i := i) hq hs hb
      exact ⟨h, (hl.act_of_grant ((did_look hi).trans hd) hg).2⟩
  arrival i p name direct hi hc he hb ha hfree := by
    have hs : (s.world.locks.find name).seat = .free := by simpa [Locks.isHeld] using hfree
    have hq : ∀ ticket, ¬ p.activity.QueuesFor name ticket := by
      intro ticket hq
      have hline := hl.queued i p name ticket hi hq
      rw [hl.tight name hs] at hline
      cases hline
    obtain ⟨d, h, hd, hg⟩ := Activity.servedCall_of_free (i := i) hc hq hs ha hb he
    exact ⟨h, (hl.act_of_grant ((did_look hi).trans hd) hg).2⟩
  others m name hne := (act_moved hl.orderly m).others name hne

end Latched

/-- Whatever is done with locks, and by whom, and whatever is given up, or cut off, or runs out of
patience. -/
theorem locks_reliable (clock : Clock) (patience : Option Span) (ids : Nat → String)
    (moves : List (Move T)) :
    ((around (.start clock patience ids)).play moves : Crowd T).Reliable :=
  ((latched_around (fun _ => rfl) rfl).play moves).reliable

/-- The second who comes waits and is dropped, and the third is granted the lock in its turn. -/
example : outstanding ((around World.newYear).play
    ([.join (.lock "seq"), .join (.lock "seq"), .join (.lock "seq")] ++
      [0, 0, 1, 1, 2, 2].map .look ++ [.drop 1, .unlock ⟨"seq", .issued 0⟩, .look 2]) :
      Crowd mint).log = [⟨"seq", .issued 1⟩] := by
  decide +kernel

end Crowd

end Registrar
