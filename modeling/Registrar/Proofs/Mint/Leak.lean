import Registrar.Proofs.Mint.Course
/-!
No lock leaks. Whoever holds a lock is an allocation under way, or a release that is still to come,
or a direct caller; so once nothing is under way any more, the next allocation is given the lock at
its first look.
-/
set_option autoImplicit false

namespace Registrar

/-- No grant is made up, and no answer to an unlock. -/
def genuine : Answers
  | .lock _ _, .ok _ | .unlock _, _ => False
  | _, _ => True

theorem Passage.kept {a : Allocator} {i : Nat} {w : World} {L : Prop} {p q : Place}
    {d : Option ServedCall} {orphans : List Held} (hp : Passage genuine a i w L p d q orphans)
    {token : LockToken} (ht : p.token? = some token) :
    q.token? = some token ∨ (∃ e ∈ d, e.freed? = some token) ∨ a.held token ∈ orphans ∨ L := by
  cases hp with
  | still => exact .inl ht
  | lost hp =>
    rw [hp] at ht
    cases ht
  | crashed hp =>
    rw [hp] at ht
    cases ht
    exact .inr (.inr (.inl (List.mem_singleton_self _)))
  | released hd =>
    cases ht
    rcases hd with rfl | ⟨-, hmade⟩
    · exact .inr (.inl ⟨_, rfl, rfl⟩)
    · exact hmade.elim
  | lapsed hl => exact .inr (.inr (.inr hl))
  | counted | notCounted | gaveUpCounting | timed | renewed | notRenewed | gaveUpRenewing =>
    exact .inl ht
  | _ => cases ht

namespace Activity

variable {w : World} {i : Nat}

theorem look_release {h : Held} {act : Activity Unit} (hr : act.rest = .release h)
    (hat : act.Attended genuine w) :
    (act.look w).2.rest = .release h ∨ act.lapses w ∨
      ∃ e ∈ act.servedCall i w, e.freed? = some h.token := by
  obtain ⟨orphans, hadv, -⟩ := look_advanced (i := i) hr hat id
  generalize act.servedCall i w = d at hadv ⊢
  generalize hf : (act.look w).2.rest = f at hadv
  cases hadv with
  | still => exact .inl rfl
  | told hd =>
    rcases hd with rfl | ⟨-, hmade⟩
    · exact .inr (.inr ⟨_, rfl, rfl⟩)
    · exact hmade.elim
  | cutOff ho => exact .inr (.inl (Guard.none_of_cut ho).2)
  | crashed hc =>
    obtain ⟨c, hc⟩ := hc
    cases hc

theorem look_lock {name : String} {act : Activity (Except LockError LockToken)}
    (hr : act.rest = .call .free (.lock name true) none .done) (hat : act.Attended genuine w)
    {d : ServedCall} (hd : act.servedCall i w = some d)
    {token : LockToken} (hg : d.grant? = some (i, token)) :
    (act.look w).2.rest = .done (.ok token) := by
  obtain ⟨orphans, hadv, -⟩ := look_advanced (i := i) hr hat id
  rw [hd] at hadv
  generalize hf : (act.look w).2.rest = f at hadv
  generalize ho : some d = o at hadv
  cases hadv with
  | still => cases ho
  | @told r _ hd =>
    subst ho
    rcases hd with hd | ⟨hd, -⟩
    · cases hd
      cases r with
      | ok t =>
        cases hg
        rfl
      | error e => cases hg
    · cases hd
  | cutOff => cases ho
  | crashed => cases ho

end Activity

namespace Trade.Role

def isJob : mint.Role → Bool
  | .job _ => true
  | .release _ => false

def isDirect : mint.Role → Bool
  | .job (.lock _) => true
  | .job (.allocate _ _) | .release _ => false

end Trade.Role

namespace Crowd

variable {P : Answers} {s : Crowd mint} {m : Move mint} {place place' : Nat → Place}

/-- Every unlock is answered in time, and nothing is dropped where its lock cannot be released. -/
def Releases (s : Crowd mint) : Move mint → Prop
  | .look i => ¬ s.Lapses i
  | .drop i => (s.role? i).all (·.isJob) = true
  | .forsake _ => False
  | _ => True

instance (s : Crowd mint) : (m : Move mint) → Decidable (s.Releases m)
  | .look _ => inferInstanceAs (Decidable (¬ (_ = true)))
  | .drop _ => inferInstanceAs (Decidable (_ = true))
  | .forsake _ => .isFalse id
  | .join _ | .adopt | .pass _ | .signal _ | .plan _ | .switchStore _ _ | .switchLocks _ | .store _
  | .unlock _ => .isTrue trivial

def Tidy (s : Crowd mint) (m : Move mint) : Prop :=
  (∀ fs, m = .plan fs → fs.Within genuine) ∧ s.Releases m

def Releasing (s : Crowd mint) (token : LockToken) : Prop :=
  (∃ h ∈ s.world.orphans, h.token = token) ∨
    ∃ (i : Nat) (h : Held) (act : Activity Unit),
      s.parties[i]? = some ⟨.release h, act⟩ ∧ act.rest = .release h ∧ h.token = token

def Given (s : Crowd mint) (token : LockToken) : Prop :=
  ∃ (i : Nat) (act : Activity (Except LockError LockToken)),
    s.parties[i]? = some ⟨.job (.lock token.name), act⟩ ∧ act.rest = .done (.ok token)

structure Attributed (s : Crowd mint) (place : Nat → Place) : Prop where
  held : ∀ token, s.world.locks.Holds token →
    (∃ i a, s.allocator? i = some a ∧ (place i).token? = some token) ∨ s.Releasing token ∨
      s.Given token
  named : ∀ i a token, s.allocator? i = some a → (place i).token? = some token →
    token.name = a.lockName

theorem Given.act {token : LockToken} (h : s.Given token) : (s.act m).Given token := by
  obtain ⟨i, act, hi, hr⟩ := h
  have hover := Activity.look_over (w := s.world) (i := i) (.inl ⟨_, hr⟩)
  rcases party_act hi m with hi' | ⟨-, hi'⟩ | ⟨-, hw, -⟩
  · exact ⟨i, act, hi', hr⟩
  · exact ⟨i, _, hi', hover.1.trans hr⟩
  · cases act with
    | waiting => cases hr
    | _ => cases hw

theorem Releasing.act {token : LockToken} (h : s.Releasing token) (ho : s.Orderly genuine)
    (hm : s.Tidy m) (hf : ∀ d ∈ s.did m, d.freed? ≠ some token) : (s.act m).Releasing token := by
  rcases h with ⟨h, hh, rfl⟩ | ⟨i, h, act, hi, hr, rfl⟩
  · rcases act_orphans ho (fun _ => trivial) m with rfl | ⟨more, hmore⟩
    · obtain ⟨k, hk⟩ := List.mem_iff_getElem?.1 hh
      refine .inr ⟨s.parties.length + k, h, .fresh (.release h), ?_, rfl, rfl⟩
      simp only [Crowd.act, List.getElem?_append_right (Nat.le_add_right _ _),
        Nat.add_sub_cancel_left, List.getElem?_map, hk]
      rfl
    · exact .inl ⟨h, by rw [hmore]; exact List.mem_append_left _ hh, rfl⟩
  · refine .inr ?_
    rcases party_act hi m with hi' | ⟨rfl, hi'⟩ | ⟨rfl | rfl, -, -⟩
    · exact ⟨i, h, act, hi', hr, rfl⟩
    · have hat := ho.attended (fun _ => trivial) hi
      rcases Activity.look_release (i := i) hr hat with hr' | hl | ⟨e, he, hfr⟩
      · exact ⟨i, h, _, hi', hr', rfl⟩
      · exact absurd (lapses_of_party hi hl) hm.2
      · exact absurd hfr (hf e (by rw [did_look hi]; exact he))
    · have hjob : (s.role? i).all (·.isJob) = true := hm.2
      simp [role?, hi, Trade.Role.isJob] at hjob
    · exact hm.2.elim

theorem Course.given (hc : s.Course place) (ho : s.Orderly genuine) {i : Nat}
    (hi : s.allocator? i = none) {d : ServedCall} (hd : s.did (.look i) = some d) {token : LockToken}
    (hg : d.grant? = some (i, token)) : (s.act (.look i)).Given token := by
  rcases (did_eq_some hd).2 with ⟨j, p, hj, hp, hserved⟩ | ⟨hw, -⟩
  · cases hj
    have hs := hc i p hp
    have hat := ho.attended (fun _ => trivial) hp
    have hnew := become_self (q := ⟨p.role, (p.activity.look s.world).2⟩)
      (w := (p.activity.look s.world).1) hp
    rw [allocator?_of_party hp] at hi
    rw [act_look hp]
    obtain ⟨(⟨a, o⟩ | name) | held, act⟩ := p
    · cases hi
    · obtain ⟨-, -, -, ⟨direct, hlock⟩, -⟩ := act_granted ho (fun _ => trivial) hd hg
      have hown := (Activity.Single.look (i := i) hs hat).2.2 d hserved
      obtain ⟨rfl, -⟩ : token.name = name ∧ direct = true := by
        simpa using hlock.symm.trans hown
      obtain ⟨-, -, g, held, k, hr⟩ := Activity.servedCall_eq_some hserved
      have hcall : act.rest = .call .free (.lock token.name true) none .done := by
        rcases hs with h | ⟨r, h⟩ | h
        · exact h
        · cases hr.symm.trans h
        · cases hr.symm.trans h
      exact ⟨i, _, hnew, Activity.look_lock hcall hat hserved hg⟩
    · have hunlock := (Activity.Single.look (i := i) hs hat).2.2 d hserved
      have hfree := ServedCall.freed?_of_grant hg
      rw [ServedCall.freed?, hunlock] at hfree
      cases hfree
  · rw [(ServedCall.granted_of_grant hg).1] at hw
    cases hw

namespace Attributed

theorem held_act (hx : s.Attributed place) (ho : s.Orderly genuine) (hc : s.Course place)
    (hm : s.Tidy m) (hon : s.Onward genuine m place place') :
    ∀ token, (s.act m).world.locks.Holds token →
      (∃ i a, (s.act m).allocator? i = some a ∧ (place' i).token? = some token) ∨
        (s.act m).Releasing token ∨ (s.act m).Given token := by
  intro token hh
  rcases (act_holds_iff ho (fun _ => trivial) m token).1 hh with ⟨hold, hf⟩ | ⟨d, hd, i, hg⟩
  -- Held before and not freed now: whoever accounted for the token still does, or leaves its release.
  · rcases hx.held token hold with ⟨i, a, ha, ht⟩ | hr | hgiven
    · have left : a.held token ∈ (s.act m).world.orphans → (s.act m).Releasing token :=
        fun hin => .inl ⟨_, hin, rfl⟩
      have hfared := hon.fared i a ha
      generalize hp : place i = p at hfared ht
      generalize hq : place' i = q at hfared
      cases hfared with
      | stayed => exact .inl ⟨i, a, allocator?_of_act ha, by rw [hq, ht]⟩
      | looked hl hpass horph =>
        rcases hpass.kept ht with hq' | ⟨e, he, hfr⟩ | hin | hlapse
        · exact .inl ⟨i, a, allocator?_of_act ha, by rw [hq, hq']⟩
        · exact absurd hfr (hf e he)
        · exact .inr (.inl (left (by rw [horph]; exact List.mem_append_right _ hin)))
        · subst hl
          exact absurd hlapse hm.2
      | dropped hd horph =>
        refine .inr (.inl (left ?_))
        rw [horph, ht]
        exact List.mem_append_right _ (List.mem_singleton_self _)
      | forsaken hd =>
        subst hd
        exact hm.2.elim
    · exact .inr (.inl (hr.act ho hm hf))
    · exact .inr (.inr hgiven.act)
  · obtain ⟨rfl, -⟩ := act_granted ho (fun _ => trivial) hd hg
    cases ha : s.allocator? i with
    | some a =>
      obtain ⟨orphans, hp, -⟩ := (hon.fared i a ha).passage
      exact .inl ⟨i, a, allocator?_of_act ha, hp.granted hd hg⟩
    | none => exact .inr (.inr (hc.given ho ha hd hg))

theorem named_act (hx : s.Attributed place) (ho : s.Orderly genuine)
    (hon : s.Onward genuine m place place') :
    ∀ i a token, (s.act m).allocator? i = some a → (place' i).token? = some token →
      token.name = a.lockName := by
  intro i a token ha ht
  obtain ⟨ha', ⟨rfl, d, hd, hg⟩ | ⟨hold, -⟩⟩ := hon.token (fun hmade => hmade) ha ht
  · obtain ⟨orphans, hp, -⟩ := (hon.fared i a ha').passage
    obtain ⟨-, -, -, ⟨direct, hlock⟩, -⟩ := act_granted ho (fun _ => trivial) hd hg
    exact hp.lock_name hd hlock
  · exact hx.named i a token ha' hold

theorem act (hx : s.Attributed place) (ho : s.Orderly genuine) (hc : s.Course place)
    (hm : s.Tidy m) (hon : s.Onward genuine m place place') : (s.act m).Attributed place' where
  held := hx.held_act ho hc hm hon
  named := hx.named_act ho hon

end Attributed

theorem attributed_around {w : World} (hw : ∀ name, w.locks.isHeld name = false) :
    (around w : Crowd mint).Attributed place where
  held := by
    intro token hh
    have hs : (w.locks.find token.name).seat = .held token.holder := hh
    have hn := hw token.name
    rw [Locks.isHeld, hs] at hn
    cases hn
  named := by simp [around, allocator?, role?]

/-- The lock of this name is called for or held by somebody, or its release is still to come. -/
inductive InUse (s : Crowd mint) (name : String) : Prop where
  | allocating {i : Nat} {a : Allocator} {o : Order} {act : Activity (Except AllocError Identifier)}
      (hi : s.parties[i]? = some ⟨.job (.allocate a o), act⟩) (hact : act.inFlight = true)
      (hn : a.lockName = name)
  | releasing {token : LockToken} (h : s.Releasing token) (hn : token.name = name)
  | offered {i ticket : Nat} {act : Activity (Except LockError LockToken)}
      (hi : s.parties[i]? = some ⟨.job (.lock name), act⟩) (ht : act.ticket? = some ticket)
      (hs : (s.world.locks.find name).seat = .offered ticket)
  | given {token : LockToken} (h : s.Given token) (hh : s.world.locks.Holds token)
      (hn : token.name = name)

theorem Course.offered (hc : s.Course place) (ho : s.Orderly P) {name : String} {ticket : Nat}
    (hs : (s.world.locks.find name).seat = .offered ticket) : s.InUse name := by
  obtain ⟨i, p, hi, hq⟩ := ho.waits name ticket (Lock.mem_line_of_offered hs)
  have hp := hc i p hi
  obtain ⟨e, act⟩ := p
  cases act with
  | fresh f => exact hq.elim
  | done a => exact hq.elim
  | crashed => exact hq.elim
  | waiting t lapse g c held k phase =>
    obtain ⟨rfl, ⟨direct, rfl⟩, -⟩ := hq
    obtain (⟨a, o⟩ | name') | h := e
    · have hcall := (Place.call_eq hp.symm).1
      refine .allocating hi rfl ?_
      generalize place i = p at hcall
      cases p <;> cases hcall
      rfl
    · rcases hp with hr | ⟨r, hr⟩ | hr <;> cases hr
      exact .offered hi rfl hs
    · rcases hp with hr | ⟨r, hr⟩ | hr <;> cases hr

theorem Attributed.inUse (hx : s.Attributed place) (ho : s.Orderly P) (hc : s.Course place)
    {name : String} (hh : s.world.locks.isHeld name = true) : s.InUse name := by
  cases hs : (s.world.locks.find name).seat with
  | free => simp [Locks.isHeld, hs] at hh
  | offered ticket => exact hc.offered ho hs
  | held holder =>
    have hholds : s.world.locks.Holds ⟨name, holder⟩ := hs
    rcases hx.held _ hholds with ⟨i, a, ha, ht⟩ | hr | hg
    · obtain ⟨o, act, hi⟩ := allocator?_eq_some ha
      have hp : act.rest = (place i).flow a := hc i _ hi
      refine .allocating hi ?_ (hx.named i a _ ha ht).symm
      generalize place i = p at hp ht
      cases act with
      | fresh f => rfl
      | waiting => rfl
      | done r => cases p <;> cases ht <;> cases hp
      | crashed => cases p <;> cases ht <;> cases hp
    · exact .releasing hr rfl
    · exact .given hg hholds rfl

end Crowd

theorem World.attend_free {w : World} {name : String} (hfree : w.locks.isHeld name = false)
    (havail : w.locks.available = true) {ctx : Context}
    (hctx : ctx.interruption? w.signals w.now = none)
    (hpass : (w.faults.take (.lock name false)).1 = .pass) (ticket : Nat) (lapse : Tick) :
    ∃ v token, w.attend ticket lapse (.under ctx) (.lock name false) .fresh =
        (v, .concluded (.ok (.ok token))) ∧ token.name = name ∧ v.locks.Holds token := by
  have hseat : (w.locks.find name).seat = .free := by simpa [Locks.isHeld] using hfree
  have hgranted : (w.locks.grant name).2.Holds (w.locks.grant name).1 := by
    simp [Locks.Holds, Locks.grant_name, Locks.find_grant, Locks.grant_holder]
  let v : World := { w with
    faults := (w.faults.take (.lock name false)).2
    journal := .lock name false :: w.journal
    locks := (w.locks.grant name).2 }
  refine ⟨v.noteHolder (w.locks.grant name).1.holder, (w.locks.grant name).1, ?_, rfl, ?_⟩
  · refine attend_answered lapse (before_under hctx) ?_
    simp only [work, hpass, undergo]
    exact perform_lock ticket false hseat havail
  · rw [(World.Alike.noteHolder v _).locks]
    exact hgranted

namespace Crowd

variable {P : Answers} {s : Crowd mint}

theorem play_new (a : Allocator) (ctx : Context) (day : Day) {n : Nat} (hn : n = s.parties.length) :
    (s.play [.join (.allocate a (.on ctx day)), .look n]).parties[n]? =
        some ⟨.job (.allocate a (.on ctx day)), .waiting s.world.tickets s.now (.under ctx)
          (.lock a.lockName false) none (a.afterLock ctx day) .fresh⟩ ∧
      (s.play [.join (.allocate a (.on ctx day)), .look n]).world =
        { s.world with tickets := s.world.tickets + 1 } := by
  have hj : (s.act (.join (.allocate a (.on ctx day)))).parties[n]? =
      some ⟨.job (.allocate a (.on ctx day)), .fresh (a.allocate ctx day)⟩ := by
    rw [hn]
    exact List.getElem?_concat_length
  simp only [play]
  rw [act_look hj]
  exact ⟨become_self hj, rfl⟩

theorem play_granted {a : Allocator} {ctx : Context} {day : Day} {n : Nat}
    (hn : n = s.parties.length) (hfree : s.world.locks.isHeld a.lockName = false)
    (havail : s.world.locks.available = true)
    (hctx : ctx.interruption? s.world.signals s.now = none)
    (hpass : (s.world.faults.take (.lock a.lockName false)).1 = .pass) :
    ∃ act token, (s.play [.join (.allocate a (.on ctx day)), .look n, .look n]).parties[n]? =
        some ⟨.job (.allocate a (.on ctx day)), act⟩ ∧
      act.rest = (Place.counting ctx day token).flow a ∧ token.name = a.lockName ∧
      (s.play [.join (.allocate a (.on ctx day)), .look n, .look n]).world.locks.Holds token := by
  obtain ⟨hp, hw⟩ := play_new a ctx day hn
  have hplay : s.play [.join (.allocate a (.on ctx day)), .look n, .look n] =
      (s.play [.join (.allocate a (.on ctx day)), .look n]).act (.look n) := rfl
  obtain ⟨v, token, hv, hname, hholds⟩ := World.attend_free
    (w := { s.world with tickets := s.world.tickets + 1 }) hfree havail hctx hpass
    s.world.tickets s.now
  rw [hplay]
  generalize s.play [.join (.allocate a (.on ctx day)), .look n] = t at hp hw
  have hlook : (Activity.waiting s.world.tickets s.now (.under ctx) (.lock a.lockName false) none
      (a.afterLock ctx day) .fresh).look t.world =
        (v, .fresh (a.afterLock ctx day (.ok (.ok token)))) := by
    rw [hw]
    simp only [Activity.look, hv]
    rfl
  have hlocks : ∀ ls : Locks, ls = v.locks → ls.Holds token := by
    rintro ls rfl
    exact hholds
  rw [act_look hp]
  exact ⟨_, token, become_self (w := t.world) hp, congrArg (·.2.rest) hlook, hname,
    hlocks _ (congrArg (·.1.locks) hlook)⟩

/-- A lock counts as held only while it is in use. So where it is not in use, the next allocation
has it after its first look. -/
theorem no_lock_leaks {w : World} (hw : w.Calm) (hfree : ∀ name, w.locks.isHeld name = false)
    (hplan : w.faults.Within genuine) {moves : List (Move mint)}
    (h : (around w).Lawful Tidy moves) {s : Crowd mint} (hs : s = (around w).play moves) :
    (∀ name, s.world.locks.isHeld name = true → s.InUse name) ∧
    ∀ a : Allocator, ¬ s.InUse a.lockName → s.world.locks.isHeld a.lockName = false ∧
      ∀ ctx day n, n = s.parties.length → s.world.locks.available = true →
        ctx.interruption? s.world.signals s.now = none →
        (s.world.faults.take (.lock a.lockName false)).1 = .pass →
        ∃ act token, (s.play [.join (.allocate a (.on ctx day)), .look n, .look n]).parties[n]? =
            some ⟨.job (.allocate a (.on ctx day)), act⟩ ∧
          act.rest = (Place.counting ctx day token).flow a ∧ token.name = a.lockName ∧
          (s.play [.join (.allocate a (.on ctx day)), .look n, .look n]).world.locks.Holds token := by
  have hrun := h.course (fun _ => trivial) (fun _ fs hm => hm.1 fs rfl)
    (fun s m place place' ho hc hm hon hx => hx.act ho hc hm hon) hw hplan (attributed_around hfree)
  rw [← hs] at hrun
  obtain ⟨ho, place, hc, hx⟩ := hrun
  have hused : ∀ name, s.world.locks.isHeld name = true → s.InUse name :=
    fun name hh => hx.inUse ho hc hh
  refine ⟨hused, fun a hn => ?_⟩
  have hnot : s.world.locks.isHeld a.lockName = false := by
    cases hh : s.world.locks.isHeld a.lockName with
    | false => rfl
    | true => exact absurd (hused _ hh) hn
  exact ⟨hnot, fun ctx day n hl havail hctx hpass => play_granted hl hnot havail hctx hpass⟩

theorem not_inUse (hp : ∀ p ∈ s.parties, p.activity.inFlight = false ∧ p.role.isDirect = false)
    (ho : s.world.orphans = []) (name : String) : ¬ s.InUse name := by
  have party : ∀ (i : Nat) (p : Party mint), s.parties[i]? = some p →
      p.activity.inFlight = false ∧ p.role.isDirect = false :=
    fun i p hi => hp p (List.mem_of_getElem? hi)
  intro h
  cases h with
  | allocating hi hact =>
    exact Bool.false_ne_true ((party _ _ hi).1.symm.trans hact)
  | releasing h =>
    rcases h with ⟨h, hh, -⟩ | ⟨i, h, act, hi, hr, -⟩
    · rw [ho] at hh
      cases hh
    · have hact := (party i _ hi).1
      cases act with
      | fresh f => cases hact
      | waiting => cases hact
      | done r => cases hr
      | crashed => cases hr
  | offered hi => cases (party _ _ hi).2
  | given h =>
    obtain ⟨i, act, hi, -⟩ := h
    cases (party i _ hi).2

/-- An allocation is dropped while it counts, and its lock is released. -/
def released : List (Move mint) :=
  .join .newYear :: List.replicate 3 (.look 0) ++ [.drop 0, .adopt] ++ List.replicate 3 (.look 1)

theorem no_lock_leaks_released : ∃ act token,
    (((around .newYear).play released).play [.join .newYear, .look 2, .look 2]).parties[2]? =
      some ⟨.job .newYear, act⟩ ∧
    act.rest = (Place.counting ⟨[], none⟩ .newYear token).flow .standard := by
  have hlaw : (around .newYear).Lawful Tidy released := by
    have hplans : (around .newYear).Lawful (fun _ m => ∀ fs, m = .plan fs → fs.Within genuine)
        released := by
      simp [released, Lawful, List.replicate]
    have hreleases : (around .newYear).Lawful Releases released := by
      decide +kernel
    exact hplans.both hreleases
  have hquiet : ¬ ((around .newYear).play released).InUse Allocator.standard.lockName :=
    not_inUse (by decide +kernel) rfl _
  obtain ⟨-, hfree⟩ := no_lock_leaks World.newYear_calm (fun _ => rfl) (Faults.within_none _) hlaw rfl
  obtain ⟨act, token, hp, hr, -⟩ := (hfree .standard hquiet).2 ⟨[], none⟩ .newYear 2 rfl rfl rfl rfl
  exact ⟨act, token, hp, hr⟩

end Crowd

end Registrar
