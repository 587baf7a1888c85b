import Registrar.Proofs.Crowd
import Registrar.Proofs.Seat
/-!
Order in a crowd: no two calls have one ticket, whoever stands in a line is a party that waits for
that lock, and no answers are made up but those allowed. Main statements: every move keeps the
order (`Orderly.act`), and in an orderly crowd a look at a waiting party comes to one of five things
(`Orderly.attended`).
-/
set_option autoImplicit false

namespace Registrar

namespace Activity

variable {α : Type}

/-- Whether an activity stands in the line of a lock with this ticket. -/
def QueuesFor : Activity α → String → Nat → Prop
  | .waiting ticket _ _ c _ _ p, name, t =>
    ticket = t ∧ (∃ direct, c = .lock name direct) ∧ p.isQueued = true
  | _, _, _ => False

/-- No other answers than these will be made up for the call of an activity. -/
def Within (P : Answers) : Activity α → Prop
  | .waiting _ _ _ c _ _ p => ∀ a, p.madeUp? = some a → P c a
  | _ => True

theorem QueuesFor.ticket {a : Activity α} {name : String} {t : Nat} (h : a.QueuesFor name t) :
    a.ticket? = some t := by
  cases a with
  | waiting ticket lapse g c held k p =>
    obtain ⟨rfl, -, -⟩ := h
    rfl
  | fresh f => exact h.elim
  | done a => exact h.elim
  | crashed => exact h.elim

def rest : Activity α → Flow α
  | .fresh f => f
  | .waiting _ _ g c held k _ => .call g c held k
  | .done a => .done a
  | .crashed => .crash

/-- A look at an activity's call comes to one of the five things that a look can come to. -/
def Attended (P : Answers) (w : World) : Activity α → Prop
  | .waiting ticket lapse g c _ _ p =>
    World.Attended P w ticket lapse g c p (w.attend ticket lapse g c p).1
      (w.attend ticket lapse g c p).2 (w.served ticket g c p)
  | _ => True

theorem look_fresh (f : Flow α) (w : World) :
    ((Activity.fresh f).look w).1.locks = w.locks ∧
      ((Activity.fresh f).look w).1.store = w.store ∧
      ((Activity.fresh f).look w).1.clock = w.clock ∧
      ((Activity.fresh f).look w).1.orphans = w.orphans ∧
      ((Activity.fresh f).look w).1.annals = w.annals ∧
      w.tickets ≤ ((Activity.fresh f).look w).1.tickets ∧
      (∀ t, ((Activity.fresh f).look w).2.ticket? = some t →
        t = w.tickets ∧ ((Activity.fresh f).look w).1.tickets = w.tickets + 1) ∧
      ∀ P, ((Activity.fresh f).look w).2.Within P := by
  cases f with
  | request root timeout k =>
    simp only [look]
    split <;> simp [World.annals, ticket?, Within]
  | _ => simp [look, World.annals, ticket?, Within, Phase.madeUp?, World.mint]

end Activity

/-- Nobody waits for a lock, and no lock is left to be released. -/
def World.Calm (w : World) : Prop :=
  (∀ name, (w.locks.find name).line = []) ∧ w.orphans = []

theorem World.start_calm (clock : Clock) (patience : Option Span) (ids : Nat → String) :
    (start clock patience ids).Calm :=
  ⟨fun _ => rfl, rfl⟩

namespace Crowd

variable {T : Trade} {P : Answers}

/-- What holds of every crowd whose plans make up no other answers than these. -/
structure Orderly (P : Answers) (s : Crowd T) : Prop where
  plan : s.world.faults.Within P
  within : ∀ (i : Nat) (p : Party T), s.parties[i]? = some p → p.activity.Within P
  fresh : ∀ (i : Nat) (p : Party T) (t : Nat), s.parties[i]? = some p → p.activity.ticket? = some t →
    t < s.world.tickets
  apart : ∀ (i j : Nat) (p q : Party T) (t : Nat), s.parties[i]? = some p →
    s.parties[j]? = some q → p.activity.ticket? = some t → q.activity.ticket? = some t → i = j
  nodup : ∀ name, (s.world.locks.find name).line.Nodup
  waits : ∀ name, ∀ t ∈ (s.world.locks.find name).line,
    ∃ (i : Nat) (p : Party T), s.parties[i]? = some p ∧ p.activity.QueuesFor name t

theorem orderly_around {w : World} (hplan : w.faults.Within P) (hw : w.Calm) :
    (around w : Crowd T).Orderly P := by
  constructor
  · exact hplan
  · intro i p hi
    cases hi
  · intro i p t hi
    cases hi
  · intro i j p q t hi
    cases hi
  · intro name
    exact hw.1 name ▸ List.nodup_nil
  · intro name t ht
    exact absurd (hw.1 name ▸ ht) List.not_mem_nil

theorem party_become {s : Crowd T} {i j : Nat} {p q r : Party T} {w : World}
    (hi : s.parties[i]? = some p) (hj : (s.become i q w).parties[j]? = some r) :
    j = i ∧ r = q ∨ j ≠ i ∧ s.parties[j]? = some r := by
  have hlt := (List.getElem?_eq_some_iff.1 hi).1
  by_cases h : j = i
  · subst h
    simp only [become, List.getElem?_set_self hlt, Option.some.injEq] at hj
    exact .inl ⟨rfl, hj.symm⟩
  · simp only [become, List.getElem?_set_ne (Ne.symm h)] at hj
    exact .inr ⟨h, hj⟩

theorem become_self {s : Crowd T} {i : Nat} {p q : Party T} {w : World}
    (hi : s.parties[i]? = some p) : (s.become i q w).parties[i]? = some q := by
  have hlt := (List.getElem?_eq_some_iff.1 hi).1
  simp [become, hlt]

theorem become_of_ne {s : Crowd T} {i j : Nat} {q : Party T} {w : World} (h : j ≠ i) :
    (s.become i q w).parties[j]? = s.parties[j]? := by
  simp [become, List.getElem?_set_ne (Ne.symm h)]

namespace Orderly

variable {s : Crowd T}

theorem become (ho : s.Orderly P) {i : Nat} {p q : Party T} {v : World}
    (hi : s.parties[i]? = some p) (hplan : v.faults.Within P) (hq : q.activity.Within P)
    (htickets : s.world.tickets ≤ v.tickets)
    (hticket : ∀ t, q.activity.ticket? = some t →
      p.activity.ticket? = some t ∨ t = s.world.tickets ∧ v.tickets = s.world.tickets + 1)
    (hnodup : ∀ name, (v.locks.find name).line.Nodup)
    (hline : ∀ name, ∀ t ∈ (v.locks.find name).line,
      t ∈ (s.world.locks.find name).line ∧ p.activity.ticket? ≠ some t ∨
        q.activity.QueuesFor name t) :
    (s.become i q v).Orderly P := by
  -- Nobody else has the party's ticket: it had it before, or the ticket is new.
  have hown : ∀ t, q.activity.ticket? = some t →
      ∀ (j : Nat) (r : Party T), j ≠ i → s.parties[j]? = some r → r.activity.ticket? ≠ some t := by
    intro t ht j r hji hj hr
    rcases hticket t ht with hp | ⟨rfl, -⟩
    · exact hji (ho.apart j i r p t hj hi hr hp)
    · exact Nat.lt_irrefl _ (ho.fresh j r _ hj hr)
  constructor
  · exact hplan
  · intro j r hj
    rcases party_become hi hj with ⟨-, rfl⟩ | ⟨-, hj⟩
    · exact hq
    · exact ho.within j r hj
  · intro j r t hj ht
    rcases party_become hi hj with ⟨-, rfl⟩ | ⟨-, hj⟩
    · rcases hticket t ht with hp | ⟨rfl, hv⟩
      · exact Nat.lt_of_lt_of_le (ho.fresh i p t hi hp) htickets
      · exact hv ▸ Nat.lt_succ_self _
    · exact Nat.lt_of_lt_of_le (ho.fresh j r t hj ht) htickets
  · intro j k r u t hj hk hr hu
    rcases party_become hi hj with ⟨rfl, rfl⟩ | ⟨hji, hj'⟩ <;>
      rcases party_become hi hk with ⟨rfl, rfl⟩ | ⟨hki, hk'⟩
    · rfl
    · exact absurd hu (hown t hr k u hki hk')
    · exact absurd hr (hown t hu j r hji hj')
    · exact ho.apart j k r u t hj' hk' hr hu
  · exact hnodup
  · intro name t ht
    rcases hline name t ht with ⟨hold, hne⟩ | hnew
    · obtain ⟨j, r, hj, hr⟩ := ho.waits name t hold
      have hji : j ≠ i := by
        rintro rfl
        rw [hi] at hj
        cases hj
        exact hne hr.ticket
      exact ⟨j, r, by rwa [become_of_ne hji], hr⟩
    · exact ⟨i, q, become_self hi, hnew⟩

theorem around (ho : s.Orderly P) {v : World} {log : List ServedCall} (hplan : v.faults.Within P)
    (htickets : v.tickets = s.world.tickets)
    (hline : ∀ name, (v.locks.find name).line = (s.world.locks.find name).line) :
    (⟨v, s.parties, log⟩ : Crowd T).Orderly P := by
  constructor
  · exact hplan
  · exact ho.within
  · intro i p t hi ht
    exact htickets ▸ ho.fresh i p t hi ht
  · exact ho.apart
  · intro name
    exact hline name ▸ ho.nodup name
  · intro name t ht
    exact ho.waits name t (hline name ▸ ht)

theorem note (ho : s.Orderly P) (d : Option ServedCall) : (s.note d).Orderly P :=
  ho.around ho.plan rfl fun _ => rfl

theorem gather (ho : s.Orderly P) {v : World} (hf : v.faults = s.world.faults)
    (ht : v.tickets = s.world.tickets) (hl : v.locks = s.world.locks) (more : List (Party T))
    (hmore : ∀ p ∈ more, ∃ f, p.activity = .fresh f) :
    (⟨v, s.parties ++ more, s.log⟩ : Crowd T).Orderly P := by
  have old : ∀ (i : Nat) (p : Party T), (s.parties ++ more)[i]? = some p →
      s.parties[i]? = some p ∨ ∃ f, p.activity = .fresh f := by
    intro i p hi
    by_cases h : i < s.parties.length
    · rw [List.getElem?_append_left h] at hi
      exact .inl hi
    · rw [List.getElem?_append_right (Nat.le_of_not_lt h)] at hi
      exact .inr (hmore p (List.mem_of_getElem? hi))
  have ticketed : ∀ (i : Nat) (p : Party T) (t : Nat), (s.parties ++ more)[i]? = some p →
      p.activity.ticket? = some t → s.parties[i]? = some p := by
    intro i p t hi htk
    rcases old i p hi with h | ⟨f, hf⟩
    · exact h
    · simp [hf, Activity.ticket?] at htk
  constructor
  · exact hf ▸ ho.plan
  · intro i p hi
    rcases old i p hi with h | ⟨f, hf⟩
    · exact ho.within i p h
    · rw [hf]
      trivial
  · intro i p t hi htk
    exact ht ▸ ho.fresh i p t (ticketed i p t hi htk) htk
  · intro i j p q t hi hj hp hq
    exact ho.apart i j p q t (ticketed i p t hi hp) (ticketed j q t hj hq) hp hq
  · intro name
    exact hl ▸ ho.nodup name
  · intro name t hmem
    obtain ⟨i, p, hi, hp⟩ := ho.waits name t (hl ▸ hmem)
    have hlt := (List.getElem?_eq_some_iff.1 hi).1
    exact ⟨i, p, by rwa [List.getElem?_append_left hlt], hp⟩

theorem line_of_ticket (ho : s.Orderly P) {i : Nat} {e : T.Role} {ticket : Nat} {lapse : Tick}
    {g : Guard} {c : Call} {held : Option Held} {k : g.Outcome c.Answer → Flow e.Yield}
    {p : Phase c} (hi : s.parties[i]? = some ⟨e, .waiting ticket lapse g c held k p⟩)
    (name : String) (ht : ticket ∈ (s.world.locks.find name).line) :
    (∃ direct, c = .lock name direct) ∧ p.isQueued = true := by
  obtain ⟨j, q, hj, hq⟩ := ho.waits name ticket ht
  have hji := ho.apart j i q _ ticket hj hi hq.ticket rfl
  subst hji
  rw [hi] at hj
  cases hj
  exact hq.2

theorem attended (ho : s.Orderly P) (hP : ∀ length, P (.pause length) ()) {i : Nat} {p : Party T}
    (hi : s.parties[i]? = some p) : p.activity.Attended P s.world := by
  obtain ⟨e, a⟩ := p
  cases a with
  | waiting ticket lapse g c held k p =>
    refine World.attend_attended ho.plan lapse g (ho.within i _ hi) (fun hp name ht => ?_) hP
    simpa [hp] using (ho.line_of_ticket hi name ht).2
  | fresh f => trivial
  | done a => trivial
  | crashed => trivial

theorem giveUp (ho : s.Orderly P) {i : Nat} {e : T.Role} {ticket : Nat} {lapse : Tick}
    {g : Guard} {c : Call} {held : Option Held} {k : g.Outcome c.Answer → Flow e.Yield}
    {p : Phase c} (hi : s.parties[i]? = some ⟨e, .waiting ticket lapse g c held k p⟩)
    {v : World} (hv : v.annals = (s.world.abandon ticket c p).annals)
    (hl : v.locks = (s.world.abandon ticket c p).locks)
    (ht : v.tickets = (s.world.abandon ticket c p).tickets) :
    (s.become i ⟨e, .crashed⟩ v).Orderly P := by
  have hs : s.world.Stirred ticket c p.isQueued false (s.world.abandon ticket c p) :=
    (World.Stirred.of_alike (World.Alike.refl _) _).abandon
  have hlines := fun name => hs.line name (ho.nodup name) (ho.line_of_ticket hi name)
  have htk : v.tickets = s.world.tickets := ht.trans hs.steady.tickets
  refine ho.become hi ?_ trivial (Nat.le_of_eq htk.symm) (by simp [Activity.ticket?]) ?_ ?_
  · have hf : v.faults = s.world.faults :=
      congrArg Prod.fst (hv.trans (World.annals_abandon s.world ticket c p))
    rw [hf]
    exact ho.plan
  · intro name
    rw [hl]
    exact (hlines name).1
  · intro name t hmem
    rw [hl] at hmem
    rcases (hlines name).2 t hmem with ⟨hold, hne⟩ | ⟨-, -, hfalse⟩
    · exact .inl ⟨hold, by simpa [Activity.ticket?] using Ne.symm hne⟩
    · cases hfalse

theorem look (ho : s.Orderly P) (hP : ∀ length, P (.pause length) ()) (i : Nat) :
    (s.act (.look i)).Orderly P := by
  cases hi : s.parties[i]? with
  | none =>
    simp only [act, hi]
    exact ho
  | some p =>
    rw [act_look hi]
    apply Orderly.note
    obtain ⟨e, a⟩ := p
    cases a with
    | fresh f =>
      obtain ⟨hl, -, -, -, ha, htk, hnew, hw⟩ := Activity.look_fresh f s.world
      have hf : ((Activity.fresh f).look s.world).1.faults = s.world.faults := congrArg Prod.fst ha
      refine ho.become hi ?_ (hw P) htk (fun t ht => .inr (hnew t ht)) ?_ ?_
      · rw [hf]
        exact ho.plan
      · intro name
        rw [hl]
        exact ho.nodup name
      · intro name t hmem
        rw [hl] at hmem
        exact .inl ⟨hmem, by simp [Activity.ticket?]⟩
    | done a =>
      refine ho.become hi ho.plan trivial (Nat.le_refl _) ?_ ho.nodup fun name t hmem => ?_
      · simp [Activity.look, Activity.ticket?]
      · exact .inl ⟨hmem, by simp [Activity.ticket?]⟩
    | crashed =>
      refine ho.become hi ho.plan trivial (Nat.le_refl _) ?_ ho.nodup fun name t hmem => ?_
      · simp [Activity.look, Activity.ticket?]
      · exact .inl ⟨hmem, by simp [Activity.ticket?]⟩
    | waiting ticket lapse g c held k p =>
      have hat : World.Attended P s.world ticket lapse g c p _ _ _ := ho.attended hP hi
      have hplan := World.within_attend ho.plan ticket lapse g c p
      have hlines := fun name => hat.line name (ho.nodup name) (ho.line_of_ticket hi name)
      have htk := hat.steady.tickets
      have own : ∀ t, t ≠ ticket →
          (Activity.waiting ticket lapse g c held k p).ticket? ≠ some t := by
        intro t hne
        simpa [Activity.ticket?] using Ne.symm hne
      simp only [Activity.look]
      generalize s.world.attend ticket lapse g c p = r at hat hplan hlines htk ⊢
      obtain ⟨v, turn⟩ := r
      cases turn with
      | concluded o =>
        refine ho.become hi hplan trivial (Nat.le_of_eq htk.symm) (by simp [Activity.ticket?])
          (fun name => (hlines name).1) fun name t hmem => ?_
        rcases (hlines name).2 t hmem with ⟨hold, hne⟩ | ⟨-, -, q, hq, -⟩
        · exact .inl ⟨hold, own t hne⟩
        · cases hq
      | crashed =>
        refine ho.become hi hplan trivial (Nat.le_of_eq htk.symm) (by simp [Activity.ticket?])
          (fun name => (hlines name).1) fun name t hmem => ?_
        rcases (hlines name).2 t hmem with ⟨hold, hne⟩ | ⟨-, -, q, hq, -⟩
        · exact .inl ⟨hold, own t hne⟩
        · cases hq
      | pending q =>
        have hq : ∀ a, q.madeUp? = some a → P c a := by
          generalize s.world.served ticket g c p = served at hat
          cases hat with
          | pending hq hv => exact hq
        refine ho.become hi hplan hq (Nat.le_of_eq htk.symm) (fun t ht => .inl ht)
          (fun name => (hlines name).1) fun name t hmem => ?_
        rcases (hlines name).2 t hmem with ⟨hold, hne⟩ | ⟨htt, hc, q', hq', hqueued⟩
        · exact .inl ⟨hold, own t hne⟩
        · cases hq'
          exact .inr ⟨htt.symm, hc, hqueued⟩

theorem givenUp (ho : s.Orderly P) {m : Move T} {i : Nat} (hm : m = .drop i ∨ m = .forsake i) :
    (s.act m).Orderly P := by
  rcases act_given_up (s := s) hm with h | ⟨⟨e, a⟩, held, hi, hw, h⟩ <;> rw [h]
  · exact ho
  · cases a with
    | waiting ticket lapse g c held k p => exact ho.giveUp hi rfl rfl rfl
    | _ => cases hw

theorem act (ho : s.Orderly P) (hP : ∀ length, P (.pause length) ()) (m : Move T)
    (hplan : ∀ fs, m = .plan fs → fs.Within P) : (s.act m).Orderly P := by
  cases m with
  | join j =>
    refine ho.gather rfl rfl rfl _ fun p hp => ?_
    cases List.mem_singleton.1 hp
    exact ⟨_, rfl⟩
  | look i => exact ho.look hP i
  | drop i => exact ho.givenUp (i := i) (.inl rfl)
  | forsake i => exact ho.givenUp (i := i) (.inr rfl)
  | adopt =>
    refine ho.gather (v := { s.world with orphans := [] }) rfl rfl rfl _ fun p hp => ?_
    obtain ⟨h, -, rfl⟩ := List.mem_map.1 hp
    exact ⟨_, rfl⟩
  | pass length => exact ho.around ho.plan rfl fun _ => rfl
  | signal signals => exact ho.around ho.plan rfl fun _ => rfl
  | plan fs => exact ho.around (hplan fs rfl) rfl fun _ => rfl
  | switchStore available accepting => exact ho.around ho.plan rfl fun _ => rfl
  | switchLocks available => exact ho.around ho.plan rfl fun _ => rfl
  | store c =>
    simp only [Crowd.act]
    split
    · exact ho
    · exact ho.around ho.plan rfl fun _ => rfl
  | unlock token => exact ho.around ho.plan rfl fun name => Locks.line_unlock _ token name

end Orderly

end Crowd

end Registrar
