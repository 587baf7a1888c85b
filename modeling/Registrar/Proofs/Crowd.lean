import Registrar.Activity
import Registrar.Proofs.Attention
/-!
Crowds: parties at work in one world, looked at in any order. A crowd is moved on by single looks,
none of which goes further than one call, and by what happens around the parties: they come and are
dropped, time passes, signals are given, faults are planned, and adapters are called directly. What
the adapters answer is kept in a log. Main statements: what every lawful move preserves holds of
every lawful run (`Lawful.preserves`), and a whole turn of an activity is a run of looks
(`play_poll`).
-/
set_option autoImplicit false

namespace Registrar

namespace Activity

variable {α : Type}

/-- A look that goes no further than one call. A call takes its ticket before it is looked at. -/
def look : Activity α → World → World × Activity α
  | .fresh (.done a), w => (w, .done a)
  | .fresh .crash, w => (w, .crashed)
  | .fresh (.now k), w => (w, .fresh (k w.clock))
  | .fresh (.mint k), w => (w.mint.2, .fresh (k w.mint.1))
  | .fresh (.request root timeout k), w =>
    match root.child w.signals w.now timeout with
    | none => (w, .crashed)
    | some (ctx, signals) => ({ w with signals := signals }, .fresh (k ctx))
  | .fresh (.call g c held k), w =>
    ({ w with tickets := w.tickets + 1 },
      .waiting w.tickets (w.lapse g) g c held k .fresh)
  | .waiting ticket lapse g c held k p, w =>
    match w.attend ticket lapse g c p with
    | (w, .concluded o) => (w, .fresh (k o))
    | (w, .pending p) => (w, .waiting ticket lapse g c held k p)
    | (w, .crashed) => (w.orphan held, .crashed)
  | a, w => (w, a)

def isWaiting : Activity α → Bool
  | .waiting .. => true
  | _ => false

def held? : Activity α → Option Held
  | .waiting _ _ _ _ held _ _ => held
  | _ => none

theorem drop_eq (act : Activity α) (w : World) : act.drop w = (act.forsake w).orphan act.held? := by
  cases act <;> simp [drop, forsake, held?, World.orphan]

def inFlight : Activity α → Bool
  | .fresh _ | .waiting .. => true
  | .done _ | .crashed => false

end Activity

/-- A call that an adapter has answered, and for whom if not directly. -/
structure ServedCall where
  who : Option Nat
  call : Call
  answer : call.Answer
  time : Tick

def Activity.servedCall {α : Type} (a : Activity α) (who : Nat) (w : World) : Option ServedCall :=
  match a with
  | .waiting ticket _ g c _ _ p => (w.served ticket g c p).map fun a => ⟨some who, c, a, w.now⟩
  | _ => none

/-- The jobs that parties come for, what each yields, and how it is done. -/
structure Trade where
  Job : Type
  Yield : Job → Type
  flow : (j : Job) → Flow (Yield j)

namespace Trade

/-- What a party is there for: a job, or the release of a lock whose flow is no more. -/
inductive Role (T : Trade) where
  | job (j : T.Job)
  | release (h : Held)

variable {T : Trade}

def Role.Yield : T.Role → Type
  | .job j => T.Yield j
  | .release _ => Unit

def Role.flow : (e : T.Role) → Flow e.Yield
  | .job j => T.flow j
  | .release h => .release h

end Trade

/-- A party that is dropped ends as one that crashes does, without a yield. -/
structure Party (T : Trade) where
  role : T.Role
  activity : Activity role.Yield

/-- The log has the last served call first. -/
structure Crowd (T : Trade) where
  world : World
  parties : List (Party T)
  log : List ServedCall

/-- What can happen to a crowd. A forsaken party is dropped where nothing can be set going any more;
direct calls to the adapters are nobody's. -/
inductive Move (T : Trade) where
  | join (j : T.Job)
  | look (i : Nat)
  | drop (i : Nat)
  | forsake (i : Nat)
  | adopt
  | pass (length : Span)
  | signal (s : Signals)
  | plan (fs : Faults)
  | switchStore (available accepting : Bool)
  | switchLocks (available : Bool)
  | store (c : StoreCall)
  | unlock (token : LockToken)

namespace Crowd

variable {T : Trade}

def around (w : World) : Crowd T := ⟨w, [], []⟩

def now (s : Crowd T) : Tick := s.world.now

def role? (s : Crowd T) (i : Nat) : Option T.Role := s.parties[i]?.map (·.role)

def become (s : Crowd T) (i : Nat) (p : Party T) (w : World) : Crowd T :=
  { s with world := w, parties := s.parties.set i p }

def note (s : Crowd T) (d : Option ServedCall) : Crowd T := { s with log := d.toList ++ s.log }

def act (s : Crowd T) : Move T → Crowd T
  | .join j => { s with parties := s.parties ++ [⟨.job j, .fresh (T.flow j)⟩] }
  | .look i =>
    match s.parties[i]? with
    | none => s
    | some p =>
      let r := p.activity.look s.world
      (s.become i ⟨p.role, r.2⟩ r.1).note (p.activity.servedCall i s.world)
  | .drop i =>
    match s.parties[i]? with
    | none => s
    | some p =>
      if p.activity.isWaiting then s.become i ⟨p.role, .crashed⟩ (p.activity.drop s.world) else s
  | .forsake i =>
    match s.parties[i]? with
    | none => s
    | some p =>
      if p.activity.isWaiting then s.become i ⟨p.role, .crashed⟩ (p.activity.forsake s.world)
      else s
  | .adopt =>
    { s with
      world := { s.world with orphans := [] }
      parties := s.parties ++ s.world.orphans.map fun h => ⟨.release h, .fresh (.release h)⟩ }
  | .pass length => { s with world := s.world.setNow (s.now + length) }
  | .signal signals => { s with world := { s.world with signals := signals } }
  | .plan fs => { s with world := { s.world with faults := fs } }
  | .switchStore available accepting =>
    { s with world := { s.world with
      store := { s.world.store with available := available, accepting := accepting } } }
  | .switchLocks available =>
    { s with world := { s.world with locks := { s.world.locks with available := available } } }
  | .store c =>
    match s.world.store.perform s.now c with
    | none => s
    | some (a, store) =>
      { s with world := { s.world with store := store }, log := ⟨none, .store c, a, s.now⟩ :: s.log }
  | .unlock token =>
    let (found, locks) := s.world.locks.unlock token
    { s with
      world := { s.world with locks := locks }
      log := ⟨none, .unlock token, .ok found, s.now⟩ :: s.log }

theorem act_look {s : Crowd T} {i : Nat} {p : Party T} (hp : s.parties[i]? = some p) :
    s.act (.look i) =
      (s.become i ⟨p.role, (p.activity.look s.world).2⟩ (p.activity.look s.world).1).note
        (p.activity.servedCall i s.world) := by
  simp only [act, hp]

theorem act_drop {s : Crowd T} {i : Nat} {p : Party T} (hp : s.parties[i]? = some p) :
    s.act (.drop i) =
      if p.activity.isWaiting then s.become i ⟨p.role, .crashed⟩ (p.activity.drop s.world)
      else s := by
  simp only [act, hp]

theorem act_forsake {s : Crowd T} {i : Nat} {p : Party T} (hp : s.parties[i]? = some p) :
    s.act (.forsake i) =
      if p.activity.isWaiting then s.become i ⟨p.role, .crashed⟩ (p.activity.forsake s.world)
      else s := by
  simp only [act, hp]

theorem act_given_up {s : Crowd T} {m : Move T} {i : Nat} (hm : m = .drop i ∨ m = .forsake i) :
    s.act m = s ∨ ∃ p held, s.parties[i]? = some p ∧ p.activity.isWaiting = true ∧
      s.act m = s.become i ⟨p.role, .crashed⟩ ((p.activity.forsake s.world).orphan held) := by
  cases hi : s.parties[i]? with
  | none =>
    rcases hm with rfl | rfl <;> exact .inl (by simp only [act, hi])
  | some p =>
    have hnone : ∀ w : World, w.orphan none = w := by simp [World.orphan]
    cases hw : p.activity.isWaiting with
    | false =>
      rcases hm with rfl | rfl
      · exact .inl (by rw [act_drop hi, hw]; rfl)
      · exact .inl (by rw [act_forsake hi, hw]; rfl)
    | true =>
      rcases hm with rfl | rfl
      · exact .inr ⟨p, p.activity.held?, rfl, hw, by rw [act_drop hi, hw, Activity.drop_eq]; rfl⟩
      · exact .inr ⟨p, none, rfl, hw, by rw [act_forsake hi, hw, hnone]; rfl⟩

theorem role?_become {s : Crowd T} {i : Nat} {p : Party T} (hp : s.parties[i]? = some p)
    (a : Activity p.role.Yield) (w : World) (j : Nat) :
    (s.become i ⟨p.role, a⟩ w).role? j = s.role? j := by
  have hi := (List.getElem?_eq_some_iff.1 hp).1
  by_cases h : j = i
  · subst h
    rw [role?, role?, hp]
    simp [become, hi]
  · simp [role?, become, List.getElem?_set_ne (Ne.symm h)]

theorem role?_given_up {s : Crowd T} {m : Move T} {i : Nat} (hm : m = .drop i ∨ m = .forsake i)
    (j : Nat) : (s.act m).role? j = s.role? j := by
  rcases act_given_up (s := s) hm with h | ⟨p, held, hi, -, h⟩ <;> rw [h]
  exact role?_become hi _ _ _

theorem role?_act (s : Crowd T) (m : Move T) (i : Nat) :
    (s.act m).role? i = s.role? i ∨
      s.parties[i]? = none ∧ ((∃ j, m = .join j ∧ (s.act m).role? i = some (.job j)) ∨
        ∃ h ∈ s.world.orphans, m = .adopt ∧ (s.act m).role? i = some (.release h)) := by
  cases m with
  | join j =>
    by_cases h : i < s.parties.length
    · exact .inl (by simp [role?, act, List.getElem?_append_left h])
    · replace h := Nat.le_of_not_lt h
      by_cases he : i = s.parties.length
      · exact .inr ⟨by simp [h], .inl ⟨j, rfl, by simp [role?, act, he]⟩⟩
      · have hlen : (s.act (.join j)).parties.length ≤ i := by
          simp only [act, List.length_append, List.length_singleton]
          exact Nat.lt_of_le_of_ne h (Ne.symm he)
        exact .inl (by rw [role?, role?, List.getElem?_eq_none hlen, List.getElem?_eq_none h])
  | look i =>
    cases hi : s.parties[i]? with
    | none => exact .inl (by simp only [act, hi])
    | some p =>
      simp only [act, hi]
      exact .inl (role?_become hi _ (p.activity.look s.world).1 _)
  | drop j => exact .inl (role?_given_up (.inl rfl) i)
  | forsake j => exact .inl (role?_given_up (.inr rfl) i)
  | adopt =>
    by_cases h : i < s.parties.length
    · exact .inl (by simp [role?, act, List.getElem?_append_left h])
    · replace h := Nat.le_of_not_lt h
      cases hh : s.world.orphans[i - s.parties.length]? with
      | none => exact .inl (by simp [role?, act, List.getElem?_append_right h, hh, h])
      | some k =>
        refine .inr ⟨by simp [h], .inr ⟨k, List.mem_of_getElem? hh, rfl, ?_⟩⟩
        simp [role?, act, List.getElem?_append_right h, hh]
  | store c =>
    simp only [act]
    split <;> exact .inl rfl
  | _ => exact .inl rfl

theorem party_given_up {s : Crowd T} {i j : Nat} {p : Party T} (hi : s.parties[i]? = some p)
    {m : Move T} (hm : m = .drop j ∨ m = .forsake j) :
    (s.act m).parties[i]? = some p ∨ i = j ∧ p.activity.isWaiting = true ∧
      (s.act m).parties[i]? = some ⟨p.role, .crashed⟩ := by
  have hlt := (List.getElem?_eq_some_iff.1 hi).1
  rcases act_given_up (s := s) hm with h | ⟨q, held, hj, hw, h⟩ <;> rw [h]
  · exact .inl hi
  · by_cases hij : i = j
    · subst hij
      obtain rfl := Option.some.inj (hi.symm.trans hj)
      exact .inr ⟨rfl, hw, by simp [become, hlt]⟩
    · exact .inl (by simp [become, List.getElem?_set_ne (Ne.symm hij), hi])

theorem party_act {s : Crowd T} {i : Nat} {p : Party T} (hi : s.parties[i]? = some p) (m : Move T) :
    (s.act m).parties[i]? = some p ∨
      m = .look i ∧ (s.act m).parties[i]? = some ⟨p.role, (p.activity.look s.world).2⟩ ∨
      (m = .drop i ∨ m = .forsake i) ∧ p.activity.isWaiting = true ∧
        (s.act m).parties[i]? = some ⟨p.role, .crashed⟩ := by
  have hlt := (List.getElem?_eq_some_iff.1 hi).1
  cases m with
  | join j => exact .inl (by simp only [act, List.getElem?_append_left hlt, hi])
  | adopt => exact .inl (by simp only [act, List.getElem?_append_left hlt, hi])
  | look j =>
    cases hj : s.parties[j]? with
    | none => exact .inl (by simp only [act, hj, hi])
    | some q =>
      rw [act_look hj]
      by_cases h : i = j
      · subst h
        obtain rfl := Option.some.inj (hi.symm.trans hj)
        exact .inr (.inl ⟨rfl, by simp [note, become, hlt]⟩)
      · exact .inl (by simp [note, become, List.getElem?_set_ne (Ne.symm h), hi])
  | drop j =>
    rcases party_given_up (j := j) hi (.inl rfl) with h | ⟨rfl, hw, h⟩
    · exact .inl h
    · exact .inr (.inr ⟨.inl rfl, hw, h⟩)
  | forsake j =>
    rcases party_given_up (j := j) hi (.inr rfl) with h | ⟨rfl, hw, h⟩
    · exact .inl h
    · exact .inr (.inr ⟨.inr rfl, hw, h⟩)
  | store c =>
    refine .inl ?_
    simp only [act]
    split <;> exact hi
  | _ => exact .inl hi

def play (s : Crowd T) : List (Move T) → Crowd T
  | [] => s
  | m :: moves => (s.act m).play moves

/-- Each move is one that the law allows to the crowd that it finds. -/
def Lawful (C : Crowd T → Move T → Prop) (s : Crowd T) : List (Move T) → Prop
  | [] => True
  | m :: moves => C s m ∧ (s.act m).Lawful C moves

theorem Lawful.preserves {C : Crowd T → Move T → Prop} {I : Crowd T → Prop}
    (hstep : ∀ s m, C s m → I s → I (s.act m)) {s : Crowd T} {moves : List (Move T)}
    (h : s.Lawful C moves) (hs : I s) : I (s.play moves) := by
  induction moves generalizing s with
  | nil => exact hs
  | cons m moves ih => exact ih h.2 (hstep s m h.1 hs)

theorem Lawful.both {C D : Crowd T → Move T → Prop} {s : Crowd T} {moves : List (Move T)}
    (h : s.Lawful C moves) (k : s.Lawful D moves) : s.Lawful (fun s m => C s m ∧ D s m) moves := by
  induction moves generalizing s with
  | nil => trivial
  | cons m moves ih => exact ⟨⟨h.1, k.1⟩, ih h.2 k.2⟩

theorem Lawful.append {C : Crowd T → Move T → Prop} {s : Crowd T} {moves more : List (Move T)}
    (h : s.Lawful C moves) (k : (s.play moves).Lawful C more) : s.Lawful C (moves ++ more) := by
  induction moves generalizing s with
  | nil => exact k
  | cons m moves ih => exact ⟨h.1, ih h.2 k⟩

theorem Lawful.of_append {C : Crowd T → Move T → Prop} {s : Crowd T} {moves more : List (Move T)}
    (h : s.Lawful C (moves ++ more)) : s.Lawful C moves := by
  induction moves generalizing s with
  | nil => trivial
  | cons m moves ih => exact ⟨h.1, ih h.2⟩

instance Lawful.decidable {C : Crowd T → Move T → Prop} [∀ s m, Decidable (C s m)] :
    (s : Crowd T) → (moves : List (Move T)) → Decidable (s.Lawful C moves)
  | _, [] => .isTrue trivial
  | s, m :: moves =>
    have : Decidable ((s.act m).Lawful C moves) := Lawful.decidable (s.act m) moves
    inferInstanceAs (Decidable (C s m ∧ (s.act m).Lawful C moves))

theorem play_append (s : Crowd T) (moves more : List (Move T)) :
    s.play (moves ++ more) = (s.play moves).play more := by
  induction moves generalizing s with
  | nil => rfl
  | cons m moves ih => exact ih (s.act m)

/-- The crowd after something that concerned one party only, whatever was logged. -/
def Turned (s : Crowd T) (i : Nat) (p : Party T) (w : World) (t : Crowd T) : Prop :=
  t.world = w ∧ t.parties = s.parties.set i p

theorem Turned.trans {s t u : Crowd T} {i : Nat} {p q : Party T} {w v : World}
    (h : s.Turned i p w t) (k : t.Turned i q v u) : s.Turned i q v u := by
  refine ⟨k.1, ?_⟩
  rw [k.2, h.2, List.set_set]

theorem Turned.party {s t : Crowd T} {i : Nat} {p q : Party T} {w : World}
    (h : s.Turned i q w t) (hp : s.parties[i]? = some p) : t.parties[i]? = some q := by
  have hi := (List.getElem?_eq_some_iff.1 hp).1
  rw [h.2, List.getElem?_set_self hi]

theorem Turned.stop {s t : Crowd T} {i : Nat} {p q : Party T} {w : World}
    (h : s.Turned i q w t) (hp : s.parties[i]? = some p) :
    ∃ n, t.Turned i q w (t.play (List.replicate n (.look i))) := by
  obtain ⟨hi, hq⟩ := List.getElem?_eq_some_iff.1 (h.party hp)
  refine ⟨0, h.1, ?_⟩
  rw [← hq, List.set_getElem_self]
  rfl

theorem turned_of_look {s : Crowd T} {i : Nat} {e : T.Role} {a : Activity e.Yield} {q : Party T}
    {v : World} (hp : s.parties[i]? = some ⟨e, a⟩)
    (h : ∀ t : Crowd T, s.Turned i ⟨e, (a.look s.world).2⟩ (a.look s.world).1 t →
      ∃ n, t.Turned i q v (t.play (List.replicate n (.look i)))) :
    ∃ n, s.Turned i q v (s.play (List.replicate n (.look i))) := by
  have ht : s.Turned i ⟨e, (a.look s.world).2⟩ (a.look s.world).1 (s.act (.look i)) := by
    rw [act_look hp]
    exact ⟨rfl, rfl⟩
  obtain ⟨n, hn⟩ := h _ ht
  exact ⟨n + 1, ht.trans hn⟩

theorem play_advance {s : Crowd T} {i : Nat} {e : T.Role} (f : Flow e.Yield)
    (hp : s.parties[i]? = some ⟨e, .fresh f⟩) :
    ∃ n, s.Turned i ⟨e, (f.advance s.world).2⟩ (f.advance s.world).1
      (s.play (List.replicate n (.look i))) := by
  -- A call takes two looks, one to take its ticket and one to be attended to.
  induction f generalizing s with
  | done a => exact turned_of_look hp fun t ht => ht.stop hp
  | crash => exact turned_of_look hp fun t ht => ht.stop hp
  | now k ih =>
    refine turned_of_look hp fun t ht => ?_
    have h := ih s.world.clock (ht.party hp)
    rwa [ht.1] at h
  | mint k ih =>
    refine turned_of_look hp fun t ht => ?_
    have h := ih s.world.mint.1 (ht.party hp)
    rwa [ht.1] at h
  | request root timeout k ih =>
    refine turned_of_look hp fun t ht => ?_
    rw [Flow.advance]
    rw [Activity.look] at ht
    cases hc : root.child s.world.signals s.world.now timeout with
    | none =>
      rw [hc] at ht
      exact ht.stop hp
    | some r =>
      rw [hc] at ht
      have h := ih r.1 (ht.party hp)
      rwa [ht.1] at h
  | call g c held k ih =>
    refine turned_of_look hp fun t ht => turned_of_look (ht.party hp) fun u hu => ?_
    rw [ht.1] at hu
    rw [Flow.advance]
    simp only [Activity.look] at hu
    generalize World.attend _ _ _ g c _ = r at hu ⊢
    obtain ⟨w, turn⟩ := r
    cases turn with
    | concluded o =>
      have h := ih o (hu.party (ht.party hp))
      rwa [hu.1] at h
    | pending q => exact hu.stop (ht.party hp)
    | crashed => exact hu.stop (ht.party hp)

theorem play_poll {s : Crowd T} {i : Nat} {p : Party T} (hp : s.parties[i]? = some p) :
    ∃ n, s.Turned i ⟨p.role, (p.activity.poll s.world).2⟩ (p.activity.poll s.world).1
      (s.play (List.replicate n (.look i))) := by
  obtain ⟨e, a⟩ := p
  have still : s.Turned i ⟨e, a⟩ s.world s := by
    obtain ⟨hi, hq⟩ := List.getElem?_eq_some_iff.1 hp
    refine ⟨rfl, ?_⟩
    rw [← hq, List.set_getElem_self]
  cases a with
  | fresh f => exact play_advance f hp
  | done a => exact still.stop hp
  | crashed => exact still.stop hp
  | waiting ticket lapse g c held k p =>
    refine turned_of_look hp fun t ht => ?_
    simp only [Activity.look] at ht
    simp only [Activity.poll]
    generalize World.attend _ _ _ g c _ = r at ht ⊢
    obtain ⟨w, turn⟩ := r
    cases turn with
    | concluded o =>
      have h := play_advance (k o) (ht.party hp)
      rwa [ht.1] at h
    | pending q => exact ht.stop hp
    | crashed => exact ht.stop hp

end Crowd

end Registrar
