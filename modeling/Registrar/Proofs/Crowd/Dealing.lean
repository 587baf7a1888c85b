import Registrar.Proofs.Crowd.Order
/-!
Dealings: what an activity has to do with its adapters, as the journal and the guards show it. Each
call is begun, then perhaps asked of its adapter, and then ended, and the flow goes on with what it
ended with. Main statement: the dealings of a party that has come to its end are those of its flow,
one call after the other (`Crowd.tells_of_done`).
-/
set_option autoImplicit false

namespace Registrar

/-- A call is begun when its limits start to run, asked when its adapter comes to know of it, and
ended when its flow goes on, with the world as it is found then. -/
inductive Dealing where
  | begun (w : World) (c : Call)
  | asked (c : Call)
  | ended (w : World) (g : Guard) (c : Call) (o : g.Outcome c.Answer)

def Dealing.asked? : Dealing → Option Call
  | .asked c => some c
  | .begun _ _ | .ended _ _ _ _ => none

/-- The calls that were asked, the first one first. -/
def asked (t : List Dealing) : List Call := t.filterMap Dealing.asked?

def Call.noted : Call → List Call
  | .lock _ true | .pause _ => []
  | c => [c]

namespace Activity

variable {α : Type}

def asks (act : Activity α) (w : World) : List Call :=
  (act.look w).1.journal.take ((act.look w).1.journal.length - w.journal.length)

def begins : Activity α → World → List Dealing
  | .fresh (.call _ c _ _), w => [.begun w c]
  | _, _ => []

def ends : Activity α → World → List Dealing
  | .waiting ticket lapse g c _ _ p, w =>
    match (w.attend ticket lapse g c p).2 with
    | .concluded o => [.ended w g c o]
    | .pending _ | .crashed => []
  | _, _ => []

def dealings (act : Activity α) (w : World) : List Dealing :=
  act.begins w ++ (act.asks w).map .asked ++ act.ends w

end Activity

namespace World

variable {w v : World} {ticket : Nat} {c : Call} {p q : Phase c}

theorem journal_record_noted (w : World) (c : Call) :
    (w.record c).journal = c.noted ++ w.journal := by
  cases c with
  | lock name direct => cases direct <;> rfl
  | _ => rfl

theorem journal_work_fresh (w : World) (ticket : Nat) (c : Call) :
    (w.work ticket c .fresh).1.journal = c.noted ++ w.journal := by
  have h := congrArg Prod.snd (annals_undergo
    (({ w with faults := (w.faults.take c).2 } : World).record c) ticket c (w.faults.take c).1)
  exact h.trans (journal_record_noted _ c)

theorem journal_work_later (w : World) (ticket : Nat) (hp : p ≠ .fresh) :
    (w.work ticket c p).1.journal = w.journal := by
  cases p with
  | fresh => exact absurd rfl hp
  | sleeping due next =>
    rw [work]
    split
    · exact congrArg Prod.snd (annals_undergo w ticket c next)
    · rfl
  | stalled => rfl
  | queued limit =>
    cases c with
    | lock name direct => exact congrArg Prod.snd (annals_await w ticket name direct limit)
    | _ => rfl

theorem perform_not_fresh (h : w.perform ticket c = (v, .pending q)) : q ≠ .fresh := by
  cases c with
  | store c =>
    rw [perform] at h
    split at h <;> cases h
  | lock name direct =>
    rw [perform] at h
    split at h
    · split at h
      · cases h
      · unfold await at h
        split at h
        · cases h
        · split at h <;> cases h
          simp
    · cases h
      simp
  | unlock token => cases h
  | pause length =>
    cases length with
    | none =>
      cases h
      simp
    | some length =>
      rw [perform] at h
      split at h <;> cases h
      simp

theorem undergo_not_fresh {f : Fault c.Answer} (h : w.undergo ticket c f = (v, .pending q)) :
    q ≠ .fresh := by
  induction f with
  | pass => exact perform_not_fresh h
  | stall =>
    cases h
    simp
  | delay length next ih =>
    unfold undergo at h
    split at h
    · exact ih h
    · cases h
      simp
  | answer a => cases h

theorem work_not_fresh (h : w.work ticket c p = (v, .pending q)) : q ≠ .fresh := by
  cases p with
  | fresh => exact undergo_not_fresh h
  | sleeping due next =>
    rw [work] at h
    split at h
    · exact undergo_not_fresh h
    · cases h
      simp
  | stalled =>
    cases h
    simp
  | queued limit =>
    cases c with
    | lock name direct =>
      simp only [work] at h
      unfold await at h
      split at h
      · cases h
      · split at h <;> cases h
        simp
    | _ =>
      cases h
      simp

theorem journal_attend_cut {lapse : Tick} {g : Guard} {o : g.Outcome c.Answer}
    (h : w.before g = some o) : (w.attend ticket lapse g c p).1.journal = w.journal := by
  simp only [attend, h]
  exact congrArg Prod.snd (annals_abandon w ticket c p)

theorem journal_attend_work {lapse : Tick} {g : Guard}
    (h : (w.before g : Option (g.Outcome c.Answer)) = none) :
    (w.attend ticket lapse g c p).1.journal = (w.work ticket c p).1.journal := by
  simp only [attend, h]
  generalize w.work ticket c p = r
  obtain ⟨v, progress⟩ := r
  cases progress with
  | answered a => rfl
  | crashed => rfl
  | pending q =>
    simp only
    split
    · exact congrArg Prod.snd (annals_abandon v ticket c q)
    · rfl

theorem attend_not_fresh {lapse : Tick} {g : Guard}
    (h : (w.attend ticket lapse g c p).2 = .pending q) :
    (w.before g : Option (g.Outcome c.Answer)) = none ∧ q ≠ .fresh := by
  unfold attend at h
  cases hb : (w.before g : Option (g.Outcome c.Answer)) with
  | some o => simp [hb] at h
  | none =>
    refine ⟨rfl, ?_⟩
    simp only [hb] at h
    cases hw : w.work ticket c p with
    | mk v progress =>
      rw [hw] at h
      cases progress with
      | answered a => simp at h
      | crashed => simp at h
      | pending q' =>
        simp only at h
        split at h
        · simp at h
        · cases h
          exact work_not_fresh hw

/-- How a call may come to its end in a look: its guard cuts it off, or it is answered, or its
limit has run out. -/
def Over (w : World) (lapse : Tick) (g : Guard) (c : Call) (o : g.Outcome c.Answer) : Prop :=
  w.before g = some o ∨ (∃ a, o = g.answered a) ∨ w.after lapse g = some o

end World

/-- What a call may have been before it ended: asked, or cut off before that. -/
def Call.Asked (c : Call) (g : Guard) (w : World) (o : g.Outcome c.Answer) (cs : List Call) :
    Prop :=
  cs = c.noted ∨ cs = [] ∧ w.before g = some o

variable {α : Type}

/-- The dealings of a flow that comes to its end, and what it yields. `R` holds of the guard of each
call, the moment at which the guard's own limit runs out, and the world in which the call ends. -/
inductive Flow.Tells (R : Guard → Tick → World → Prop) : Flow α → List Dealing → α → Prop where
  | done (a : α) : Tells R (.done a) [] a
  | now {k : Clock → Flow α} {t : List Dealing} {a : α} (clock : Clock)
      (h : (k clock).Tells R t a) : Tells R (.now k) t a
  | mint {k : String → Flow α} {t : List Dealing} {a : α} (id : String)
      (h : (k id).Tells R t a) : Tells R (.mint k) t a
  | request {root : Context} {timeout : Span} {k : Context → Flow α} {t : List Dealing} {a : α}
      (ctx : Context) (h : (k ctx).Tells R t a) : Tells R (.request root timeout k) t a
  | call {g : Guard} {c : Call} {held : Option Held} {k : g.Outcome c.Answer → Flow α}
      {t : List Dealing} {a : α} {v w : World} {o : g.Outcome c.Answer} {cs : List Call}
      (ho : w.Over (v.lapse g) g c o) (hr : R g (v.lapse g) w) (hc : c.Asked g w o cs)
      (h : (k o).Tells R t a) :
      Tells R (.call g c held k) (.begun v c :: (cs.map .asked ++ .ended w g c o :: t)) a

namespace Activity

def Tells (R : Guard → Tick → World → Prop) : Activity α → List Dealing → α → Prop
  | .fresh f, t, r => f.Tells R t r
  | .waiting _ lapse g c _ k p, t, r =>
    ∃ cs w o t', t = cs.map .asked ++ .ended w g c o :: t' ∧ w.Over lapse g c o ∧ R g lapse w ∧
      (p = .fresh ∧ c.Asked g w o cs ∨ p ≠ .fresh ∧ cs = []) ∧ (k o).Tells R t' r
  | .done a, t, r => t = [] ∧ r = a
  | .crashed, _, _ => False

def Bound (R : Guard → Tick → World → Prop) (w : World) : Activity α → Prop
  | .waiting _ lapse g _ _ _ _ => R g lapse w
  | .fresh _ | .done _ | .crashed => True

theorem asks_of_journal {act : Activity α} {w : World} {cs : List Call}
    (h : (act.look w).1.journal = cs ++ w.journal) : act.asks w = cs := by
  simp [asks, h]

theorem asks_fresh (f : Flow α) (w : World) : (Activity.fresh f).asks w = [] :=
  asks_of_journal (congrArg Prod.snd (look_fresh f w).2.2.2.2.1)

variable {R : Guard → Tick → World → Prop} {w : World} {t : List Dealing} {r : α}

theorem tells_look_fresh {f : Flow α} (h : ((Activity.fresh f).look w).2.Tells R t r) :
    (Activity.fresh f).Tells R ((Activity.fresh f).dealings w ++ t) r := by
  rw [dealings, asks_fresh]
  cases f with
  | done a =>
    obtain ⟨rfl, rfl⟩ := h
    exact .done _
  | crash => exact h.elim
  | now k => exact .now _ h
  | mint k => exact .mint _ h
  | request root timeout k =>
    simp only [look] at h
    split at h
    · exact h.elim
    · exact .request _ h
  | call g c held k =>
    obtain ⟨cs, v, o, t', rfl, ho, hr, hc, ht⟩ := h
    have hasked : c.Asked g v o cs := by simpa using hc
    exact .call ho hr hasked ht

section

variable {ticket : Nat} {lapse : Tick} {g : Guard} {c : Call} {held : Option Held}
  {k : g.Outcome c.Answer → Flow α} {p : Phase c}

theorem look_waiting_journal :
    ((Activity.waiting ticket lapse g c held k p).look w).1.journal =
      (w.attend ticket lapse g c p).1.journal := by
  rw [look]
  generalize w.attend ticket lapse g c p = r
  obtain ⟨v, turn⟩ := r
  cases turn <;> rfl

theorem asks_cut {o : g.Outcome c.Answer} (h : w.before g = some o) :
    (Activity.waiting ticket lapse g c held k p).asks w = [] :=
  asks_of_journal (look_waiting_journal.trans (World.journal_attend_cut h))

theorem asks_first (hb : (w.before g : Option (g.Outcome c.Answer)) = none) :
    (Activity.waiting ticket lapse g c held k .fresh).asks w = c.noted :=
  asks_of_journal <| look_waiting_journal.trans <|
    (World.journal_attend_work hb).trans (World.journal_work_fresh w ticket c)

theorem asks_later (hp : p ≠ .fresh) :
    (Activity.waiting ticket lapse g c held k p).asks w = [] := by
  cases hb : (w.before g : Option (g.Outcome c.Answer)) with
  | some o => exact asks_cut hb
  | none =>
    exact asks_of_journal <| look_waiting_journal.trans <|
      (World.journal_attend_work hb).trans (World.journal_work_later w ticket hp)

theorem tells_look_waiting {P : Answers}
    (hat : (Activity.waiting ticket lapse g c held k p).Attended P w) (hr : R g lapse w)
    (h : ((Activity.waiting ticket lapse g c held k p).look w).2.Tells R t r) :
    (Activity.waiting ticket lapse g c held k p).Tells R
      ((Activity.waiting ticket lapse g c held k p).dealings w ++ t) r := by
  have hfresh : p = .fresh ∨ p ≠ .fresh := Classical.em _
  rw [dealings, ends]
  simp only [look] at h
  simp only [Attended] at hat
  cases hturn : w.attend ticket lapse g c p with
  | mk v turn =>
    rw [hturn] at h hat
    cases turn with
    | crashed => exact h.elim
    | concluded o =>
      have hover : w.Over lapse g c o := by
        generalize w.served ticket g c p = served at hat
        cases hat with
        | served _ => exact .inr (.inl ⟨_, rfl⟩)
        | madeUp _ _ _ => exact .inr (.inl ⟨_, rfl⟩)
        | cutOff ho _ => exact ho.imp id .inr
      refine ⟨(Activity.waiting ticket lapse g c held k p).asks w, w, o, t, by simp [begins],
        hover, hr, ?_, h⟩
      rcases hfresh with rfl | hp
      · refine .inl ⟨rfl, ?_⟩
        cases hb : (w.before g : Option (g.Outcome c.Answer)) with
        | none => exact .inl (asks_first hb)
        | some o' =>
          have ho : o' = o := by
            simpa [World.attend, hb] using congrArg Prod.snd hturn
          exact .inr ⟨asks_cut hb, ho ▸ hb⟩
      · exact .inr ⟨hp, asks_later hp⟩
    | pending q =>
      obtain ⟨hb, hq⟩ := World.attend_not_fresh (q := q) (congrArg Prod.snd hturn)
      obtain ⟨cs, v', o, t', rfl, ho, hr', hc, ht⟩ := h
      obtain rfl : cs = [] := by simpa [hq] using hc
      refine ⟨(Activity.waiting ticket lapse g c held k p).asks w, v', o, t', by simp [begins],
        ho, hr', ?_, ht⟩
      rcases hfresh with rfl | hp
      · exact .inl ⟨rfl, .inl (asks_first hb)⟩
      · exact .inr ⟨hp, asks_later hp⟩

end

theorem tells_look {P : Answers} {act : Activity α} (hat : act.Attended P w)
    (hr : act.Bound R w) (h : (act.look w).2.Tells R t r) :
    act.Tells R (act.dealings w ++ t) r := by
  cases act with
  | fresh f => exact tells_look_fresh h
  | waiting ticket lapse g c held k p => exact tells_look_waiting hat hr h
  | done a =>
    obtain ⟨rfl, rfl⟩ := h
    exact ⟨by simp [dealings, begins, ends, asks, look], rfl⟩
  | crashed => exact h.elim

end Activity

namespace Crowd

variable {T : Trade}

def dealt (s : Crowd T) (i : Nat) (m : Move T) : List Dealing :=
  match m, s.parties[i]? with
  | .look j, some p => if j = i then p.activity.dealings s.world else []
  | _, _ => []

/-- What a party deals with in one move after the other. -/
def dealings (s : Crowd T) (i : Nat) : List (Move T) → List Dealing
  | [] => []
  | m :: moves => s.dealt i m ++ (s.act m).dealings i moves

variable {s : Crowd T} {i : Nat} {m : Move T} {moves : List (Move T)}

theorem dealt_of_look {p : Party T} (hi : s.parties[i]? = some p) :
    s.dealt i (.look i) = p.activity.dealings s.world := by
  simp [dealt, hi]

theorem dealt_of_ne (hm : m ≠ .look i) : s.dealt i m = [] := by
  unfold dealt
  split
  · simp_all
  · rfl

theorem dealt_of_none (hi : s.parties[i]? = none) : s.dealt i m = [] := by
  unfold dealt
  split <;> simp_all

def anything : Answers := fun _ _ => True

theorem within_anything (fs : Faults) : fs.Within anything := fun _ _ _ _ _ => trivial

theorem Orderly.act_anything (ho : s.Orderly anything) (m : Move T) : (s.act m).Orderly anything :=
  ho.act (fun _ => trivial) m fun fs _ => within_anything fs

theorem role_play {p q : Party T} (hi : s.parties[i]? = some p)
    (hq : (s.play moves).parties[i]? = some q) : q.role = p.role := by
  induction moves generalizing s p with
  | nil =>
    obtain rfl := Option.some.inj (hi.symm.trans hq)
    rfl
  | cons m moves ih =>
    rcases party_act hi m with h | ⟨-, h⟩ | ⟨-, -, h⟩
    · exact ih h hq
    · exact ih (p := ⟨p.role, (p.activity.look s.world).2⟩) h hq
    · exact ih (p := ⟨p.role, .crashed⟩) h hq

def Keeps (R : Guard → Tick → World → Prop) (s : Crowd T) (i : Nat) (moves : List (Move T)) :
    Prop :=
  ∀ before later, moves = before ++ later → ∀ p, (s.play before).parties[i]? = some p →
    p.activity.Bound R (s.play before).world

theorem keeps_always : s.Keeps (fun _ _ _ => True) i moves := by
  rintro before later - ⟨e, act⟩ -
  cases act <;> exact trivial

theorem Keeps.tail {R : Guard → Tick → World → Prop} (h : s.Keeps R i (m :: moves)) :
    (s.act m).Keeps R i moves :=
  fun before later he => h (m :: before) later (by rw [he]; rfl)

theorem tells_play {R : Guard → Tick → World → Prop} {e : T.Role} {act : Activity e.Yield}
    {r : e.Yield} (ho : s.Orderly anything) (hr : s.Keeps R i moves)
    (hi : s.parties[i]? = some ⟨e, act⟩) (hd : (s.play moves).parties[i]? = some ⟨e, .done r⟩) :
    act.Tells R (s.dealings i moves) r := by
  induction moves generalizing s act with
  | nil =>
    obtain ⟨⟩ := Option.some.inj (hi.symm.trans hd)
    exact ⟨rfl, rfl⟩
  | cons m moves ih =>
    rw [dealings]
    by_cases hm : m = .look i
    · subst hm
      have hnext : (s.act (.look i)).parties[i]? = some ⟨e, (act.look s.world).2⟩ := by
        rw [act_look hi]
        simp [note, become, (List.getElem?_eq_some_iff.1 hi).1]
      rw [dealt_of_look hi]
      exact Activity.tells_look (ho.attended (fun _ => trivial) hi) (hr [] _ rfl _ hi)
        (ih (ho.act_anything _) hr.tail hnext hd)
    · rw [dealt_of_ne hm]
      rcases party_act hi m with h | ⟨h, -⟩ | ⟨-, -, h⟩
      · exact ih (ho.act_anything m) hr.tail h hd
      · exact absurd h hm
      · exact (ih (ho.act_anything m) hr.tail h hd).elim

theorem party_new {p : Party T} (hi : s.parties[i]? = none) (hp : (s.act m).parties[i]? = some p) :
    p.activity = .fresh p.role.flow := by
  have hlen : s.parties.length ≤ i := List.getElem?_eq_none_iff.1 hi
  rcases role?_act s m i with h | ⟨-, ⟨j, rfl, -⟩ | ⟨h, -, rfl, -⟩⟩
  · simp [role?, hi, hp] at h
  · rw [act, List.getElem?_append_right hlen] at hp
    obtain rfl := List.mem_singleton.1 (List.mem_of_getElem? hp)
    rfl
  · rw [act, List.getElem?_append_right hlen] at hp
    obtain ⟨k, -, rfl⟩ := List.mem_map.1 (List.mem_of_getElem? hp)
    rfl

/-- The dealings of a party that has come to its end are those of its flow, one call after the
other. -/
theorem tells_of_done {R : Guard → Tick → World → Prop} {j : T.Job} {r : T.Yield j}
    (ho : s.Orderly anything) (hr : s.Keeps R i moves) (hi : s.parties[i]? = none)
    (hd : (s.play moves).parties[i]? = some ⟨.job j, .done r⟩) :
    (T.flow j).Tells R (s.dealings i moves) r := by
  induction moves generalizing s with
  | nil => simp [play, hi] at hd
  | cons m moves ih =>
    rw [dealings, dealt_of_none hi]
    cases hnext : (s.act m).parties[i]? with
    | none => exact ih (ho.act_anything m) hr.tail hnext hd
    | some p =>
      obtain ⟨e, act⟩ := p
      obtain rfl : Trade.Role.job j = e := role_play hnext hd
      have hact : act = .fresh (T.flow j) := party_new hi hnext
      subst hact
      exact tells_play (ho.act_anything m) hr.tail hnext hd

end Crowd

end Registrar
