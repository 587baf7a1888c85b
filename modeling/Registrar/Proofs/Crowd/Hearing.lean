import Registrar.Proofs.Crowd.Dealing
set_option autoImplicit false

namespace Registrar

/-- A flow reads the clock. A call is watched with the world as a look at it finds it, and ends with
what its flow goes on with. -/
inductive Hearing where
  | read (clock : Clock)
  | watched (w : World) (g : Guard) (c : Call)
  | ended (g : Guard) (c : Call) (o : g.Outcome c.Answer)

variable {α β : Type}

namespace Activity

/-- What becomes of an activity by looks in these worlds. -/
def after (act : Activity α) : List World → Activity α
  | [] => act
  | w :: ws => (act.look w).2.after ws

def hears : Activity α → World → List Hearing
  | .fresh (.now _), w => [.read w.clock]
  | .waiting ticket lapse g c _ _ p, w =>
    match (w.attend ticket lapse g c p).2 with
    | .concluded o => [.watched w g c, .ended g c o]
    | .pending _ | .crashed => [.watched w g c]
  | _, _ => []

def hearings (act : Activity α) : List World → List Hearing
  | [] => []
  | w :: ws => act.hears w ++ (act.look w).2.hearings ws

end Activity

/-- With what a look at a call that is under way can end it. -/
def World.Ends (w : World) (g : Guard) (c : Call) (o : g.Outcome c.Answer) : Prop :=
  w.before g = some o ∨ (w.before g : Option (g.Outcome c.Answer)) = none ∧
    ((∃ a, o = g.answered a) ∨ ∃ (v : World) (lapse : Tick), v.after lapse g = some o)

/-- What a flow hears on its way to its end, and what it yields. As long as a call is under way its
guard does not cut it off. -/
inductive Flow.Hears : Flow α → List Hearing → α → Prop where
  | done (a : α) : Hears (.done a) [] a
  | now {k : Clock → Flow α} {t : List Hearing} {a : α} (clock : Clock) (h : (k clock).Hears t a) :
      Hears (.now k) (.read clock :: t) a
  | mint {k : String → Flow α} {t : List Hearing} {a : α} (id : String) (h : (k id).Hears t a) :
      Hears (.mint k) t a
  | request {root : Context} {timeout : Span} {k : Context → Flow α} {t : List Hearing} {a : α}
      (ctx : Context) (h : (k ctx).Hears t a) : Hears (.request root timeout k) t a
  | call {g : Guard} {c : Call} {held : Option Held} {k : g.Outcome c.Answer → Flow α}
      {t : List Hearing} {a : α} {ws : List World} {w : World} {o : g.Outcome c.Answer}
      (hws : ∀ v ∈ ws, (v.before g : Option (g.Outcome c.Answer)) = none) (ho : w.Ends g c o)
      (h : (k o).Hears t a) :
      Hears (.call g c held k) (ws.map (.watched · g c) ++ .watched w g c :: .ended g c o :: t) a

theorem Flow.hears_bind {f : Flow α} {k : α → Flow β} {t : List Hearing} {b : β}
    (h : (f.bind k).Hears t b) : ∃ t₁ a t₂, t = t₁ ++ t₂ ∧ f.Hears t₁ a ∧ (k a).Hears t₂ b := by
  induction f generalizing t with
  | done a => exact ⟨[], a, t, rfl, .done a, h⟩
  | crash => cases h
  | now l ih =>
    cases h with
    | now clock h =>
      obtain ⟨t₁, a, t₂, rfl, hf, hk⟩ := ih clock h
      exact ⟨.read clock :: t₁, a, t₂, rfl, .now clock hf, hk⟩
  | mint l ih =>
    cases h with
    | mint id h =>
      obtain ⟨t₁, a, t₂, rfl, hf, hk⟩ := ih id h
      exact ⟨t₁, a, t₂, rfl, .mint id hf, hk⟩
  | request root timeout l ih =>
    cases h with
    | request ctx h =>
      obtain ⟨t₁, a, t₂, rfl, hf, hk⟩ := ih ctx h
      exact ⟨t₁, a, t₂, rfl, .request ctx hf, hk⟩
  | call g c held l ih =>
    cases h with
    | @call _ _ _ _ t a ws w o hws ho h =>
      obtain ⟨t₁, a, t₂, rfl, hf, hk⟩ := ih o h
      exact ⟨_, a, t₂, by simp, .call hws ho hf, hk⟩

namespace World

variable {w : World} {ticket : Nat} {lapse : Tick} {g : Guard} {c : Call} {p q : Phase c}

theorem ends_of_attend {o : g.Outcome c.Answer}
    (h : (w.attend ticket lapse g c p).2 = .concluded o) : w.Ends g c o := by
  unfold attend at h
  cases hb : (w.before g : Option (g.Outcome c.Answer)) with
  | some o' =>
    simp only [hb] at h
    cases h
    exact .inl hb
  | none =>
    refine .inr ⟨hb, ?_⟩
    simp only [hb] at h
    generalize w.work ticket c p = r at h
    obtain ⟨v, progress⟩ := r
    cases progress with
    | answered a =>
      cases h
      exact .inl ⟨a, rfl⟩
    | crashed => cases h
    | pending q =>
      simp only at h
      cases ha : (v.after lapse g : Option (g.Outcome c.Answer)) with
      | none =>
        simp only [ha] at h
        cases h
      | some o' =>
        simp only [ha] at h
        cases h
        exact .inr ⟨v, lapse, ha⟩

theorem before_of_attend (h : (w.attend ticket lapse g c p).2 = .pending q) :
    (w.before g : Option (g.Outcome c.Answer)) = none := by
  unfold attend at h
  cases hb : (w.before g : Option (g.Outcome c.Answer)) with
  | some o =>
    simp only [hb] at h
    cases h
  | none => rfl

end World

namespace Activity

def Hears : Activity α → List Hearing → α → Prop
  | .fresh f, t, r => f.Hears t r
  | .waiting _ _ g c _ k _, t, r =>
    ∃ (ws : List World) (w : World) (o : g.Outcome c.Answer) (t' : List Hearing),
      t = ws.map (.watched · g c) ++ .watched w g c :: .ended g c o :: t' ∧
      (∀ v ∈ ws, (v.before g : Option (g.Outcome c.Answer)) = none) ∧ w.Ends g c o ∧ (k o).Hears t' r
  | .done a, t, r => t = [] ∧ r = a
  | .crashed, _, _ => False

variable {act : Activity α} {w : World} {ws : List World} {t : List Hearing} {r : α}

theorem hears_look (h : (act.look w).2.Hears t r) : act.Hears (act.hears w ++ t) r := by
  cases act with
  | fresh f =>
    cases f with
    | done a =>
      obtain ⟨rfl, rfl⟩ := h
      exact .done _
    | crash => exact h.elim
    | now k => exact .now _ h
    | mint k => exact .mint _ h
    | request root timeout k =>
      simp only [look] at h
      split at h
      · exact h.elim
      · exact .request _ h
    | call g c held k =>
      obtain ⟨ws, v, o, t', rfl, hws, ho, ht⟩ := h
      exact .call hws ho ht
  | waiting ticket lapse g c held k p =>
    simp only [look] at h
    simp only [hears]
    cases hturn : w.attend ticket lapse g c p with
    | mk v turn =>
      rw [hturn] at h
      cases turn with
      | crashed => exact h.elim
      | concluded o =>
        exact ⟨[], w, o, t, rfl, fun v hv => (by cases hv),
          World.ends_of_attend (congrArg Prod.snd hturn), h⟩
      | pending q =>
        obtain ⟨ws, u, o, t', rfl, hws, ho, ht⟩ := h
        exact ⟨w :: ws, u, o, t', rfl, List.forall_mem_cons.2
          ⟨World.before_of_attend (congrArg Prod.snd hturn), hws⟩, ho, ht⟩
  | done a =>
    obtain ⟨rfl, rfl⟩ := h
    exact ⟨rfl, rfl⟩
  | crashed => exact h.elim

theorem hears_of_after (h : act.after ws = .done r) : act.Hears (act.hearings ws) r := by
  induction ws generalizing act with
  | nil =>
    obtain rfl : act = .done r := h
    exact ⟨rfl, rfl⟩
  | cons w ws ih => exact hears_look (ih h)

theorem after_crashed (ws : List World) : (crashed : Activity α).after ws = .crashed := by
  induction ws with
  | nil => rfl
  | cons w ws ih => exact ih

end Activity

namespace Crowd

variable {T : Trade} {s : Crowd T} {i : Nat} {m : Move T} {moves : List (Move T)}

def looked (s : Crowd T) (i : Nat) (m : Move T) : List World :=
  match m, s.parties[i]? with
  | .look j, some _ => if j = i then [s.world] else []
  | _, _ => []

/-- The worlds in which a party is looked at in one move after the other. -/
def looks (s : Crowd T) (i : Nat) : List (Move T) → List World
  | [] => []
  | m :: moves => s.looked i m ++ (s.act m).looks i moves

theorem looked_of_ne (hm : m ≠ .look i) : s.looked i m = [] := by
  unfold looked
  split
  · simp_all
  · rfl

theorem looked_of_none (hi : s.parties[i]? = none) : s.looked i m = [] := by
  unfold looked
  split <;> simp_all

theorem looked_self {p : Party T} (hi : s.parties[i]? = some p) :
    s.looked i (.look i) = [s.world] := by
  simp [looked, hi]

theorem party_look {p : Party T} (hi : s.parties[i]? = some p) :
    (s.act (.look i)).parties[i]? = some ⟨p.role, (p.activity.look s.world).2⟩ := by
  rw [act_look hi]
  simp [note, become, (List.getElem?_eq_some_iff.1 hi).1]

theorem after_looks {e : T.Role} {act : Activity e.Yield} {r : e.Yield}
    (hi : s.parties[i]? = some ⟨e, act⟩) (hd : (s.play moves).parties[i]? = some ⟨e, .done r⟩) :
    act.after (s.looks i moves) = .done r := by
  induction moves generalizing s act with
  | nil =>
    obtain ⟨⟩ := Option.some.inj (hi.symm.trans hd)
    rfl
  | cons m moves ih =>
    rw [looks]
    by_cases hm : m = .look i
    · subst hm
      rw [looked_self hi]
      exact ih (party_look hi) hd
    · rw [looked_of_ne hm]
      rcases party_act hi m with h | ⟨h, -⟩ | ⟨-, -, h⟩
      · exact ih h hd
      · exact absurd h hm
      · have hcrashed := ih h hd
        rw [Activity.after_crashed] at hcrashed
        cases hcrashed

theorem after_looks_of_done {j : T.Job} {r : T.Yield j} (hi : s.parties[i]? = none)
    (hd : (s.play moves).parties[i]? = some ⟨.job j, .done r⟩) :
    (Activity.fresh (T.flow j)).after (s.looks i moves) = .done r := by
  induction moves generalizing s with
  | nil =>
    rw [play, hi] at hd
    cases hd
  | cons m moves ih =>
    rw [looks, looked_of_none hi]
    cases hnext : (s.act m).parties[i]? with
    | none => exact ih hnext hd
    | some p =>
      obtain ⟨e, act⟩ := p
      obtain rfl : Trade.Role.job j = e := role_play hnext hd
      obtain rfl : act = .fresh (T.flow j) := party_new hi hnext
      exact after_looks hnext hd

end Crowd

end Registrar
