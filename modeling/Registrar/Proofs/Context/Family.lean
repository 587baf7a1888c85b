import Registrar.Context
set_option autoImplicit false

namespace Registrar

/-- All contexts, in the order of their making. -/
structure Family where
  signals : Signals
  contexts : List Context

/-- The limit of a context of its own is the time of its making plus its timeout. -/
structure Birth where
  parent : Option Nat
  due : Option Tick
  deriving DecidableEq, Repr

namespace Family

/-- What can be done with contexts, which go by the order of their making. -/
inductive Step where
  | background
  | withTimeout (timeout : Span)
  | child (parent : Nat) (timeout : Span)
  | cancel (i : Nat)
  deriving DecidableEq, Repr

/-- There is no newcomer if the clock could not hold the deadline. -/
def join (f : Family) : Option (Context × Signals) → Family
  | some (c, signals) => ⟨signals, f.contexts ++ [c]⟩
  | none => f

def act (f : Family) (now : Tick) : Step → Family
  | .background => f.join (some (Context.background f.signals))
  | .withTimeout timeout => f.join (Context.withTimeout f.signals now timeout)
  | .child i timeout => f.join (f.contexts[i]? >>= fun c => c.child f.signals now timeout)
  | .cancel i =>
    match f.contexts[i]? with
    | some c => { f with signals := c.cancel f.signals }
    | none => f

/-- The family after these steps, each with its time, the last first. -/
def after : List (Tick × Step) → Family
  | [] => ⟨.none, []⟩
  | (now, step) :: past => (after past).act now step

/-- The record of births, the first first. -/
def births : List (Tick × Step) → List Birth
  | [] => []
  | (_, .background) :: past => births past ++ [⟨none, none⟩]
  | (now, .withTimeout timeout) :: past =>
    births past ++ (now.after? timeout).toList.map fun due => ⟨none, some due⟩
  | (now, .child i timeout) :: past =>
    births past ++
      if i < (births past).length then (now.after? timeout).toList.map fun due => ⟨some i, some due⟩
      else []
  | (_, .cancel _) :: past => births past

/-- Those that were cancelled themselves. -/
def cancelled : List (Tick × Step) → List Nat
  | [] => []
  | (_, .cancel i) :: past =>
    if i < (births past).length then i :: cancelled past else cancelled past
  | _ :: past => cancelled past

/-- The line of descent: a context itself, the one it was made under, and so on. -/
inductive Descends (bs : List Birth) : Nat → Nat → Prop where
  | self {i : Nat} : Descends bs i i
  | up {i p j : Nat} {due : Option Tick} (hi : bs[i]? = some ⟨some p, due⟩) (h : Descends bs p j) :
      Descends bs i j

def due? (bs : List Birth) (i : Nat) : Option Tick := bs[i]? >>= (·.due)

def parent? (bs : List Birth) (i : Nat) : Option Nat := bs[i]? >>= (·.parent)

/-- How a context stands to the record of its birth and to its parent. -/
inductive Bred (cs : List Context) (bs : List Birth) (i : Nat) : Context → Prop where
  | root {due : Option Tick} (hi : bs[i]? = some ⟨none, due⟩) : Bred cs bs i ⟨[i], due⟩
  | child {p : Nat} {parent : Context} {due : Tick} (hi : bs[i]? = some ⟨some p, some due⟩)
      (hlt : p < i) (hp : cs[p]? = some parent) :
      Bred cs bs i ⟨i :: parent.lineage, some (Context.sooner parent.deadline due)⟩

structure Recorded (f : Family) (bs : List Birth) (cancels : List Nat) : Prop where
  made : f.signals.made = bs.length
  length : f.contexts.length = bs.length
  bred : ∀ (i : Nat) (c : Context), f.contexts[i]? = some c → Bred f.contexts bs i c
  fired : f.signals.fired = cancels

theorem Bred.grow {cs : List Context} {bs : List Birth} {i : Nat} {c : Context}
    (h : Bred cs bs i c) (more : List Context) (later : List Birth) :
    Bred (cs ++ more) (bs ++ later) i c := by
  have hkept : ∀ b, bs[i]? = some b → (bs ++ later)[i]? = some b := fun b hb => by
    rw [List.getElem?_append_left (List.getElem?_eq_some_iff.1 hb).1, hb]
  cases h with
  | root hi => exact .root (hkept _ hi)
  | child hi hlt hp =>
    refine .child (hkept _ hi) hlt ?_
    rw [List.getElem?_append_left (List.getElem?_eq_some_iff.1 hp).1, hp]

theorem Bred.own {cs : List Context} {bs : List Birth} {i : Nat} {c : Context}
    (h : Bred cs bs i c) : c.lineage.take 1 = [i] := by cases h <;> rfl

namespace Recorded

variable {f : Family} {bs : List Birth} {cancels : List Nat}

theorem join (h : f.Recorded bs cancels) {c : Context} {signals : Signals} {b : Birth}
    (hmade : signals.made = f.signals.made + 1) (hfired : signals.fired = f.signals.fired)
    (hb : Bred (f.contexts ++ [c]) (bs ++ [b]) bs.length c) :
    (Family.mk signals (f.contexts ++ [c])).Recorded (bs ++ [b]) cancels where
  made := by simp [hmade, h.made]
  length := by simp [h.length]
  fired := hfired.trans h.fired
  bred i d hd := by
    by_cases hlt : i < f.contexts.length
    · rw [List.getElem?_append_left hlt] at hd
      exact (h.bred i d hd).grow _ _
    · obtain ⟨hlen, hget⟩ := List.getElem?_eq_some_iff.1 hd
      have hi : i = f.contexts.length := by
        simp only [List.length_append, List.length_singleton] at hlen
        omega
      subst hi
      simp only [List.getElem?_concat_length, Option.some.injEq] at hd
      exact hd ▸ h.length ▸ hb

end Recorded

theorem recorded_after (history : List (Tick × Step)) :
    (after history).Recorded (births history) (cancelled history) := by
  induction history with
  | nil => exact ⟨rfl, rfl, fun i c hc => (by cases hc), rfl⟩
  | cons entry past ih =>
    obtain ⟨now, step⟩ := entry
    have hlast : ∀ b : Birth, (births past ++ [b])[(births past).length]? = some b := fun b =>
      List.getElem?_concat_length
    cases step with
    | background =>
      refine ih.join rfl rfl ?_
      rw [← ih.made]
      exact .root (ih.made ▸ hlast _)
    | withTimeout timeout =>
      simp only [after, births, act, Context.withTimeout]
      cases now.after? timeout with
      | none => simpa [join, cancelled] using ih
      | some due =>
        refine ih.join rfl rfl ?_
        rw [← ih.made]
        exact .root (ih.made ▸ hlast _)
    | child i timeout =>
      simp only [after, births, act]
      by_cases hi : i < (births past).length
      · have hlt : i < (after past).contexts.length := ih.length ▸ hi
        rw [List.getElem?_eq_getElem hlt, if_pos hi]
        simp only [Context.child, Option.bind_eq_bind, Option.bind_some]
        cases now.after? timeout with
        | none => simpa [join, cancelled] using ih
        | some due =>
          refine ih.join rfl rfl ?_
          rw [← ih.made]
          refine .child (ih.made ▸ hlast _) (ih.made ▸ hi) ?_
          rw [List.getElem?_append_left hlt, List.getElem?_eq_getElem hlt]
      · have hnone : (after past).contexts[i]? = none :=
          List.getElem?_eq_none (Nat.not_lt.1 (ih.length ▸ hi))
        simpa [hnone, hi, join, cancelled] using ih
    | cancel i =>
      simp only [after, births, act, cancelled]
      by_cases hi : i < (births past).length
      · have hlt : i < (after past).contexts.length := ih.length ▸ hi
        rw [List.getElem?_eq_getElem hlt, if_pos hi]
        have hown := (ih.bred i _ (List.getElem?_eq_getElem hlt)).own
        exact ⟨ih.made, ih.length, ih.bred, by simp [Context.cancel, hown, ih.fired]⟩
      · have hnone : (after past).contexts[i]? = none :=
          List.getElem?_eq_none (Nat.not_lt.1 (ih.length ▸ hi))
        simpa [hnone, hi] using ih

/-- The earliest of the limits on a line of descent, if there is any. -/
structure Earliest (bs : List Birth) (i : Nat) (limit : Option Tick) : Prop where
  le : ∀ j d, Descends bs i j → due? bs j = some d → ∃ t, limit = some t ∧ t ≤ d
  attained : ∀ t, limit = some t → ∃ j, Descends bs i j ∧ due? bs j = some t

theorem descends_root {bs : List Birth} {i j : Nat} {due : Option Tick}
    (hi : bs[i]? = some ⟨none, due⟩) : Descends bs i j ↔ j = i := by
  constructor
  · intro h
    cases h with
    | self => rfl
    | up hi' h => rw [hi] at hi'; cases hi'
  · rintro rfl
    exact .self

theorem descends_child {bs : List Birth} {i p j : Nat} {due : Option Tick}
    (hi : bs[i]? = some ⟨some p, due⟩) : Descends bs i j ↔ j = i ∨ Descends bs p j := by
  constructor
  · intro h
    cases h with
    | self => exact .inl rfl
    | up hi' h =>
      rw [hi] at hi'
      cases hi'
      exact .inr h
  · rintro (rfl | h)
    · exact .self
    · exact .up hi h

theorem Earliest.root {bs : List Birth} {i : Nat} {due : Option Tick}
    (hi : bs[i]? = some ⟨none, due⟩) : Earliest bs i due where
  le j d hj hd := by
    obtain rfl := (descends_root hi).1 hj
    exact ⟨d, by simpa [due?, hi] using hd, Nat.le_refl d⟩
  attained t ht := ⟨i, .self, by simpa [due?, hi] using ht⟩

theorem Earliest.child {bs : List Birth} {i p : Nat} {inherited : Option Tick} {due : Tick}
    (hi : bs[i]? = some ⟨some p, some due⟩) (h : Earliest bs p inherited) :
    Earliest bs i (some (Context.sooner inherited due)) where
  le j d hj hd := by
    refine ⟨_, rfl, ?_⟩
    rcases (descends_child hi).1 hj with rfl | hj
    · obtain rfl : due = d := by simpa [due?, hi] using hd
      unfold Context.sooner
      split
      · split
        · exact Nat.le_of_lt ‹_›
        · exact Nat.le_refl _
      · exact Nat.le_refl _
    · obtain ⟨t, rfl, ht⟩ := h.le j d hj hd
      simp only [Context.sooner]
      split
      · exact ht
      · exact Nat.le_trans (Nat.not_lt.1 ‹_›) ht
  attained t ht := by
    cases ht
    have hown : ∃ j, Descends bs i j ∧ due? bs j = some due := ⟨i, .self, by simp [due?, hi]⟩
    unfold Context.sooner
    split
    · split
      · obtain ⟨j, hj, hd⟩ := h.attained _ rfl
        exact ⟨j, .up hi hj, hd⟩
      · exact hown
    · exact hown

namespace Recorded

variable {f : Family} {bs : List Birth} {cancels : List Nat} {i j : Nat} {c : Context}

theorem earliest (h : f.Recorded bs cancels) (hc : f.contexts[i]? = some c) :
    Earliest bs i c.deadline := by
  induction i using Nat.strongRecOn generalizing c with
  | ind i ih =>
    cases h.bred i c hc with
    | root hi => exact .root hi
    | child hi hlt hp => exact .child hi (ih _ hlt hp)

theorem mem_lineage (h : f.Recorded bs cancels) (hc : f.contexts[i]? = some c) :
    j ∈ c.lineage ↔ Descends bs i j := by
  induction i using Nat.strongRecOn generalizing c with
  | ind i ih =>
    cases h.bred i c hc with
    | root hi => rw [List.mem_singleton, descends_root hi]
    | child hi hlt hp => rw [List.mem_cons, descends_child hi, ih _ hlt hp]

theorem isCancelled (h : f.Recorded bs cancels) (hc : f.contexts[i]? = some c) :
    c.isCancelled f.signals = true ↔ ∃ j, Descends bs i j ∧ j ∈ cancels := by
  simp only [Context.isCancelled, List.any_eq_true, List.contains_iff_mem, h.mem_lineage hc,
    h.fired]

theorem exists_context (h : f.Recorded bs cancels) {b : Birth} (hb : bs[i]? = some b) :
    ∃ c, f.contexts[i]? = some c :=
  ⟨_, List.getElem?_eq_getElem (h.length ▸ (List.getElem?_eq_some_iff.1 hb).1)⟩

theorem le_of_descends (h : f.Recorded bs cancels) (hd : Descends bs i j) : j ≤ i := by
  induction hd with
  | self => exact Nat.le_refl _
  | up hi hd ih =>
    obtain ⟨c, hc⟩ := h.exists_context hi
    cases h.bred _ c hc with
    | root hi' => rw [hi] at hi'; cases hi'
    | child hi' hlt hp =>
      rw [hi] at hi'
      cases hi'
      exact Nat.le_trans ih (Nat.le_of_lt hlt)

theorem not_descends_child (h : f.Recorded bs cancels) {c : Nat} (hc : parent? bs c = some i) :
    ¬ Descends bs i c := by
  intro hd
  obtain ⟨b, hb, hp⟩ := Option.bind_eq_some_iff.1 hc
  obtain ⟨x, hx⟩ := h.exists_context hb
  have hle := h.le_of_descends hd
  cases h.bred _ x hx with
  | root hi => rw [hb] at hi; cases hi; cases hp
  | child hi hlt _ =>
    rw [hb] at hi
    cases hi
    cases hp
    omega

theorem not_descends_sibling (h : f.Recorded bs cancels) {b d : Birth} (hne : j ≠ i)
    (hi : bs[i]? = some b) (hj : bs[j]? = some d) (hp : d.parent = b.parent) :
    ¬ Descends bs j i := by
  intro hd
  cases hd with
  | self => exact hne rfl
  | @up _ p _ due hj' hd =>
    rw [hj] at hj'
    cases hj'
    refine h.not_descends_child (i := p) (c := i) ?_ hd
    simp [parent?, hi, ← hp]

theorem exists_birth (h : f.Recorded bs cancels) (hc : f.contexts[i]? = some c) :
    ∃ b, bs[i]? = some b :=
  ⟨_, List.getElem?_eq_getElem (h.length ▸ (List.getElem?_eq_some_iff.1 hc).1)⟩

theorem isCancelled_cancel (h : f.Recorded bs cancels) (hc : f.contexts[i]? = some c)
    {q : Context} (hq : f.contexts[j]? = some q) (hd : ¬ Descends bs j i) :
    q.isCancelled (c.cancel f.signals) = q.isCancelled f.signals := by
  have hdeaf : i ∉ q.lineage := fun hi => hd ((h.mem_lineage hq).1 hi)
  have hheard : ∀ n ∈ q.lineage,
      (c.cancel f.signals).fired.contains n = f.signals.fired.contains n := by
    intro n hn
    have hne : n ≠ i := fun he => hdeaf (he ▸ hn)
    simp [Context.cancel, (h.bred i c hc).own, hne]
  rw [Context.isCancelled, Context.isCancelled, Bool.eq_iff_iff, List.any_eq_true, List.any_eq_true]
  exact ⟨fun ⟨n, hn, hf⟩ => ⟨n, hn, hheard n hn ▸ hf⟩,
    fun ⟨n, hn, hf⟩ => ⟨n, hn, (hheard n hn).symm ▸ hf⟩⟩

end Recorded

theorem Descends.trans {bs : List Birth} {i j k : Nat} (h : Descends bs i j)
    (hj : Descends bs j k) : Descends bs i k := by
  induction h with
  | self => exact hj
  | up hi _ ih => exact .up hi (ih hj)

/-- What a context owes to its line of descent, and what its cancellation does to its next of kin. -/
structure Lineal (history : List (Tick × Step)) (i : Nat) (c : Context) : Prop where
  earliest : Earliest (births history) i c.deadline
  no_later : ∀ j p, Descends (births history) i j → (after history).contexts[j]? = some p →
    ∀ t, p.deadline = some t → ∃ u, c.deadline = some u ∧ u ≤ t
  cancelled : c.isCancelled (after history).signals = true ↔
    ∃ j, Descends (births history) i j ∧ j ∈ cancelled history
  /-- Neither its parent nor a sibling hears of it. -/
  apart : ∀ j q, (after history).contexts[j]? = some q →
    parent? (births history) i = some j ∨
      j ≠ i ∧ parent? (births history) j = parent? (births history) i →
    q.isCancelled (c.cancel (after history).signals) = q.isCancelled (after history).signals

theorem lineal (history : List (Tick × Step)) {i : Nat} {c : Context}
    (hc : (after history).contexts[i]? = some c) : Lineal history i c := by
  have h := recorded_after history
  refine ⟨h.earliest hc, fun j p hj hp t ht => ?_, h.isCancelled hc, fun j q hq hkin => ?_⟩
  · obtain ⟨k, hk, hd⟩ := (h.earliest hp).attained t ht
    exact (h.earliest hc).le k t (hj.trans hk) hd
  · refine h.isCancelled_cancel hc hq ?_
    rcases hkin with hparent | ⟨hne, hsame⟩
    · exact h.not_descends_child hparent
    · obtain ⟨b, hb⟩ := h.exists_birth hc
      obtain ⟨d, hd⟩ := h.exists_birth hq
      refine h.not_descends_sibling hne hb hd ?_
      simpa [parent?, hb, hd] using hsame

end Family

end Registrar
