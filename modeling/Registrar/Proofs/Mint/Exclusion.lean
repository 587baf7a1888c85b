import Registrar.Proofs.Mint.Course
/-!
Critical sections. The section of a party is open from the grant of its lock until its token is
unlocked. Two open sections are never those of one lock, and an allocation starts its store calls,
and changes the store, inside its own section only.
-/
set_option autoImplicit false

namespace Registrar

def grants (log : List ServedCall) : List (Nat × LockToken) := log.filterMap ServedCall.grant?

/-- The open sections: granted, and not freed since. -/
def sections : List ServedCall → List (Nat × LockToken)
  | [] => []
  | d :: log => (d.grant?.toList ++ sections log).filter fun e => d.freed? ≠ some e.2

theorem mem_sections_cons {d : ServedCall} {log : List ServedCall} {e : Nat × LockToken} :
    e ∈ sections (d :: log) ↔ (d.grant? = some e ∨ e ∈ sections log) ∧ d.freed? ≠ some e.2 := by
  simp [sections, or_and_right]

theorem sections_subset_grants (log : List ServedCall) : sections log ⊆ grants log := by
  induction log with
  | nil => exact List.Subset.refl _
  | cons d log ih =>
    intro e he
    rw [grants, List.mem_filterMap]
    rcases (mem_sections_cons.1 he).1 with hd | hlog
    · exact ⟨d, List.mem_cons_self, hd⟩
    · obtain ⟨d', hd', he'⟩ := List.mem_filterMap.1 (ih hlog)
      exact ⟨d', List.mem_cons_of_mem _ hd', he'⟩

namespace Crowd

variable {P : Answers} {s : Crowd mint} {m : Move mint} {place place' : Nat → Place}

theorem mem_sections_act {e : Nat × LockToken} :
    e ∈ sections (s.act m).log ↔
      (∃ d ∈ s.did m, d.grant? = some e) ∨
        e ∈ sections s.log ∧ ∀ d ∈ s.did m, d.freed? ≠ some e.2 := by
  rw [act_log]
  cases s.did m with
  | none => simp
  | some d =>
    simp only [Option.toList_some, List.singleton_append, mem_sections_cons, Option.mem_some_iff,
      exists_eq_left', forall_eq']
    constructor
    · rintro ⟨h | h, hf⟩
      · exact .inl h
      · exact .inr ⟨h, hf⟩
    · rintro (h | ⟨h, hf⟩)
      · exact ⟨.inl h, by simp [ServedCall.freed?_of_grant h]⟩
      · exact ⟨.inr h, hf⟩

theorem mem_grants_act {T : Trade} {s : Crowd T} {m : Move T} {e : Nat × LockToken} :
    e ∈ grants (s.act m).log ↔ (∃ d ∈ s.did m, d.grant? = some e) ∨ e ∈ grants s.log := by
  rw [act_log]
  cases s.did m with
  | none => simp
  | some d => cases h : d.grant? <;> simp [grants, h, eq_comm]

def grantless : Answers := fun c a => c.granted? a = none

/-- Where sections exclude one another: no grants are made up, and nobody unlocks directly with a
token that was granted to an allocation. -/
def Honest (s : Crowd mint) : Move mint → Prop
  | .plan fs => fs.Within grantless
  | .unlock token => ∀ i, (i, token) ∈ grants s.log → s.allocator? i = none
  | _ => True

/-- What the sections come to: every open one holds its lock, no token was granted twice, and
whoever stands at a place with a token is in the section of that token. -/
structure Exclusive (s : Crowd mint) (place : Nat → Place) : Prop where
  held : ∀ e ∈ sections s.log, s.world.locks.Holds e.2
  numbered : ∀ e ∈ grants s.log, ∃ n, n < s.world.locks.issued ∧ e.2.holder = .issued n
  single : ∀ e ∈ grants s.log, ∀ f ∈ grants s.log, e.2 = f.2 → e = f
  named : ∀ e ∈ grants s.log, s.role? e.1 ≠ none ∧
    ∀ a, s.allocator? e.1 = some a → e.2.name = a.lockName
  inside : ∀ i a token, s.allocator? i = some a → (place i).token? = some token →
    (i, token) ∈ sections s.log
  left : ∀ h, s.Stray h → ∃ i a, s.allocator? i = some a ∧ (i, h.token) ∈ grants s.log ∧
    place i = .lost

namespace Exclusive

theorem exclude (hx : s.Exclusive place) {e f : Nat × LockToken} (he : e ∈ sections s.log)
    (hf : f ∈ sections s.log) (hn : e.2.name = f.2.name) : e = f := by
  have ht : e.2 = f.2 := (hx.held e he).unique (hx.held f hf) hn
  exact hx.single e (sections_subset_grants _ he) f (sections_subset_grants _ hf) ht

theorem held_act (hx : s.Exclusive place) (ho : s.Orderly grantless) :
    ∀ e ∈ sections (s.act m).log, (s.act m).world.locks.Holds e.2 := by
  intro e he
  rw [act_holds_iff ho (fun _ => rfl)]
  rcases mem_sections_act.1 he with ⟨d, hd, hg⟩ | ⟨hold, hf⟩
  · exact .inr ⟨d, hd, e.1, hg⟩
  · exact .inl ⟨hx.held e hold, hf⟩

theorem numbered_act (hx : s.Exclusive place) (ho : s.Orderly grantless) :
    ∀ e ∈ grants (s.act m).log,
      ∃ n, n < (s.act m).world.locks.issued ∧ e.2.holder = .issued n := by
  intro e he
  rcases mem_grants_act.1 he with ⟨d, hd, hg⟩ | hold
  · obtain ⟨-, hh, hi, -⟩ := act_granted ho (fun _ => rfl) hd hg
    exact ⟨s.world.locks.issued, by rw [hi]; exact Nat.lt_succ_self _, hh⟩
  · obtain ⟨n, hn, hh⟩ := hx.numbered e hold
    exact ⟨n, Nat.lt_of_lt_of_le hn (act_issued_le ho (fun _ => rfl) m), hh⟩

theorem granted_new (hx : s.Exclusive place) (ho : s.Orderly grantless) {d : ServedCall}
    (hd : s.did m = some d) {e f : Nat × LockToken} (hg : d.grant? = some e)
    (hf : f ∈ grants s.log) : e.2 ≠ f.2 := by
  intro he
  obtain ⟨-, hh, -⟩ := act_granted ho (fun _ => rfl) hd hg
  obtain ⟨n, hn, hh'⟩ := hx.numbered f hf
  rw [← he, hh, Holder.issued.injEq] at hh'
  omega

theorem single_act (hx : s.Exclusive place) (ho : s.Orderly grantless) :
    ∀ e ∈ grants (s.act m).log, ∀ f ∈ grants (s.act m).log, e.2 = f.2 → e = f := by
  intro e he f hf hef
  rcases mem_grants_act.1 he with ⟨d, hd, hg⟩ | hold <;>
    rcases mem_grants_act.1 hf with ⟨d', hd', hg'⟩ | hold'
  · have hdd : d = d' := Option.mem_unique hd hd'
    rw [← hdd, hg] at hg'
    exact Option.some.inj hg'
  · exact absurd hef (hx.granted_new ho hd hg hold')
  · exact absurd hef.symm (hx.granted_new ho hd' hg' hold)
  · exact hx.single e hold f hold' hef

theorem named_act (hx : s.Exclusive place) (ho : s.Orderly grantless)
    (hon : s.Onward grantless m place place') :
    ∀ e ∈ grants (s.act m).log, (s.act m).role? e.1 ≠ none ∧
      ∀ a, (s.act m).allocator? e.1 = some a → e.2.name = a.lockName := by
  intro e he
  have hold : s.role? e.1 ≠ none ∧ ∀ a, s.allocator? e.1 = some a → e.2.name = a.lockName := by
    rcases mem_grants_act.1 he with ⟨d, hd, hg⟩ | hold
    · obtain ⟨hm, -, -, ⟨direct, hc⟩, -⟩ :=
        act_granted ho (fun _ => rfl) hd hg
      refine ⟨?_, fun a ha => ?_⟩
      · obtain ⟨-, ⟨i, p, hi, hp, -⟩ | ⟨hw, -⟩⟩ := did_eq_some hd
        · rw [hm] at hi
          cases hi
          simp [role?, hp]
        · rw [(ServedCall.granted_of_grant hg).1] at hw
          cases hw
      · cases hm
        obtain ⟨orphans, hp, -⟩ := (hon.fared e.1 a ha).passage
        exact hp.lock_name hd hc
    · exact hx.named e hold
  have he' : (s.act m).role? e.1 = s.role? e.1 := by
    rcases role?_act s m e.1 with h | ⟨hn, -⟩
    · exact h
    · simp [role?, hn] at hold
  rw [allocator?, he']
  exact hold

theorem not_freed (hx : s.Exclusive place) (ho : s.Orderly grantless) (hc : s.Course place)
    (hm : s.Honest m) (hon : s.Onward grantless m place place') {i : Nat} {a : Allocator}
    {token : LockToken} (ha : s.allocator? i = some a) (ht : (place i).token? = some token)
    (hne : m ≠ .look i) : ∀ d ∈ s.did m, d.freed? ≠ some token := by
  intro d hd hf
  have hcall : d.call = .unlock token := by
    obtain ⟨who, c, answer, time⟩ := d
    cases c <;> cases hf
    rfl
  have hin := hx.inside i a token ha ht
  -- An unlock with this token by another allocation would put two into one section; by a release
  -- it would be that of an allocation that is lost; directly it is against the law.
  rcases (did_eq_some hd).2 with ⟨j, p, rfl, hj, -⟩ | ⟨-, ⟨c, -, hs⟩ | ⟨t, rfl, hu⟩⟩
  · cases hb : s.allocator? j with
    | some b =>
      obtain ⟨orphans, hp, -⟩ := (hon.fared j b hb).passage
      have hpc := (hp.servedCall hd).2.2
      rw [hcall] at hpc
      have htj : (place j).token? = some token := by
        generalize place j = p at hpc
        cases p <;> cases hpc
        rfl
      have hij := hx.exclude hin (hx.inside j b token hb htj) rfl
      cases hij
      exact hne rfl
    | none =>
      rcases hc.did_of_none ho (fun _ => rfl) hb hd with ⟨name, hl⟩ | ⟨h, hs, hu⟩
      · rw [hcall] at hl
        cases hl
      · rw [hcall] at hu
        cases hu
        obtain ⟨k, b, -, hg, hl⟩ := hx.left h hs
        have hik := hx.single _ (sections_subset_grants _ hin) _ hg rfl
        cases hik
        rw [hl] at ht
        cases ht
  · rw [hcall] at hs
    cases hs
  · rw [hcall] at hu
    cases hu
    have hnone := hm i (sections_subset_grants _ hin)
    rw [ha] at hnone
    cases hnone

theorem inside_act (hx : s.Exclusive place) (ho : s.Orderly grantless) (hc : s.Course place)
    (hm : s.Honest m) (hon : s.Onward grantless m place place') :
    ∀ i a token, (s.act m).allocator? i = some a → (place' i).token? = some token →
      (i, token) ∈ sections (s.act m).log := by
  intro i a token ha ht
  rw [mem_sections_act]
  obtain ⟨ha, ⟨-, hg⟩ | ⟨hold, hfree⟩⟩ := hon.token (by simp [grantless, Call.granted?]) ha ht
  · exact .inl hg
  · refine .inr ⟨hx.inside i a token ha hold, ?_⟩
    by_cases hl : m = .look i
    · exact fun d hd => by simp [hfree hl d hd]
    · exact hx.not_freed ho hc hm hon ha hold hl

theorem left_act (hx : s.Exclusive place) (hon : s.Onward grantless m place place') :
    ∀ h, (s.act m).Stray h → ∃ i a, (s.act m).allocator? i = some a ∧
      (i, h.token) ∈ grants (s.act m).log ∧ place' i = .lost := by
  intro h hh
  have hlost : ∃ i a, s.allocator? i = some a ∧ (i, h.token) ∈ grants s.log ∧
      place' i = .lost := by
    rcases hon.stray hh with hold | ⟨i, a, ha, ht, hl⟩
    · obtain ⟨i, a, ha, hg, hl⟩ := hx.left h hold
      have hf := hon.fared i a ha
      rw [hl] at hf
      exact ⟨i, a, ha, hg, hf.lost⟩
    · exact ⟨i, a, ha, sections_subset_grants _ (hx.inside i a _ ha ht), hl⟩
  obtain ⟨i, a, ha, hg, hl⟩ := hlost
  exact ⟨i, a, allocator?_of_act ha, mem_grants_act.2 (.inr hg), hl⟩

theorem act (hx : s.Exclusive place) (ho : s.Orderly grantless) (hc : s.Course place)
    (hm : s.Honest m) (hon : s.Onward grantless m place place') : (s.act m).Exclusive place' where
  held := hx.held_act ho
  numbered := hx.numbered_act ho
  single := hx.single_act ho
  named := hx.named_act ho hon
  inside := hx.inside_act ho hc hm hon
  left := hx.left_act hon

end Exclusive

theorem exclusive_around {w : World} (hw : w.Calm) : (around w : Crowd mint).Exclusive place where
  held := by simp [around, sections]
  numbered := by simp [around, grants]
  single := by simp [around, grants]
  named := by simp [around, grants]
  inside := by simp [around, allocator?, role?]
  left := by
    rintro h (hh | ⟨i, hi⟩)
    · exact absurd (hw.2 ▸ hh) List.not_mem_nil
    · simp [around, role?] at hi

/-- A move starts a store call, or changes what is stored. -/
def Touches (s : Crowd mint) (m : Move mint) : Prop :=
  (∃ c, (s.act m).world.journal = .store c :: s.world.journal) ∨
    (s.act m).world.store.entries ≠ s.world.store.entries

theorem look_of_touches (ho : s.Orderly P) (hP : ∀ length, P (.pause length) ())
    (ht : s.Touches m) (hm : ∀ c, m ≠ .store c) :
    ∃ i p g c held k, m = .look i ∧ s.parties[i]? = some p ∧
      p.activity.rest = .call g (.store c) held k := by
  rcases ht with ⟨c, hj⟩ | he
  · rcases act_journal s m with hsame | ⟨i, p, g, c', held, k, rfl, hi, hr, hj'⟩
    · rw [hsame] at hj
      exact absurd hj.symm (List.cons_ne_self _ _)
    · rw [hj] at hj'
      cases hj'
      exact ⟨i, p, g, c, held, k, rfl, hi, hr⟩
  · rcases act_store ho hP m with ⟨hsame, -⟩ | ⟨who, c, a, st, hd, -, -⟩
    · exact absurd hsame he
    · rcases (did_eq_some hd).2 with ⟨i, p, rfl, hi, hserved⟩ | ⟨-, ⟨c', hc, -⟩ | ⟨t, -, hu⟩⟩
      · obtain ⟨-, -, g, held, k, hr⟩ := Activity.servedCall_eq_some hserved
        exact ⟨i, p, g, c, held, k, rfl, hi, hr⟩
      · exact absurd hc (hm c')
      · cases hu

/-- Critical sections exclude one another, and an allocation starts its store calls, and changes
what is stored, in its own section only. -/
theorem critical_sections {w : World} (hw : w.Calm) (hplan : w.faults.Within grantless)
    {moves : List (Move mint)} (h : (around w).Lawful Honest moves) {s : Crowd mint}
    (hs : s = (around w).play moves) :
    (∀ i j a b t u, s.allocator? i = some a → s.allocator? j = some b → a.lockName = b.lockName →
      (i, t) ∈ sections s.log → (j, u) ∈ sections s.log → (i, t) = (j, u)) ∧
    ∀ m, (∀ c, m ≠ .store c) → s.Touches m → ∃ i a t, m = .look i ∧ s.allocator? i = some a ∧
      (i, t) ∈ sections s.log ∧ (i, t) ∈ sections (s.act m).log := by
  have hrun := h.course (fun _ => rfl) (fun _ _ hm => hm)
    (fun s m place place' ho hc hm hon hx => hx.act ho hc hm hon) hw hplan (exclusive_around hw)
  rw [← hs] at hrun
  obtain ⟨ho, place, hc, hx⟩ := hrun
  refine ⟨fun i j a b t u ha hb hab hi hj => ?_, fun m hm ht => ?_⟩
  · have hn : t.name = u.name := by
      rw [(hx.named _ (sections_subset_grants _ hi)).2 a ha, hab,
        (hx.named _ (sections_subset_grants _ hj)).2 b hb]
    exact hx.exclude hi hj hn
  · obtain ⟨i, p, g, c, held, k, rfl, hi, hr⟩ := look_of_touches ho (fun _ => rfl) ht hm
    obtain ⟨a, ha, hcall⟩ := hc.call_of_store hi hr
    obtain ⟨token, htoken⟩ : ∃ token, (place i).token? = some token := by
      generalize place i = p at hcall
      cases p <;> cases hcall <;> exact ⟨_, rfl⟩
    have hin := hx.inside i a token ha htoken
    refine ⟨i, a, token, rfl, ha, hin, mem_sections_act.2 (.inr ⟨hin, fun d hd => ?_⟩)⟩
    rw [did_look hi] at hd
    obtain ⟨-, -, g', held', k', hr'⟩ := Activity.servedCall_eq_some hd
    rw [hr, Flow.call.injEq] at hr'
    rw [ServedCall.freed?, ← hr'.2.1]
    simp [Call.freed?]

/-- Of two allocations for one day, the one that has the lock is dropped, and its lock goes to the
other. -/
def handedOver : List (Move mint) :=
  [.join .newYear, .join .newYear, .look 0, .look 0, .look 1, .look 1, .look 0, .drop 0, .adopt,
    .look 2, .look 2, .look 1]

theorem critical_sections_handedOver : sections ((around .newYear).play handedOver).log =
      [(1, ⟨"user-id-sequence", .issued 1⟩)] ∧
    ∀ m, (∀ c, m ≠ .store c) → ((around .newYear).play handedOver).Touches m → m = .look 1 := by
  have hlaw : (around .newYear).Lawful Honest handedOver := by
    simp [handedOver, Lawful, Honest]
  have hsections : sections ((around .newYear).play handedOver).log =
      [(1, ⟨"user-id-sequence", .issued 1⟩)] := by
    decide +kernel
  refine ⟨hsections, fun m hm ht => ?_⟩
  obtain ⟨i, a, t, hmi, -, hi, -⟩ :=
    (critical_sections World.newYear_calm (Faults.within_none _) hlaw rfl).2 m hm ht
  rw [hsections] at hi
  cases List.mem_singleton.1 hi
  exact hmi

end Crowd

end Registrar
