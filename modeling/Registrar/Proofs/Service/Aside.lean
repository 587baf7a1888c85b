import Registrar.Proofs.Office
import Registrar.Proofs.Service
set_option autoImplicit false

namespace Registrar

namespace Store

variable {s t : Store} {now : Tick}

theorem find?_perform {c : StoreCall} {a : Except StoreError c.Answer}
    (h : s.perform now c = some (a, t)) {key : String} (hadj : key ∉ c.adjusts)
    (hmark : c.mark? key now a = none) {later : Tick} (hl : now ≤ later) :
    t.find? later key = s.find? later key := by
  rcases perform_marked h hadj with hs | ⟨-, hn, hf⟩
  · rw [hmark] at hs
    exact find?_congr hs
  · rw [find?, hn]
    exact (Crowd.Ledger.filter_later hl hf).symm

end Store

namespace World

/-- A world that differs from another in nothing that matters to a reader of these keys. -/
structure Aside (keys : String → Prop) (w v : World) : Prop where
  clock : v.clock = w.clock
  ids : v.ids = w.ids
  minted : w.minted ≤ v.minted
  faults : v.faults = w.faults
  available : v.store.available = w.store.available
  accepting : v.store.accepting = w.store.accepting
  reads : ∀ key, keys key → ∀ later, w.now ≤ later → v.store.find? later key = w.store.find? later key

namespace Aside

variable {keys : String → Prop} {u v w : World}

theorem refl (w : World) : w.Aside keys w :=
  ⟨rfl, rfl, Nat.le_refl _, rfl, rfl, rfl, fun _ _ _ _ => rfl⟩

theorem now (h : w.Aside keys v) : v.now = w.now := congrArg Clock.now h.clock

theorem trans (h : w.Aside keys v) (k : v.Aside keys u) : w.Aside keys u where
  clock := k.clock.trans h.clock
  ids := k.ids.trans h.ids
  minted := Nat.le_trans h.minted k.minted
  faults := k.faults.trans h.faults
  available := k.available.trans h.available
  accepting := k.accepting.trans h.accepting
  reads := fun key hk later hl =>
    (k.reads key hk later (h.now ▸ hl)).trans (h.reads key hk later hl)

theorem healthy (h : w.Aside keys v) (hw : w.Healthy) : v.Healthy where
  faults := h.faults.trans hw.faults
  available := h.available.trans hw.available
  accepting := h.accepting.trans hw.accepting

theorem of_store (hc : v.clock = w.clock) (hi : v.ids = w.ids) (hm : v.minted = w.minted)
    (hf : v.faults = w.faults) (hs : v.store = w.store) : w.Aside keys v where
  clock := hc
  ids := hi
  minted := Nat.le_of_eq hm.symm
  faults := hf
  available := by rw [hs]
  accepting := by rw [hs]
  reads := by simp [hs]

theorem record (w : World) (c : Call) : w.Aside keys (w.record c) := by
  have h := Alike.record w c
  exact of_store h.clock h.ids h.minted (faults_record w c) h.store

theorem orphan (w : World) (held : Option Held) : w.Aside keys (w.orphan held) :=
  of_store rfl rfl rfl rfl rfl

theorem abandon (w : World) (ticket : Nat) (c : Call) (p : Phase c) :
    w.Aside keys (w.abandon ticket c p) := by
  unfold World.abandon
  split
  · exact of_store rfl rfl rfl rfl rfl
  · exact refl w

theorem noteHolder (w : World) (h : Holder) : w.Aside keys (w.noteHolder h) := by
  unfold World.noteHolder
  split <;> exact of_store rfl rfl rfl rfl rfl

theorem withLocks (w : World) (ls : Locks) : w.Aside keys { w with locks := ls } :=
  of_store rfl rfl rfl rfl rfl

end Aside

end World

namespace Allocator

variable {a : Allocator} {w : World} {c : Call}

def Foreign (a : Allocator) (key : String) : Prop := ∀ day, key ≠ a.counterKey day

theorem Calls.aside_stored {c : StoreCall} (hc : a.Calls (.store c))
    {r : Except StoreError c.Answer} {s : Store} (hp : w.store.perform w.now c = some (r, s)) :
    w.Aside a.Foreign { w with store := s } := by
  have hswitches : s.available = w.store.available ∧ s.accepting = w.store.accepting := by
    rcases hc with ⟨day, rfl⟩ | ⟨day, ttl, rfl⟩
    · simp only [Store.perform, Store.incr] at hp
      split at hp
      · split at hp
        · cases hp
          exact ⟨rfl, rfl⟩
        · split at hp <;> cases hp <;> exact ⟨rfl, rfl⟩
      · cases hp
        exact ⟨rfl, rfl⟩
    · simp only [Store.perform, Store.expire] at hp
      split at hp
      · split at hp
        · cases hp
          exact ⟨rfl, rfl⟩
        · obtain ⟨x, hx, hr⟩ := Option.map_eq_some_iff.1 hp
          obtain ⟨dies, -, rfl⟩ := Option.map_eq_some_iff.1 hx
          cases hr
          exact ⟨rfl, rfl⟩
      · cases hp
        exact ⟨rfl, rfl⟩
  refine ⟨rfl, rfl, Nat.le_refl _, rfl, hswitches.1, hswitches.2, fun key hk later hl => ?_⟩
  rcases hc with ⟨day, rfl⟩ | ⟨day, ttl, rfl⟩
  · exact Store.find?_perform hp (fun h => hk day (List.mem_singleton.1 h)) rfl hl
  · exact Store.find?_perform hp (fun h => hk day (List.mem_singleton.1 h)) rfl hl

theorem Calls.aside_await (ticket : Nat) (name : String) (direct : Bool) (limit : Option Tick) :
    w.Aside a.Foreign (w.await ticket name direct limit).1 := by
  unfold World.await
  split
  · exact (World.Aside.withLocks w _).trans (.noteHolder _ _)
  · split
    · exact .withLocks w _
    · exact .refl w

theorem Calls.aside_perform (hc : a.Calls c) (ticket : Nat) :
    w.Aside a.Foreign (w.perform ticket c).1 := by
  cases c with
  | store c =>
    simp only [World.perform]
    cases hp : w.store.perform w.now c with
    | none => exact .refl w
    | some r => exact hc.aside_stored hp
  | lock name direct =>
    simp only [World.perform]
    split
    · split
      · exact (World.Aside.withLocks w _).trans (.noteHolder _ _)
      · exact (World.Aside.withLocks w _).trans (aside_await _ _ _ _)
    · exact .refl w
  | unlock token => exact .withLocks w _
  | pause length => cases hc

theorem Calls.aside_work (hc : a.Calls c) (hw : w.Healthy) (ticket : Nat) :
    w.Aside a.Foreign (w.work ticket c .fresh).1 := by
  have htake : w.faults.take c = (.pass, w.faults) := by
    rw [hw.faults]
    cases c with
    | store c => cases c <;> rfl
    | lock name direct => cases direct <;> rfl
    | unlock token => rfl
    | pause length => rfl
  rw [World.work, htake]
  exact (World.Aside.record w c).trans (hc.aside_perform ticket)

theorem Calls.aside_attend (hc : a.Calls c) (hw : w.Healthy) (ticket : Nat) (lapse : Tick)
    (g : Guard) :
    w.Aside a.Foreign (w.attend ticket lapse g c .fresh).1 ∧
      ∀ o, (w.attend ticket lapse g c .fresh).2 = .concluded o →
        (∃ r, o = g.answered r) ∨
          ∃ (v : World) (due : Tick), v.before g = some o ∨ v.after due g = some o := by
  have hwork := hc.aside_work hw ticket
  unfold World.attend
  cases hb : (w.before g : Option (g.Outcome c.Answer)) with
  | some o =>
    refine ⟨.abandon w ticket c .fresh, fun o' ho => .inr ⟨w, lapse, .inl ?_⟩⟩
    cases ho
    exact hb
  | none =>
    simp only
    generalize w.work ticket c .fresh = r at hwork
    obtain ⟨v, progress⟩ := r
    cases progress with
    | answered r =>
      refine ⟨hwork, fun o ho => .inl ⟨r, ?_⟩⟩
      cases ho
      rfl
    | crashed => exact ⟨hwork, nofun⟩
    | pending p =>
      simp only
      cases ha : (v.after lapse g : Option (g.Outcome c.Answer)) with
      | none => exact ⟨hwork, nofun⟩
      | some o =>
        refine ⟨hwork.trans (.abandon v ticket c p), fun o' ho => .inr ⟨v, lapse, .inr ?_⟩⟩
        cases ho
        exact ha

end Allocator

/-- A flow that asks for nothing but what an allocator does leaves all else alone, also if it is dropped
where it has to wait. -/
theorem Flow.Keeps.aside {α : Type} {P : Answers} {ids : Nat → String} {a : Allocator}
    {Q : List Event → α → Prop} {f : Flow α} {h : List Event}
    (hf : f.Keeps P ids (fun _ => a.Calls) Q h) {w : World} (hw : w.Healthy) (hids : w.ids = ids) :
    w.Aside a.Foreign ((f.advance w).2.drop (f.advance w).1) := by
  induction f generalizing w h with
  | done r => exact .refl w
  | crash => exact .refl w
  | now k ih => exact ih _ (hf w.clock) hw hids
  | mint k ih =>
    have hmint : w.Aside a.Foreign w.mint.2 :=
      ⟨rfl, rfl, Nat.le_succ _, rfl, rfl, rfl, fun _ _ _ _ => rfl⟩
    have hk : (k (w.ids w.minted)).Keeps P ids (fun _ => a.Calls) Q (.minted w.minted :: h) := by
      have hn := hf w.minted
      rwa [← congrFun hids w.minted] at hn
    exact hmint.trans (ih _ hk (hmint.healthy hw) hids)
  | request root timeout k ih =>
    simp only [advance]
    cases root.child w.signals w.now timeout with
    | none => exact .refl w
    | some r =>
      have hsignals : w.Aside a.Foreign { w with signals := r.2 } := .of_store rfl rfl rfl rfl rfl
      exact hsignals.trans (ih r.1 (hf r.1) (hsignals.healthy hw) hids)
  | call g c held k ih =>
    have hticket : w.Aside a.Foreign { w with tickets := w.tickets + 1 } :=
      .of_store rfl rfl rfl rfl rfl
    obtain ⟨hattend, hout⟩ :=
      Allocator.Calls.aside_attend hf.1 (hticket.healthy hw) w.tickets (w.lapse g) g
    simp only [advance]
    generalize World.attend _ _ _ g c _ = r at hattend hout ⊢
    obtain ⟨v, turn⟩ := r
    have hv := hticket.trans hattend
    cases turn with
    | pending p => exact hv.trans ((World.Aside.abandon v w.tickets c p).trans (.orphan _ held))
    | crashed => exact hv.trans (.orphan v held)
    | concluded o =>
      have hk : ∃ h, (k o).Keeps P ids (fun _ => a.Calls) Q h := by
        rcases hout o rfl with ⟨r, rfl⟩ | hmiss
        · exact ⟨_, hf.2.1 r none 0⟩
        · exact ⟨_, hf.2.2 o (.inr hmiss)⟩
      obtain ⟨h', hk⟩ := hk
      exact hv.trans (ih o hk (hv.healthy hw) (hv.ids.trans hids))

end Registrar
