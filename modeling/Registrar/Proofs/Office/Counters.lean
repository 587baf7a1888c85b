import Registrar.Proofs.Office.Rotation
set_option autoImplicit false

namespace Registrar

theorem Entry.filter_live_live {now later : Tick} (h : now ≤ later) (e : Option Entry) :
    (e.filter (Entry.live now)).filter (Entry.live later) = e.filter (Entry.live later) := by
  cases e with
  | none => rfl
  | some e =>
    cases hl : e.live later with
    | false => cases hn : e.live now <;> simp [Option.filter, hl, hn]
    | true => simp [Option.filter, hl, Store.live_of_live_later h hl]

namespace Crowd

section

variable {T : Trade} {P : Answers} {s : Crowd T} {m : Move T} {key : String}

/-- An entry that a move neither puts in nor adjusts is as it was, but for the passing of time, or has
been removed. -/
theorem find?_act (ho : s.Orderly P) (hP : ∀ length, P (.pause length) ())
    (hadj : ∀ d ∈ s.did m, ∀ c, d.call = .store c → key ∉ c.adjusts)
    (hputs : ∀ d ∈ s.did m, d.puts key = false) :
    (s.act m).world.store.find? (s.act m).now key =
        (s.world.store.find? s.now key).filter (Entry.live (s.act m).now) ∨
      (s.act m).world.store.find? (s.act m).now key = none ∧ ∃ d ∈ s.did m, d.Removes key := by
  have hnow := act_now_le ho hP m
  have still : (s.act m).world.store.entries.get? key = s.world.store.entries.get? key →
      (s.act m).world.store.find? (s.act m).now key =
        (s.world.store.find? s.now key).filter (Entry.live (s.act m).now) := by
    intro h
    rw [Store.find?, Store.find?, Entry.filter_live_live hnow, h]
  rcases act_store ho hP m with ⟨hs, -⟩ | ⟨who, c, a, st, hd, hp, hs⟩
  · exact .inl (still (by rw [hs]))
  · have hc : key ∉ c.adjusts := hadj _ hd c rfl
    have hnot : ServedCall.puts key ⟨who, .store c, a, s.now⟩ = false := hputs _ hd
    rcases Store.perform_marked hp hc with ht | ⟨-, ht, hf⟩
    · cases hm : c.mark? key s.now a with
      | none =>
        rw [hm] at ht
        exact .inl (still (by rw [hs, ht]; rfl))
      | some mark =>
        cases mark with
        | some e =>
          have hput : ServedCall.puts key ⟨who, .store c, a, s.now⟩ = true := by
            simp [ServedCall.puts, ServedCall.mark?, Call.mark?, hm]
          rw [hput] at hnot
          cases hnot
        | none =>
          rw [hm] at ht
          refine .inr ⟨?_, _, hd, hm⟩
          rw [hs, Store.find?, ht]
          rfl
    · refine .inl ?_
      rw [hs, hf, Store.find?, ht]

end

variable {s t : Crowd office} {ids : Nat → String} {first : Nat} {trace : Nat → List Event}
  {m : Move office} {key : String}

/-- Where only visits that concern tokens are attended to. -/
def Traffic (s : Crowd office) : Move office → Prop
  | .join v => v.allocator? = none
  | .look i => ∀ v, s.role? i = some (.job v) → v.allocator? = none
  | .store _ => False
  | .plan fs => fs.Within sincere
  | _ => True

theorem Traffic.did (hm : s.Traffic m) (hc : s.Chronicle sincere first trace) {d : ServedCall}
    (hd : s.did m = some d) :
    (∀ c, d.call = .store c → key ∉ c.adjusts) ∧
      (d.puts key = true → ∃ n, key = s.world.ids n) ∧
      (d.Removes key → ∃ i v, d.who = some i ∧ s.role? i = some (.job v) ∧ v.revokes = true ∧
        v.Names key) := by
  have visit : ∀ {c}, d.call = .store c → ∃ i v, d.who = some i ∧ s.role? i = some (.job v) ∧
      v.allocator? = none ∧ v.May s.world.ids (trace i) (.store c) := by
    intro c hcall
    rcases hc.did rfl hd hcall with ⟨i, v, rfl, hw, hv, -, hmay⟩ | ⟨-, rfl⟩
    · exact ⟨i, v, hw, hv, hm v hv, hmay⟩
    · exact hm.elim
  refine ⟨fun c hcall hadj => ?_, fun hputs => ?_, fun hr => ?_⟩
  · obtain ⟨i, v, -, -, hnone, hmay⟩ := visit hcall
    obtain ⟨a, ha, -⟩ := hmay.adjusts hadj
    rw [hnone] at ha
    cases ha
  · obtain ⟨value, ttl, hcall⟩ := ServedCall.call_of_set? (ServedCall.set?_of_puts hputs)
    obtain ⟨i, v, -, -, -, hmay⟩ := visit hcall
    rcases hmay.written with ⟨x, y, -, -, hkey⟩ | ⟨x, y, -, -, hkey⟩
    · exact ⟨x, hkey⟩
    · exact ⟨y, hkey⟩
  · obtain ⟨keys, hcall, hkey⟩ := hr.call
    obtain ⟨i, v, hw, hv, -, hmay⟩ := visit hcall
    obtain ⟨k, rfl, hrevokes, hnames⟩ := hmay.removes
    obtain rfl := List.mem_singleton.1 hkey
    exact ⟨i, v, hw, hv, hrevokes, hnames⟩

/-- A visit that has presented a token that names a key, and has removed what was under it. -/
def Disturbs (key : String) (s t : Crowd office) (i : Nat) : Prop :=
  (∃ v, t.role? i = some (.job v) ∧ v.revokes = true ∧ v.Names key) ∧
    ∃ more, t.log = more ++ s.log ∧ ∃ d ∈ more, d.who = some i ∧ d.Removes key

theorem Disturbs.act {i : Nat} (h : Disturbs key s t i) (m : Move office) :
    Disturbs key s (t.act m) i := by
  obtain ⟨⟨v, hv, hname⟩, more, hlog, d, hd, hr⟩ := h
  refine ⟨⟨v, role?_stays hv m, hname⟩, (t.did m).toList ++ more, ?_, d, List.mem_append_right _ hd, hr⟩
  rw [act_log, hlog, List.append_assoc]

/-- An entry that is as it was, but for the passing of time, or that has been removed since. -/
def Spared (key : String) (s t : Crowd office) : Prop :=
  t.world.store.find? t.now key = (s.world.store.find? s.now key).filter (Entry.live t.now) ∨
    t.world.store.find? t.now key = none ∧ ∃ i, Disturbs key s t i

theorem Spared.act (h : Spared key s t) (hsub : ∃ more, t.log = more ++ s.log)
    (ho : t.Orderly sincere) (hc : t.Chronicle sincere first trace)
    (hids : ∀ n, t.world.ids n ≠ key) (hm : t.Traffic m) : Spared key s (t.act m) := by
  have hnow := act_now_le ho (fun _ => trivial) m
  have hadj : ∀ d ∈ t.did m, ∀ c, d.call = .store c → key ∉ c.adjusts :=
    fun d hd => (hm.did hc hd).1
  have hputs : ∀ d ∈ t.did m, d.puts key = false := by
    intro d hd
    cases hp : d.puts key with
    | false => rfl
    | true =>
      obtain ⟨n, hn⟩ := (hm.did hc hd).2.1 hp
      exact absurd hn.symm (hids n)
  rcases find?_act ho (fun _ => trivial) hadj hputs with hsame | ⟨hgone, d, hd, hr⟩
  · rcases h with h | ⟨h, i, hi⟩
    · exact .inl (by rw [hsame, h, Entry.filter_live_live hnow])
    · exact .inr ⟨by rw [hsame, h]; rfl, i, hi.act m⟩
  · obtain ⟨i, v, hw, hv, hrevokes, hnames⟩ := (hm.did hc hd).2.2 hr
    obtain ⟨more, hlog⟩ := hsub
    have hlog' : (t.act m).log = (d :: more) ++ s.log := by
      rw [act_log, show t.did m = some d from hd, hlog]
      rfl
    exact .inr ⟨hgone, i, ⟨v, role?_stays hv m, hrevokes, hnames⟩, d :: more, hlog', d,
      List.mem_cons_self, hw, hr⟩

/-- Whatever is going on when traffic of tokens sets in, the counter of a day is then as it was up to
the passing of time, or a visit has presented a token that names it, and removed it. -/
theorem counter_spared {w : World} (hw : w.Calm) (hplan : w.faults.Within sincere)
    {before after : List (Move office)}
    (hbefore : (around w).Lawful (fun _ m => ∀ fs, m = .plan fs → fs.Within sincere) before)
    {s t : Crowd office} (hs : s = (around w).play before) (hafter : s.Lawful Traffic after)
    (ht : t = s.play after) (a : Allocator) (day : Day)
    (hids : ∀ n, w.ids n ≠ a.counterKey day) :
    t.world.store.find? t.now (a.counterKey day) =
        (s.world.store.find? s.now (a.counterKey day)).filter (Entry.live t.now) ∨
      t.world.store.find? t.now (a.counterKey day) = none ∧ ∃ i, Disturbs (a.counterKey day) s t i := by
  have hstart := hbefore.chronicle (I := fun s => s.world.ids = w.ids) (P := sincere)
    (fun _ => trivial) (fun _ _ hm => hm _ rfl)
    (fun s m _ ho _ _ hi => (act_ids ho (fun _ => trivial) m).trans hi) hw hplan rfl
  rw [← hs] at hstart
  obtain ⟨ho, hc, hi⟩ := hstart
  subst ht
  refine (hafter.preserves (I := fun t => t.Orderly sincere ∧
    (∃ trace, t.Chronicle sincere w.minted trace) ∧ t.world.ids = w.ids ∧
      (∃ more, t.log = more ++ s.log) ∧ Spared (a.counterKey day) s t) ?_
    ⟨ho, hc, hi, ⟨[], rfl⟩, .inl ?_⟩).2.2.2.2
  · rintro t m hm ⟨ho, ⟨trace, hc⟩, hi, hsub, hspared⟩
    have hplan' : ∀ fs, m = .plan fs → fs.Within sincere := by
      rintro fs rfl
      exact hm
    refine ⟨ho.act (fun _ => trivial) m hplan', hc.act ho (fun _ => trivial) m,
      (act_ids ho (fun _ => trivial) m).trans hi, ?_, hspared.act hsub ho hc (hi ▸ hids) hm⟩
    obtain ⟨more, hlog⟩ := hsub
    exact ⟨(t.did m).toList ++ more, by rw [act_log, hlog, List.append_assoc]⟩
  · rw [Store.find?, Entry.filter_live_live (Nat.le_refl _)]

theorem lawful_looks {i : Nat} {v : Visit} (h : s.role? i = some (.job v))
    (hv : v.allocator? = none) (n : Nat) : s.Lawful Traffic (List.replicate n (.look i)) := by
  induction n generalizing s with
  | zero => trivial
  | succ n ih =>
    refine ⟨fun v' hv' => ?_, ih (role?_stays h _)⟩
    cases h.symm.trans hv'
    exact hv

/-- Somebody asks for an identifier, and is done. -/
def minting : List (Move office) :=
  .join (.allocate .standard (.on unending .newYear)) :: List.replicate 12 (.look 0)

theorem numbered_ne_counterKey (n : Nat) :
    World.numbered.ids n ≠ Allocator.standard.counterKey .newYear := by
  intro h
  have hkey : (Allocator.standard.counterKey .newYear).toList = "user20200101".toList := by decide
  have hids : (World.numbered.ids n).toList = Numeral.decimal n := String.toList_ofList
  rw [h, hkey] at hids
  have hu : 'u' ∈ Numeral.decimal n := hids ▸ List.mem_cons_self
  exact absurd (Numeral.isDigit_of_mem_decimal hu) (by decide)

def loggingIn : List (Move office) :=
  .join (.login .brief unending alice) :: List.replicate 12 (.look 1)

theorem counter_spared_loggingIn :
    ((around .numbered).play (minting ++ loggingIn)).world.store.find?
      ((around .numbered).play (minting ++ loggingIn)).now (Allocator.standard.counterKey .newYear) =
        some ⟨"1", some (Span.ofSecs 86400)⟩ := by
  have hbefore : (around .numbered).Lawful
      (fun _ m => ∀ fs, m = .plan fs → fs.Within sincere) minting := by
    simp [minting, Lawful, List.replicate]
  have hafter : ((around .numbered).play minting).Lawful Traffic loggingIn :=
    ⟨rfl, lawful_looks (v := .login .brief unending alice) (by rfl) rfl 12⟩
  have hentry : ((around .numbered).play minting).world.store.find?
      ((around .numbered).play minting).now (Allocator.standard.counterKey .newYear) =
        some ⟨"1", some (Span.ofSecs 86400)⟩ := by decide +kernel
  have hlive : Entry.live ((around .numbered).play (minting ++ loggingIn)).now
      ⟨"1", some (Span.ofSecs 86400)⟩ = true := by decide +kernel
  have hthere : (((around .numbered).play (minting ++ loggingIn)).world.store.find?
      ((around .numbered).play (minting ++ loggingIn)).now
        (Allocator.standard.counterKey .newYear)).isSome = true := by decide +kernel
  rcases counter_spared World.numbered_calm (Faults.within_none _) hbefore rfl hafter
    (play_append _ _ _) .standard .newYear numbered_ne_counterKey with hsame | ⟨hgone, -⟩
  · rw [hsame, hentry, Option.filter_some, if_pos hlive]
  · rw [hgone] at hthere
    cases hthere

/-- A token that nobody has issued, and that names the counter of the day. -/
def forgery : String := "fake-access-token:user20200101:0:9999999999999:1"

def forging : List (Move office) :=
  .join (.logout unending forgery) :: List.replicate 12 (.look 1)

theorem counter_not_spared :
    ((around .numbered).play minting).Lawful Traffic forging ∧
      (∀ n, World.numbered.ids n ≠ Allocator.standard.counterKey .newYear) ∧
      ((around .numbered).play minting).world.store.find? ((around .numbered).play minting).now
        (Allocator.standard.counterKey .newYear) = some ⟨"1", some (Span.ofSecs 86400)⟩ ∧
      ((around .numbered).play (minting ++ forging)).now = ((around .numbered).play minting).now ∧
      ((around .numbered).play (minting ++ forging)).world.store.find?
        ((around .numbered).play (minting ++ forging)).now
          (Allocator.standard.counterKey .newYear) = none := by
  refine ⟨⟨rfl, lawful_looks (v := .logout unending forgery) (by rfl) rfl 12⟩,
    numbered_ne_counterKey, by decide +kernel, by decide +kernel, by decide +kernel⟩

end Crowd

end Registrar
