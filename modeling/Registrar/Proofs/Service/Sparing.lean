import Registrar.Proofs.Crowd.Realm
import Registrar.Proofs.Service.Numbering
set_option autoImplicit false

namespace Registrar

/-- A call that can do no more to the entries under these keys than remove them. -/
def Call.Spares (keys : String → Prop) : Call → Prop
  | .store (.set key _ _) | .store (.incr key) | .store (.expire key _) => ¬ keys key
  | .store (.get _) | .store (.del _) | .lock _ _ | .unlock _ | .pause _ => True

namespace Store

variable {s t : Store} {now : Tick} {key : String} {keys : String → Prop}

def Lessens (key : String) (now : Tick) (s t : Store) : Prop :=
  (∀ later, now ≤ later → t.find? later key = s.find? later key) ∨
    ∀ later, now ≤ later → t.find? later key = none

theorem lessens_of_get? (h : t.entries.get? key = s.entries.get? key) : s.Lessens key now t :=
  .inl fun _ _ => find?_congr h

theorem perform_lessens {c : StoreCall} {a : Except StoreError c.Answer}
    (h : s.perform now c = some (a, t)) (hc : (Call.store c).Spares keys) (hkey : keys key) :
    s.Lessens key now t := by
  have hother : ∀ other, ¬ keys other → key ∉ [other] := fun other hnot hin =>
    hnot (List.mem_singleton.1 hin ▸ hkey)
  cases c with
  | set other value ttl => exact lessens_of_get? (get?_perform_of_not_mem h (hother other hc))
  | incr other => exact lessens_of_get? (get?_perform_of_not_mem h (hother other hc))
  | expire other ttl => exact lessens_of_get? (get?_perform_of_not_mem h (hother other hc))
  | get other =>
    simp only [perform] at h
    split at h
    · cases h
      exact .inl fun later hl => reads_get s now other key later hl
    · cases h
      exact .inl fun _ _ => rfl
  | del removed =>
    simp only [perform] at h
    split at h
    · cases h
      by_cases hin : key ∈ removed
      · refine .inr fun later _ => ?_
        rw [find?, get?_del_of_mem hin]
        rfl
      · exact lessens_of_get? (get?_del_of_not_mem hin)
    · cases h
      exact .inl fun _ _ => rfl

end Store

/-- Locks that serve on the same terms. -/
def Locks.OnTerms (ls ls' : Locks) : Prop :=
  ls'.available = ls.available ∧ ls'.patience = ls.patience

namespace Locks

theorem OnTerms.refl (ls : Locks) : ls.OnTerms ls := ⟨rfl, rfl⟩

theorem OnTerms.trans {ls ls' ls'' : Locks} (h : ls.OnTerms ls') (k : ls'.OnTerms ls'') :
    ls.OnTerms ls'' := ⟨k.1.trans h.1, k.2.trans h.2⟩

theorem onTerms_enter (ls : Locks) (name : String) (ticket : Nat) :
    ls.OnTerms (ls.enter name ticket).2 := by
  unfold enter
  dsimp only
  split <;> exact .refl ls

theorem onTerms_collect (ls : Locks) (name : String) (ticket : Nat) :
    ls.OnTerms (ls.collect name ticket).2 := by
  unfold collect
  split <;> exact .refl ls

theorem onTerms_unlock (ls : Locks) (token : LockToken) : ls.OnTerms (ls.unlock token).2 := by
  unfold unlock
  dsimp only
  split <;> exact .refl ls

end Locks

namespace World

variable {w v u : World} {c : Call} {keys : String → Prop}

theorem serves_withLocks (w : World) (ls : Locks) : w.Serves { w with locks := ls } 0 :=
  ⟨rfl, rfl, rfl, rfl, rfl, rfl, rfl⟩

/-- What becomes of the world in one look at a call for which no fault is planned: the store, if it is
asked, answers, and nothing else comes about that others can read. -/
structure Looked (c : Call) (w v : World) : Prop where
  serves : w.Serves v 0
  terms : w.locks.OnTerms v.locks
  store : v.store = w.store ∨
    ∃ (call : StoreCall) (a : Except StoreError call.Answer), c = .store call ∧
      w.store.perform w.now call = some (a, v.store)

theorem looked_await (w : World) (ticket : Nat) (name : String) (direct : Bool)
    (limit : Option Tick) : Looked c w (w.await ticket name direct limit).1 := by
  have hcollect := w.locks.onTerms_collect name ticket
  unfold await
  split
  · rename_i token ls hls
    rw [hls] at hcollect
    have hnote := Alike.noteHolder { w with locks := ls } token.holder
    refine ⟨(serves_withLocks w _).trans (serves_noteHolder _ _), ?_, .inl hnote.store⟩
    rwa [hnote.locks]
  · split
    · exact ⟨serves_withLocks w _, .refl _, .inl rfl⟩
    · exact ⟨.refl w, .refl _, .inl rfl⟩

theorem looked_perform (w : World) (ticket : Nat) (c : Call) :
    Looked c w (w.perform ticket c).1 := by
  cases c with
  | store call =>
    simp only [perform]
    split
    · exact ⟨.refl w, .refl _, .inl rfl⟩
    · rename_i a s hp
      obtain ⟨havailable, haccepting⟩ := Store.perform_switches hp
      exact ⟨⟨rfl, rfl, rfl, rfl, havailable, haccepting, rfl⟩, .refl _, .inr ⟨call, a, rfl, hp⟩⟩
  | lock name direct =>
    have henter := w.locks.onTerms_enter name ticket
    simp only [perform]
    split
    · split
      · rename_i token ls hls
        rw [hls] at henter
        have hnote := Alike.noteHolder { w with locks := ls } token.holder
        refine ⟨(serves_withLocks w _).trans (serves_noteHolder _ _), ?_, .inl hnote.store⟩
        rwa [hnote.locks]
      · rename_i ls hls
        rw [hls] at henter
        have hawait := looked_await (c := .lock name direct) { w with locks := ls } ticket name direct
          (ls.patience.map w.now.after)
        refine ⟨(serves_withLocks w ls).trans hawait.serves, henter.trans hawait.terms,
          hawait.store.imp id ?_⟩
        rintro ⟨call, a, hc, -⟩
        cases hc
    · exact ⟨.refl w, .refl _, .inl rfl⟩
  | unlock token => exact ⟨serves_withLocks w _, w.locks.onTerms_unlock token, .inl rfl⟩
  | pause length =>
    cases length with
    | none => exact ⟨.refl w, .refl _, .inl rfl⟩
    | some length =>
      simp only [perform]
      split <;> exact ⟨.refl w, .refl _, .inl rfl⟩

theorem looked_work (hf : w.faults = .none) (ticket : Nat) (c : Call) :
    Looked c w (w.work ticket c .fresh).1 := by
  have hrecord := Alike.record w c
  have hserves : w.Serves (w.record c) 0 := by
    cases c with
    | lock name direct => cases direct <;> exact ⟨rfl, rfl, rfl, rfl, rfl, rfl, rfl⟩
    | store | unlock | pause => exact ⟨rfl, rfl, rfl, rfl, rfl, rfl, rfl⟩
  have hperform := looked_perform (w.record c) ticket c
  rw [work_of_none hf]
  exact ⟨hserves.trans hperform.serves, hrecord.locks ▸ hperform.terms,
    hrecord.store ▸ hserves.now ▸ hperform.store⟩

theorem looked_abandon (w : World) (ticket : Nat) (c : Call) (p : Phase c) {d : Call} :
    Looked d w (w.abandon ticket c p) := by
  unfold abandon
  split
  · exact ⟨serves_withLocks w _, .refl _, .inl rfl⟩
  · exact ⟨.refl w, .refl _, .inl rfl⟩

theorem Looked.trans_left (h : Looked c w v) (hs : v.Serves u 0) (hl : v.locks.OnTerms u.locks)
    (hstore : u.store = v.store) : Looked c w u :=
  ⟨h.serves.trans hs, h.terms.trans hl, hstore ▸ h.store⟩

theorem looked_attend (hf : w.faults = .none) (ticket : Nat) (lapse : Tick) (g : Guard) (c : Call) :
    Looked c w (w.attend ticket lapse g c .fresh).1 := by
  have hwork := looked_work hf ticket c
  unfold attend
  split
  · exact looked_abandon w ticket c .fresh
  · generalize w.work ticket c .fresh = x at hwork
    obtain ⟨v, progress⟩ := x
    cases progress with
    | answered a => exact hwork
    | crashed => exact hwork
    | pending q =>
      simp only
      split
      · have habandon := looked_abandon (d := .pause none) v ticket c q
        refine hwork.trans_left habandon.serves habandon.terms (habandon.store.resolve_right ?_)
        rintro ⟨call, a, hc, -⟩
        cases hc
      · exact hwork

/-- What a flow leaves as it is that spares counters. Signals may have been made, but none fired. -/
structure Keeps (keys : String → Prop) (w v : World) : Prop where
  clock : v.clock = w.clock
  ids : v.ids = w.ids
  faults : v.faults = w.faults
  available : v.store.available = w.store.available
  accepting : v.store.accepting = w.store.accepting
  terms : w.locks.OnTerms v.locks
  fired : v.signals.fired = w.signals.fired
  made : w.signals.made ≤ v.signals.made
  entry : ∀ key, keys key → w.store.Lessens key w.now v.store

namespace Keeps

theorem now (h : w.Keeps keys v) : v.now = w.now := congrArg Clock.now h.clock

theorem refl (w : World) : w.Keeps keys w :=
  ⟨rfl, rfl, rfl, rfl, rfl, .refl _, rfl, Nat.le_refl _, fun _ _ => .inl fun _ _ => rfl⟩

theorem trans (h : w.Keeps keys v) (k : v.Keeps keys u) : w.Keeps keys u where
  clock := k.clock.trans h.clock
  ids := k.ids.trans h.ids
  faults := k.faults.trans h.faults
  available := k.available.trans h.available
  accepting := k.accepting.trans h.accepting
  terms := h.terms.trans k.terms
  fired := k.fired.trans h.fired
  made := Nat.le_trans h.made k.made
  entry key hkey := by
    have hk := k.entry key hkey
    rw [h.now] at hk
    rcases hk with hsame | hgone
    · rcases h.entry key hkey with hfirst | hgone
      · exact .inl fun later hl => (hsame later hl).trans (hfirst later hl)
      · exact .inr fun later hl => (hsame later hl).trans (hgone later hl)
    · exact .inr hgone

theorem healthy (h : w.Keeps keys v) (hw : w.Healthy) : v.Healthy where
  faults := h.faults.trans hw.faults
  available := h.available.trans hw.available
  accepting := h.accepting.trans hw.accepting

theorem mint (w : World) : w.Keeps keys w.mint.2 :=
  ⟨rfl, rfl, rfl, rfl, rfl, .refl _, rfl, Nat.le_refl _, fun _ _ => .inl fun _ _ => rfl⟩

theorem counted (w : World) (tickets : Nat) : w.Keeps keys { w with tickets := tickets } :=
  ⟨rfl, rfl, rfl, rfl, rfl, .refl _, rfl, Nat.le_refl _, fun _ _ => .inl fun _ _ => rfl⟩

theorem orphan (w : World) (held : Option Held) : w.Keeps keys (w.orphan held) :=
  ⟨rfl, rfl, rfl, rfl, rfl, .refl _, rfl, Nat.le_refl _, fun _ _ => .inl fun _ _ => rfl⟩

theorem child {root ctx : Context} {timeout : Span} {signals : Signals}
    (h : root.child w.signals w.now timeout = some (ctx, signals)) :
    w.Keeps keys { w with signals := signals } := by
  obtain ⟨due, -, hctx⟩ := Option.map_eq_some_iff.1 h
  cases hctx
  exact ⟨rfl, rfl, rfl, rfl, rfl, .refl _, rfl, Nat.le_succ _, fun _ _ => .inl fun _ _ => rfl⟩

end Keeps

theorem Looked.keeps (h : Looked c w v) (hc : c.Spares keys) : w.Keeps keys v where
  clock := h.serves.clock
  ids := h.serves.ids
  faults := h.serves.faults
  available := h.serves.available
  accepting := h.serves.accepting
  terms := h.terms
  fired := congrArg Signals.fired h.serves.signals
  made := Nat.le_of_eq (congrArg Signals.made h.serves.signals.symm)
  entry key hkey := by
    rcases h.store with hstore | ⟨call, a, rfl, hp⟩
    · rw [hstore]
      exact .inl fun _ _ => rfl
    · exact Store.perform_lessens hp hc hkey

end World

namespace Flow

variable {α β ε δ : Type} {ids : Nat → String} {P : Call → Prop}

/-- A flow whose calls are all of this kind, whatever they come to, if its identifiers are minted from
these. -/
inductive Asks (ids : Nat → String) (P : Call → Prop) : Flow α → Prop where
  | done (a : α) : Asks ids P (.done a)
  | crash : Asks ids P .crash
  | now {k : Clock → Flow α} (hk : ∀ t, (k t).Asks ids P) : Asks ids P (.now k)
  | mint {k : String → Flow α} (hk : ∀ n, (k (ids n)).Asks ids P) : Asks ids P (.mint k)
  | request {root : Context} {timeout : Span} {k : Context → Flow α}
      (hk : ∀ ctx, (k ctx).Asks ids P) : Asks ids P (.request root timeout k)
  | call {g : Guard} {c : Call} {held : Option Held} {k : g.Outcome c.Answer → Flow α}
      (hc : P c) (hk : ∀ o, (k o).Asks ids P) : Asks ids P (.call g c held k)

namespace Asks

theorem bind {f : Flow α} {k : α → Flow β} (h : f.Asks ids P) (hk : ∀ a, (k a).Asks ids P) :
    (f.bind k).Asks ids P := by
  induction h with
  | done a => exact hk a
  | crash => exact .crash
  | now _ ih => exact .now ih
  | mint _ ih => exact .mint ih
  | request _ ih => exact .request ih
  | call hc _ ih => exact .call hc ih

theorem run_bind {x : ExceptT ε Flow α} {k : α → ExceptT ε Flow β} (h : x.run.Asks ids P)
    (hk : ∀ a, (k a).run.Asks ids P) : (x >>= k).run.Asks ids P := by
  refine h.bind fun r => ?_
  cases r with
  | ok a => exact hk a
  | error e => exact .done _

theorem adapt {x : ExceptT ε Flow α} {f : ε → δ} (h : x.run.Asks ids P) :
    (x.adapt f).run.Asks ids P :=
  h.bind fun _ => .done _

theorem keeps {keys : String → Prop} {f : Flow α} {w : World} (h : f.Asks w.ids (Call.Spares keys))
    (hf : w.faults = .none) : w.Keeps keys (f.advance w).1 := by
  generalize hids : w.ids = ids at h
  induction h generalizing w with
  | done | crash => exact .refl w
  | now _ ih => exact ih w.clock hf hids
  | mint _ ih =>
    subst hids
    exact (World.Keeps.mint w).trans (ih w.minted (w := w.mint.2) hf rfl)
  | @request root timeout k _ ih =>
    simp only [Flow.advance]
    split
    · exact .refl w
    · rename_i ctx signals hchild
      exact (World.Keeps.child hchild).trans (ih ctx (w := { w with signals := signals }) hf hids)
  | @call g c held k hc _ ih =>
    have hcounted : w.Keeps keys { w with tickets := w.tickets + 1 } := .counted w (w.tickets + 1)
    have hlooked := (World.looked_attend (w := { w with tickets := w.tickets + 1 }) hf w.tickets
      (w.lapse g) g c).keeps hc
    simp only [Flow.advance]
    generalize World.attend _ w.tickets (w.lapse g) g c .fresh = x at hlooked
    obtain ⟨v, turn⟩ := x
    have hv : w.Keeps keys v := hcounted.trans hlooked
    cases turn with
    | concluded o => exact hv.trans (ih o (hv.faults.trans hf) (hv.ids.trans hids))
    | pending q => exact hv
    | crashed => exact hv.trans (.orphan v held)

end Asks

end Flow

section

variable {ids : Nat → String} {keys : String → Prop} {ctx : Context}

theorem Allocator.asks_allocate {a : Allocator} {day : Day} (h : ¬ keys (a.counterKey day)) :
    (a.allocate ctx day).Asks ids (Call.Spares keys) := by
  have hlock : (Call.lock a.lockName false).Spares keys := trivial
  have hfinish : ∀ token counted, (a.finish day token counted).Asks ids (Call.Spares keys) := by
    intro token counted
    have hunlock : (Call.unlock token).Spares keys := trivial
    exact .call hunlock fun _ => .done _
  refine .call hlock fun o => ?_
  rcases o with i | e | token
  · exact .done _
  · exact .done _
  · have hincr : (Call.store (.incr (a.counterKey day))).Spares keys := h
    refine .call hincr fun o => ?_
    rcases o with i | e | n
    · exact hfinish token _
    · exact hfinish token _
    · refine .now fun t => ?_
      have hexpire : (Call.store (.expire (a.counterKey day) (a.counterTtl t day))).Spares keys := h
      refine .call hexpire fun o => ?_
      rcases o with i | e | b
      · exact hfinish token _
      · exact hfinish token _
      · exact hfinish token _

theorem Allocator.asks_allocateToday {a : Allocator} (h : ∀ day, ¬ keys (a.counterKey day)) :
    (a.allocateToday ctx).Asks ids (Call.Spares keys) := by
  refine .now fun t => ?_
  split
  · exact a.asks_allocate (h _)
  · exact .crash

theorem Tokens.asks_ask {c : StoreCall} (hc : (Call.store c).Spares keys) :
    (Tokens.ask ctx c).run.Asks ids (Call.Spares keys) := .call hc fun _ => .done _

theorem Tokens.asks_record {subject : Subject} {p : TokenPair} (ha : ¬ keys p.accessId)
    (hr : ¬ keys p.refreshId) : (Tokens.record ctx subject p).run.Asks ids (Call.Spares keys) := by
  have hclock : Tokens.clock.run.Asks ids (Call.Spares keys) := .now fun _ => .done _
  refine hclock.run_bind fun t => ?_
  refine Flow.Asks.run_bind (Tokens.asks_ask ha) fun access => ?_
  refine Flow.Asks.run_bind (Tokens.asks_ask hr) fun refresh => ?_
  cases access with
  | false => exact .done _
  | true =>
    cases refresh with
    | false => exact .done _
    | true => exact .done _

theorem Tokens.asks_resolve (id : String) :
    (Tokens.resolve ctx id).run.Asks ids (Call.Spares keys) := by
  have hget : (Call.store (.get id)).Spares keys := trivial
  refine Flow.Asks.run_bind (Tokens.asks_ask hget) fun value => ?_
  cases value with
  | none => exact .done _
  | some name => exact .done _

theorem Tokens.asks_revokeOne (id : String) :
    (Tokens.revokeOne ctx id).run.Asks ids (Call.Spares keys) := by
  have hdel : (Call.store (.del [id])).Spares keys := trivial
  exact Tokens.asks_ask hdel

theorem Tokens.asks_revoke (access : Access) :
    (Tokens.revoke ctx access).run.Asks ids (Call.Spares keys) := by
  refine (Tokens.asks_revokeOne access.accessId).run_bind fun m => ?_
  refine (Tokens.asks_revokeOne access.refreshId).run_bind fun n => ?_
  split
  · exact .done _
  · exact .done _

namespace Accounts

theorem asks_expiry (t : Clock) (ttl : Span) : (expiry t ttl).run.Asks ids (Call.Spares keys) := by
  unfold expiry
  split
  · exact .done _
  · exact .crash

theorem asks_login (hids : ∀ n, ¬ keys (ids n)) (a : Accounts) (subject : Subject) :
    (a.login ctx subject).run.Asks ids (Call.Spares keys) := by
  have hclock : clock.run.Asks ids (Call.Spares keys) := .now fun _ => .done _
  refine hclock.run_bind fun t => ?_
  -- The identifiers are looked at as they are minted, so each bind is opened by hand.
  refine Flow.Asks.mint fun m => ?_
  refine Flow.Asks.mint fun n => ?_
  refine (asks_expiry t a.terms.access).run_bind fun access => ?_
  refine (asks_expiry t a.terms.refresh).run_bind fun refresh => ?_
  refine Flow.Asks.run_bind (Flow.Asks.adapt (Tokens.asks_record (hids m) (hids n))) fun _ => ?_
  exact .done _

theorem asks_register {a : Accounts} (h : ∀ day, ¬ keys (a.allocator.counterKey day)) :
    (a.register ctx).run.Asks ids (Call.Spares keys) := by
  have hid : (ExceptT.mk (a.allocator.allocateToday ctx)).run.Asks ids (Call.Spares keys) :=
    a.allocator.asks_allocateToday h
  exact Flow.Asks.run_bind (.adapt hid) fun id => .done _

theorem asks_decoded {α : Type} (r : Except TokenRefusal α) :
    (decoded r).run.Asks ids (Call.Spares keys) := .done _

theorem asks_confirm (id : String) (claimed : Subject) :
    (confirm ctx id claimed).run.Asks ids (Call.Spares keys) := by
  refine Flow.Asks.run_bind (Flow.Asks.adapt (Tokens.asks_resolve id)) fun subject => ?_
  split
  · exact .done _
  · exact .done _

theorem asks_authenticate (token : String) :
    (authenticate ctx token).run.Asks ids (Call.Spares keys) := by
  have hclock : clock.run.Asks ids (Call.Spares keys) := .now fun _ => .done _
  refine hclock.run_bind fun t => (asks_decoded _).run_bind fun claims => ?_
  exact (asks_confirm _ _).run_bind fun subject => .done _

theorem asks_logout (token : String) : (logout ctx token).run.Asks ids (Call.Spares keys) :=
  (asks_authenticate token).run_bind fun access => .adapt (Tokens.asks_revoke access)

theorem asks_refresh (hids : ∀ n, ¬ keys (ids n)) (a : Accounts) (token : String) :
    (a.refresh ctx token).run.Asks ids (Call.Spares keys) := by
  have hclock : clock.run.Asks ids (Call.Spares keys) := .now fun _ => .done _
  refine hclock.run_bind fun t => (asks_decoded _).run_bind fun claims => ?_
  refine (asks_confirm _ _).run_bind fun subject => ?_
  refine Flow.Asks.run_bind (.adapt (Tokens.asks_revokeOne _)) fun removed => ?_
  split
  · exact asks_login hids a subject
  · exact .done _

end Accounts

end

end Registrar
