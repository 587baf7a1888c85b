import Registrar.Proofs.Crowd.Heed
import Registrar.Proofs.Mint
/-!
The outcome of one allocation, whatever its calls meet with. It asks for the lock, counts, renews
the expiry and gives the lock back, each once at most and in this order, and what it comes to is read
off what these calls came to. Main statement: `Crowd.allocation_accounted`.
-/
set_option autoImplicit false

namespace Registrar

def Call.frees : Call → Bool
  | .unlock _ => true
  | .store _ | .lock _ _ | .pause _ => false

/-- What the calls of an allocation can come to: an interruption or an answer, and at the release an
answer or nothing in time. -/
inductive CallResult where
  | locked (name : String) (o : Except Interrupted (Except LockError LockToken))
  | counted (key : String) (o : Except Interrupted (Except StoreError Int))
  | renewed (key : String) (ttl : Span) (o : Except Interrupted (Except StoreError Bool))
  | freed (token : LockToken) (o : Option (Except LockError Bool))

namespace CallResult

def of? : (g : Guard) → (c : Call) → g.Outcome c.Answer → Option CallResult
  | .under _, .lock name false, o => some (.locked name o)
  | .under _, .store (.incr key), o => some (.counted key o)
  | .under _, .store (.expire key ttl), o => some (.renewed key ttl o)
  | .within _, .unlock token, o => some (.freed token o)
  | _, _, _ => none

def interruption? : CallResult → Option Interrupted
  | .locked _ (.error e) | .counted _ (.error e) | .renewed _ _ (.error e) => some e
  | .locked _ (.ok _) | .counted _ (.ok _) | .renewed _ _ (.ok _) | .freed _ _ => none

end CallResult

def Dealing.callResult? : Dealing → Option (World × CallResult)
  | .ended w g c o => (CallResult.of? g c o).map (w, ·)
  | .begun _ _ | .asked _ => none

def EndedIn (t : List Dealing) (w : World) (x : CallResult) : Prop :=
  ∃ d ∈ t, d.callResult? = some (w, x)

def Ended (t : List Dealing) (x : CallResult) : Prop := ∃ w, EndedIn t w x

def leg (v w : World) (cs : List Call) (g : Guard) (c : Call) (o : g.Outcome c.Answer) :
    List Dealing :=
  .begun v c :: (cs.map .asked ++ [.ended w g c o])

section

variable {v w u : World} {cs : List Call} {g : Guard} {c d : Call} {o : g.Outcome c.Answer}
  {t s : List Dealing} {x : CallResult}

theorem leg_append (v w : World) (cs : List Call) (g : Guard) (c : Call) (o : g.Outcome c.Answer)
    (t : List Dealing) :
    .begun v c :: (cs.map .asked ++ .ended w g c o :: t) = leg v w cs g c o ++ t := by
  simp [leg]

theorem asked_append (t s : List Dealing) : asked (t ++ s) = asked t ++ asked s :=
  List.filterMap_append

theorem mem_asked : c ∈ asked t ↔ .asked c ∈ t := by
  simp only [asked, List.mem_filterMap]
  constructor
  · intro ⟨d, hd, hc⟩
    cases d <;> cases hc
    exact hd
  · exact fun h => ⟨_, h, rfl⟩

theorem behind {d : Dealing} {before later : List Dealing} (h : t ++ s = before ++ d :: later)
    (hd : d ∉ t) : ∃ r, before = t ++ r := by
  obtain ⟨r, hr, -⟩ | ⟨r, rfl, hr⟩ := List.append_eq_append_iff.1 h
  · exact ⟨r, hr⟩
  · cases r with
    | nil => exact ⟨[], by simp⟩
    | cons e r =>
      cases hr
      exact absurd (by simp) hd

theorem asked_leg : asked (leg v w cs g c o) = cs := by
  have h : ∀ cs : List Call, asked (cs.map .asked) = cs := by
    intro cs
    induction cs with
    | nil => rfl
    | cons c cs ih => exact congrArg (c :: ·) ih
  change asked (cs.map .asked ++ [.ended w g c o]) = cs
  rw [asked_append, h]
  exact List.append_nil cs

@[simp] theorem endedIn_append : EndedIn (t ++ s) w x ↔ EndedIn t w x ∨ EndedIn s w x := by
  simp [EndedIn, or_and_right, exists_or]

theorem ended_append : Ended (t ++ s) x ↔ Ended t x ∨ Ended s x := by
  simp [Ended, endedIn_append, exists_or]

theorem endedIn_leg : EndedIn (leg v w cs g c o) u x ↔ u = w ∧ CallResult.of? g c o = some x := by
  constructor
  · intro ⟨d, hd, hx⟩
    simp only [leg, List.mem_cons, List.mem_append, List.mem_map, List.not_mem_nil, or_false] at hd
    obtain rfl | ⟨c, -, rfl⟩ | rfl := hd
    · cases hx
    · cases hx
    · obtain ⟨y, hy, he⟩ := Option.map_eq_some_iff.1 hx
      cases he
      exact ⟨rfl, hy⟩
  · intro ⟨hu, hx⟩
    exact ⟨.ended w g c o, by simp [leg], by simp [Dealing.callResult?, hx, hu]⟩

theorem endedIn_leg_of {y : CallResult} (h : CallResult.of? g c o = some y) :
    EndedIn (leg v w cs g c o) u x ↔ u = w ∧ x = y := by
  rw [endedIn_leg, h]
  simp [eq_comm]

end

namespace Allocator

variable (a : Allocator) (ctx : Context) (day : Day)

def Granted (t : List Dealing) (token : LockToken) : Prop :=
  Ended t (.locked a.lockName (.ok (.ok token)))

/-- The lock was granted, the counter is at this number, and its expiry was renewed. -/
def CameBy (t : List Dealing) (token : LockToken) (n : Int) : Prop :=
  a.Granted t token ∧ Ended t (.counted (a.counterKey day) (.ok (.ok n))) ∧
    ∃ ttl b, Ended t (.renewed (a.counterKey day) ttl (.ok (.ok b)))

/-- What an allocation has dealt with accounts for what it comes to. -/
structure Accounted (t : List Dealing) (r : Except AllocError Identifier) : Prop where
  course : ∃ ttl token, (asked t).Sublist [.lock a.lockName false,
    .store (.incr (a.counterKey day)), .store (.expire (a.counterKey day) ttl), .unlock token]
  renews_after : ∀ before later key ttl, t = before ++ .asked (.store (.expire key ttl)) :: later →
    ∃ n, Ended before (.counted (a.counterKey day) (.ok (.ok n)))
  frees_once : ∀ token, a.Granted t token ↔ (asked t).filter Call.frees = [.unlock token]
  frees_only : (∀ token, ¬ a.Granted t token) → (asked t).filter Call.frees = []
  ok_iff : ∀ id, r = .ok id ↔ ∃ token n, a.CameBy day t token n ∧ 0 ≤ n ∧
    Ended t (.freed token (some (.ok true))) ∧ id = ⟨day, n.toNat⟩
  releaseFailed_iff : ∀ id reason, r = .error (.releaseFailed id reason) ↔
    ∃ token n, a.CameBy day t token n ∧ 0 ≤ n ∧ id = ⟨day, n.toNat⟩ ∧
      (Ended t (.freed token (some (.ok false))) ∧ reason = .notHeld ∨
        (∃ e, Ended t (.freed token (some (.error e))) ∧ reason = .failed e) ∨
        Ended t (.freed token none) ∧ reason = .timedOut)
  lockUnavailable_iff : ∀ e, r = .error (.lockUnavailable e) ↔
    Ended t (.locked a.lockName (.ok (.error e)))
  storeUnavailable_iff : ∀ e, r = .error (.storeUnavailable e) ↔
    Ended t (.counted (a.counterKey day) (.ok (.error e))) ∨
      ∃ ttl, Ended t (.renewed (a.counterKey day) ttl (.ok (.error e)))
  negativeCounter_iff : ∀ key, r = .error (.negativeCounter key) ↔
    key = a.counterKey day ∧ ∃ token n, a.CameBy day t token n ∧ n < 0
  interrupted_iff : ∀ e, r = .error (.interrupted e) ↔ ∃ x, Ended t x ∧ x.interruption? = some e
  interrupted : ∀ w x e, EndedIn t w x → x.interruption? = some e →
    ctx.interruption? w.signals w.now = some e
  lapsed : ∀ w token, EndedIn t w (.freed token none) →
    ∃ v, .begun v (.unlock token) ∈ t ∧ v.now.after a.releaseLimit ≤ w.now

/-- The unlock was answered with this, and no later than the release limit allows. -/
def FreedInTime (t : List Dealing) (token : LockToken) (x : Except LockError Bool) : Prop :=
  ∃ v w, .begun v (.unlock token) ∈ t ∧ EndedIn t w (.freed token (some x)) ∧
    w.now ≤ v.now.after a.releaseLimit

def Unanswered (t : List Dealing) (token : LockToken) : Prop :=
  ∃ v w, .begun v (.unlock token) ∈ t ∧ EndedIn t w (.freed token none) ∧
    w.now = v.now.after a.releaseLimit

/-- Whether an identifier is confirmed is a matter of what the unlock answers within its limit. -/
structure ReleasedInTime (t : List Dealing) (r : Except AllocError Identifier) : Prop where
  ok_iff : ∀ id, r = .ok id ↔ ∃ token n, a.CameBy day t token n ∧ 0 ≤ n ∧
    a.FreedInTime t token (.ok true) ∧ id = ⟨day, n.toNat⟩
  releaseFailed_iff : ∀ id reason, r = .error (.releaseFailed id reason) ↔
    ∃ token n, a.CameBy day t token n ∧ 0 ≤ n ∧ id = ⟨day, n.toNat⟩ ∧
      (a.FreedInTime t token (.ok false) ∧ reason = .notHeld ∨
        (∃ e, a.FreedInTime t token (.error e) ∧ reason = .failed e) ∨
        a.Unanswered t token ∧ reason = .timedOut)

def locking (v w : World) (cs : List Call) (o : Except Interrupted (Except LockError LockToken)) :
    List Dealing := leg v w cs (.under ctx) (.lock a.lockName false) o

def counting (v w : World) (cs : List Call) (o : Except Interrupted (Except StoreError Int)) :
    List Dealing := leg v w cs (.under ctx) (.store (.incr (a.counterKey day))) o

def renewing (v w : World) (cs : List Call) (ttl : Span)
    (o : Except Interrupted (Except StoreError Bool)) : List Dealing :=
  leg v w cs (.under ctx) (.store (.expire (a.counterKey day) ttl)) o

def freeing (v w : World) (token : LockToken) (o : Option (Except LockError Bool)) :
    List Dealing := leg v w [.unlock token] (.within a.releaseLimit) (.unlock token) o

section

variable {a : Allocator} {ctx : Context} {day : Day} {v w u : World} {cs : List Call}
    {x : CallResult}

@[simp] theorem asked_locking {o : Except Interrupted (Except LockError LockToken)} :
    asked (a.locking ctx v w cs o) = cs := asked_leg

@[simp] theorem asked_counting {o : Except Interrupted (Except StoreError Int)} :
    asked (a.counting ctx day v w cs o) = cs := asked_leg

@[simp] theorem asked_renewing {ttl : Span} {o : Except Interrupted (Except StoreError Bool)} :
    asked (a.renewing ctx day v w cs ttl o) = cs := asked_leg

@[simp] theorem asked_freeing {token : LockToken} {o : Option (Except LockError Bool)} :
    asked (a.freeing v w token o) = [.unlock token] := asked_leg

@[simp] theorem endedIn_locking {o : Except Interrupted (Except LockError LockToken)} :
    EndedIn (a.locking ctx v w cs o) u x ↔ u = w ∧ x = .locked a.lockName o :=
  endedIn_leg_of rfl

@[simp] theorem endedIn_counting {o : Except Interrupted (Except StoreError Int)} :
    EndedIn (a.counting ctx day v w cs o) u x ↔ u = w ∧ x = .counted (a.counterKey day) o :=
  endedIn_leg_of rfl

@[simp] theorem endedIn_renewing {ttl : Span} {o : Except Interrupted (Except StoreError Bool)} :
    EndedIn (a.renewing ctx day v w cs ttl o) u x ↔
      u = w ∧ x = .renewed (a.counterKey day) ttl o :=
  endedIn_leg_of rfl

@[simp] theorem endedIn_freeing {token : LockToken} {o : Option (Except LockError Bool)} :
    EndedIn (a.freeing v w token o) u x ↔ u = w ∧ x = .freed token o :=
  endedIn_leg_of rfl

end

/-- The dealings between the grant and the release, and what they come to. -/
inductive Counting : List Dealing → Except AllocError Nat → Prop where
  | barred {v w : World} {cs : List Call} {e : Interrupted}
      (he : ctx.interruption? w.signals w.now = some e)
      (hcs : cs = [.store (.incr (a.counterKey day))] ∨ cs = []) :
      Counting (a.counting ctx day v w cs (.error e)) (.error (.interrupted e))
  | failed {v w : World} {e : StoreError} :
      Counting (a.counting ctx day v w [.store (.incr (a.counterKey day))] (.ok (.error e)))
        (.error (.storeUnavailable e))
  | barredLater {v w v' w' : World} {n : Int} {ttl : Span} {cs : List Call} {e : Interrupted}
      (he : ctx.interruption? w'.signals w'.now = some e)
      (hcs : cs = [.store (.expire (a.counterKey day) ttl)] ∨ cs = []) :
      Counting (a.counting ctx day v w [.store (.incr (a.counterKey day))] (.ok (.ok n)) ++
        a.renewing ctx day v' w' cs ttl (.error e)) (.error (.interrupted e))
  | failedLater {v w v' w' : World} {n : Int} {ttl : Span} {e : StoreError} :
      Counting (a.counting ctx day v w [.store (.incr (a.counterKey day))] (.ok (.ok n)) ++
        a.renewing ctx day v' w' [.store (.expire (a.counterKey day) ttl)] ttl (.ok (.error e)))
        (.error (.storeUnavailable e))
  | counted {v w v' w' : World} {n : Int} {ttl : Span} {b : Bool} :
      Counting (a.counting ctx day v w [.store (.incr (a.counterKey day))] (.ok (.ok n)) ++
        a.renewing ctx day v' w' [.store (.expire (a.counterKey day) ttl)] ttl (.ok (.ok b)))
        (a.number day n)

inductive Way (R : Guard → Tick → World → Prop) :
    List Dealing → Except AllocError Identifier → Prop where
  | barred {v w : World} {cs : List Call} {e : Interrupted}
      (he : ctx.interruption? w.signals w.now = some e)
      (hcs : cs = [.lock a.lockName false] ∨ cs = []) :
      Way R (a.locking ctx v w cs (.error e)) (.error (.interrupted e))
  | refused {v w : World} {e : LockError} :
      Way R (a.locking ctx v w [.lock a.lockName false] (.ok (.error e)))
        (.error (.lockUnavailable e))
  | granted {v w v' w' : World} {token : LockToken} {t : List Dealing}
      {counted : Except AllocError Nat} {o : Option (Except LockError Bool)}
      (ht : Counting a ctx day t counted)
      (ho : o = none → v'.now.after a.releaseLimit ≤ w'.now)
      (hr : R (.within a.releaseLimit) (v'.now.after a.releaseLimit) w') :
      Way R (a.locking ctx v w [.lock a.lockName false] (.ok (.ok token)) ++
        (t ++ a.freeing v' w' token o)) (settle day counted (releaseFailure? o))

variable {a ctx day} {R : Guard → Tick → World → Prop} {t u : List Dealing}
  {r : Except AllocError Identifier} {counted : Except AllocError Nat}

theorem over_under {c : Call} {v w : World} {o : (Guard.under ctx).Outcome c.Answer}
    {cs : List Call} (ho : w.Over (v.lapse (.under ctx)) (.under ctx) c o)
    (hc : c.Asked (.under ctx) w o cs) :
    (∃ e, o = .error e ∧ ctx.interruption? w.signals w.now = some e ∧ (cs = c.noted ∨ cs = [])) ∨
      ∃ x, o = .ok x ∧ cs = c.noted := by
  rcases ho with ho | ⟨x, rfl⟩ | ho
  · obtain ⟨e, he, rfl⟩ := Option.map_eq_some_iff.1 ho
    exact .inl ⟨e, rfl, he, hc.imp id And.left⟩
  · refine .inr ⟨x, rfl, hc.resolve_right fun h => ?_⟩
    obtain ⟨e, -, he⟩ := Option.map_eq_some_iff.1 h.2
    cases he
  · cases ho

theorem tells_finish {token : LockToken} (h : (a.finish day token counted).Tells R t r) :
    ∃ v w o, t = a.freeing v w token o ∧ r = settle day counted (releaseFailure? o) ∧
      (o = none → v.now.after a.releaseLimit ≤ w.now) ∧
      R (.within a.releaseLimit) (v.now.after a.releaseLimit) w := by
  cases h with
  | @call _ _ _ _ _ _ v w o cs ho hr hc h =>
    cases h
    have hcs : cs = [.unlock token] := hc.resolve_right (by simp [World.before])
    subst hcs
    refine ⟨v, w, o, rfl, rfl, ?_, hr⟩
    rintro rfl
    rcases ho with ho | ⟨x, ho⟩ | ho
    · cases ho
    · cases ho
    · simp only [World.after] at ho
      split at ho
      · assumption
      · cases ho

theorem tells_expire {token : LockToken} {n : Int} {ttl : Span}
    (h : (Flow.call (.under ctx) (.store (.expire (a.counterKey day) ttl)) (some (a.held token))
      (a.afterExpire day token n)).Tells R t r) :
    ∃ v w cs o u counted, (a.finish day token counted).Tells R u r ∧
      t = a.renewing ctx day v w cs ttl o ++ u ∧
      ∀ v' w', Counting a ctx day (a.counting ctx day v' w' [.store (.incr (a.counterKey day))]
        (.ok (.ok n)) ++ a.renewing ctx day v w cs ttl o) counted := by
  cases h with
  | @call _ _ _ _ u _ v w o cs ho _ hc h =>
    rcases over_under ho hc with ⟨e, rfl, he, hcs⟩ | ⟨x, rfl, rfl⟩
    · exact ⟨v, w, cs, _, u, _, h, leg_append .., fun _ _ => .barredLater he hcs⟩
    · cases x with
      | error e => exact ⟨v, w, _, _, u, _, h, leg_append .., fun _ _ => .failedLater⟩
      | ok b => exact ⟨v, w, _, _, u, _, h, leg_append .., fun _ _ => .counted (b := b)⟩

theorem tells_incr {token : LockToken}
    (h : (Flow.call (.under ctx) (.store (.incr (a.counterKey day))) (some (a.held token))
      (a.afterIncr ctx day token)).Tells R t r) :
    ∃ u t' counted, (a.finish day token counted).Tells R t' r ∧ t = u ++ t' ∧
      Counting a ctx day u counted := by
  cases h with
  | @call _ _ _ _ t' _ v w o cs ho _ hc h =>
    rcases over_under ho hc with ⟨e, rfl, he, hcs⟩ | ⟨x, rfl, rfl⟩
    · exact ⟨a.counting ctx day v w cs (.error e), t', _, h, leg_append .., .barred he hcs⟩
    · cases x with
      | error e =>
        exact ⟨a.counting ctx day v w _ (.ok (.error e)), t', _, h, leg_append .., .failed⟩
      | ok n =>
        cases h with
        | now clock h =>
          obtain ⟨v', w', cs, o, u, counted, hf, rfl, hcount⟩ := tells_expire h
          refine ⟨_, u, counted, hf, ?_, hcount v w⟩
          rw [List.append_assoc]
          exact leg_append ..

theorem way_of_tells (h : (a.allocate ctx day).Tells R t r) : Way a ctx day R t r := by
  cases h with
  | @call _ _ _ _ t' _ v w o cs ho _ hc h =>
    rcases over_under ho hc with ⟨e, rfl, he, hcs⟩ | ⟨x, rfl, rfl⟩
    · cases h
      exact .barred he hcs
    · cases x with
      | error e =>
        cases h
        exact .refused
      | ok token =>
        obtain ⟨u, t'', counted, hf, rfl, hcount⟩ := tells_incr h
        obtain ⟨v', w', o, rfl, rfl, hl, hr⟩ := tells_finish hf
        exact (leg_append ..).symm ▸ Way.granted (v := v) (w := w) hcount hl hr

namespace Counting

theorem ended (h : Counting a ctx day u counted) {w : World} {x : CallResult} (hx : EndedIn u w x) :
    (∃ o, x = .counted (a.counterKey day) o) ∨ ∃ ttl o, x = .renewed (a.counterKey day) ttl o := by
  cases h <;> simp at hx <;> grind

theorem sublist (h : Counting a ctx day u counted) :
    ∃ ttl, (asked u).Sublist
      [.store (.incr (a.counterKey day)), .store (.expire (a.counterKey day) ttl)] := by
  cases h with
  | barred he hcs => exact ⟨0, by rcases hcs with rfl | rfl <;> simp⟩
  | failed => exact ⟨0, by simp⟩
  | @barredLater v w v' w' n ttl cs e he hcs =>
    exact ⟨ttl, by rcases hcs with rfl | rfl <;> simp [asked_append]⟩
  | @failedLater v w v' w' n ttl e => exact ⟨ttl, by simp [asked_append]⟩
  | @counted v w v' w' n ttl b => exact ⟨ttl, by simp [asked_append]⟩

theorem ok_iff (h : Counting a ctx day u counted) (k : Nat) : counted = .ok k ↔
    ∃ n, Ended u (.counted (a.counterKey day) (.ok (.ok n))) ∧
      (∃ ttl b, Ended u (.renewed (a.counterKey day) ttl (.ok (.ok b)))) ∧ 0 ≤ n ∧ k = n.toNat := by
  cases h with
  | @counted v w v' w' n ttl b =>
    by_cases hn : n < 0
    · simp [Ended, number, hn, Int.not_le.2 hn]
    · simp only [number, if_neg hn]
      simp [Ended, eq_comm, Int.not_lt.1 hn]
  | _ => simp [Ended]

theorem negative_iff (h : Counting a ctx day u counted) (key : String) :
    counted = .error (.negativeCounter key) ↔ key = a.counterKey day ∧
      ∃ n, Ended u (.counted (a.counterKey day) (.ok (.ok n))) ∧
        (∃ ttl b, Ended u (.renewed (a.counterKey day) ttl (.ok (.ok b)))) ∧ n < 0 := by
  cases h with
  | @counted v w v' w' n ttl b => by_cases hn : n < 0 <;> simp [Ended, number, hn, eq_comm]
  | _ => simp [Ended]

theorem failed_iff (h : Counting a ctx day u counted) (e : StoreError) :
    counted = .error (.storeUnavailable e) ↔
      Ended u (.counted (a.counterKey day) (.ok (.error e))) ∨
        ∃ ttl, Ended u (.renewed (a.counterKey day) ttl (.ok (.error e))) := by
  cases h with
  | @counted v w v' w' n ttl b => by_cases hn : n < 0 <;> simp [Ended, number, hn]
  | _ => simp [Ended, eq_comm]

theorem interrupted_iff (h : Counting a ctx day u counted) (e : Interrupted) :
    counted = .error (.interrupted e) ↔ ∃ x, Ended u x ∧ x.interruption? = some e := by
  cases h with
  | @counted v w v' w' n ttl b =>
    by_cases hn : n < 0 <;> simp [Ended, number, hn, exists_or, or_and_right, CallResult.interruption?]
  | _ => simp [Ended, exists_or, or_and_right, CallResult.interruption?]

end Counting

theorem settle_ok_iff {failure : Option ReleaseFailure} {id : Identifier} :
    settle day counted failure = .ok id ↔
      failure = none ∧ ∃ k, counted = .ok k ∧ id = ⟨day, k⟩ := by
  cases counted <;> cases failure <;> simp [settle, eq_comm]

theorem settle_error {e : AllocError} (he : ∀ id reason, e ≠ .releaseFailed id reason)
    {failure : Option ReleaseFailure} :
    settle day counted failure = .error e ↔ counted = .error e := by
  cases counted <;> cases failure <;> simp [settle, Ne.symm (he _ _)]

theorem releaseFailure?_none {o : Option (Except LockError Bool)} :
    releaseFailure? o = none ↔ o = some (.ok true) := by
  rcases o with _ | ⟨e⟩ | ⟨_ | _⟩ <;> simp [releaseFailure?]

theorem releaseFailure?_some {o : Option (Except LockError Bool)} {reason : ReleaseFailure} :
    releaseFailure? o = some reason ↔ o = some (.ok false) ∧ reason = .notHeld ∨
      (∃ e, o = some (.error e) ∧ reason = .failed e) ∨ o = none ∧ reason = .timedOut := by
  rcases o with _ | ⟨e⟩ | ⟨_ | _⟩ <;> simp [releaseFailure?, eq_comm]

theorem Counting.releaseFailed_iff (h : Counting a ctx day u counted)
    {failure : Option ReleaseFailure} {id : Identifier} {reason : ReleaseFailure} :
    settle day counted failure = .error (.releaseFailed id reason) ↔
      failure = some reason ∧ ∃ k, counted = .ok k ∧ id = ⟨day, k⟩ := by
  cases h with
  | @counted v w v' w' n ttl b =>
    by_cases hn : n < 0 <;> cases failure <;> simp [settle, number, hn, eq_comm, and_comm]
  | _ => simp [settle]

namespace Counting

variable {v w v' w' : World} {token : LockToken} {o : Option (Except LockError Bool)}

theorem renews (h : Counting a ctx day u counted) :
    (∀ key ttl, .store (.expire key ttl) ∉ asked u) ∨
      ∃ t s n, u = t ++ s ∧ (∀ key ttl, .store (.expire key ttl) ∉ asked t) ∧
        Ended t (.counted (a.counterKey day) (.ok (.ok n))) := by
  cases h with
  | barred he hcs => exact .inl (by rcases hcs with rfl | rfl <;> simp)
  | failed => exact .inl (by simp)
  | barredLater => exact .inr ⟨_, _, _, rfl, by simp, _, endedIn_counting.2 ⟨rfl, rfl⟩⟩
  | failedLater => exact .inr ⟨_, _, _, rfl, by simp, _, endedIn_counting.2 ⟨rfl, rfl⟩⟩
  | counted => exact .inr ⟨_, _, _, rfl, by simp, _, endedIn_counting.2 ⟨rfl, rfl⟩⟩

theorem frees (h : Counting a ctx day u counted) : (asked u).filter Call.frees = [] := by
  cases h with
  | barred he hcs => rcases hcs with rfl | rfl <;> simp [Call.frees]
  | barredLater he hcs => rcases hcs with rfl | rfl <;> simp [asked_append, Call.frees]
  | _ => simp [asked_append, Call.frees]

theorem interrupted (h : Counting a ctx day u counted) {x : CallResult} {e : Interrupted}
    (hx : EndedIn u w x) (he : x.interruption? = some e) :
    ctx.interruption? w.signals w.now = some e := by
  cases h with
  | barred hi =>
    obtain ⟨rfl, rfl⟩ := endedIn_counting.1 hx
    cases he
    exact hi
  | failed =>
    obtain ⟨rfl, rfl⟩ := endedIn_counting.1 hx
    cases he
  | barredLater hi =>
    simp only [endedIn_append, endedIn_counting, endedIn_renewing] at hx
    obtain ⟨rfl, rfl⟩ | ⟨rfl, rfl⟩ := hx <;> cases he
    exact hi
  | failedLater | counted =>
    simp only [endedIn_append, endedIn_counting, endedIn_renewing] at hx
    obtain ⟨rfl, rfl⟩ | ⟨rfl, rfl⟩ := hx <;> cases he

theorem ne_lockUnavailable (h : Counting a ctx day u counted) (e : LockError) :
    counted ≠ .error (.lockUnavailable e) := by
  cases h with
  | @counted v w v' w' n ttl b => by_cases hn : n < 0 <;> simp [number, hn]
  | _ => simp

section

variable (v w v' w' token o)

theorem granted_iff (h : Counting a ctx day u counted) (token' : LockToken) :
    a.Granted (a.locking ctx v w [.lock a.lockName false] (.ok (.ok token)) ++
      (u ++ a.freeing v' w' token o)) token' ↔ token' = token := by
  have hu : ∀ x l, ¬ EndedIn u x (.locked a.lockName l) := fun x l hx => by simpa using h.ended hx
  simp [Granted, Ended, hu]

theorem freed_iff (h : Counting a ctx day u counted) (l : Option (Except LockError Bool)) :
    Ended (a.locking ctx v w [.lock a.lockName false] (.ok (.ok token)) ++
      (u ++ a.freeing v' w' token o)) (.freed token l) ↔ o = l := by
  have hu : ∀ x, ¬ EndedIn u x (.freed token l) := fun x hx => by simpa using h.ended hx
  simp [Ended, hu, eq_comm]

theorem counted_iff (h : Counting a ctx day u counted) (token' : LockToken) (n : Int) :
    a.CameBy day (a.locking ctx v w [.lock a.lockName false] (.ok (.ok token)) ++
      (u ++ a.freeing v' w' token o)) token' n ↔
      token' = token ∧ Ended u (.counted (a.counterKey day) (.ok (.ok n))) ∧
        ∃ ttl b, Ended u (.renewed (a.counterKey day) ttl (.ok (.ok b))) := by
  rw [CameBy, h.granted_iff]
  simp [Ended]

end

theorem accounted (h : Counting a ctx day u counted)
    (ho : o = none → v'.now.after a.releaseLimit ≤ w'.now) :
    a.Accounted ctx day (a.locking ctx v w [.lock a.lockName false] (.ok (.ok token)) ++
      (u ++ a.freeing v' w' token o)) (settle day counted (releaseFailure? o)) where
  course := by
    obtain ⟨ttl, hs⟩ := h.sublist
    refine ⟨ttl, token, ?_⟩
    simp only [asked_append, asked_locking, asked_freeing]
    exact (List.Sublist.refl [_]).append (hs.append (List.Sublist.refl [_]))
  renews_after before later key ttl ht := by
    rcases h.renews with hn | ⟨t, s, n, rfl, hn, hc⟩
    · have hmem := mem_asked.2 (ht ▸ List.mem_append_right before List.mem_cons_self)
      simp [asked_append, hn] at hmem
    · rw [List.append_assoc, ← List.append_assoc] at ht
      obtain ⟨r, rfl⟩ := behind ht (by simp [← mem_asked, hn])
      exact ⟨n, ended_append.2 (.inl (ended_append.2 (.inr hc)))⟩
  frees_once token' := by
    rw [h.granted_iff]
    simp [asked_append, h.frees, List.filter_cons, Call.frees, eq_comm]
  frees_only hn := absurd ((h.granted_iff v w v' w' token o token).2 rfl) (hn token)
  ok_iff id := by
    simp only [settle_ok_iff, releaseFailure?_none, h.ok_iff, h.counted_iff]
    constructor
    · rintro ⟨rfl, k, ⟨n, hn, hb, h0, rfl⟩, rfl⟩
      exact ⟨token, n, ⟨rfl, hn, hb⟩, h0, (h.freed_iff ..).2 rfl, rfl⟩
    · rintro ⟨_, n, ⟨rfl, hn, hb⟩, h0, ho, rfl⟩
      exact ⟨(h.freed_iff ..).1 ho, _, ⟨n, hn, hb, h0, rfl⟩, rfl⟩
  releaseFailed_iff id reason := by
    simp only [h.releaseFailed_iff, releaseFailure?_some, h.ok_iff, h.counted_iff]
    constructor
    · rintro ⟨hr, k, ⟨n, hn, hb, h0, rfl⟩, rfl⟩
      exact ⟨token, n, ⟨rfl, hn, hb⟩, h0, rfl, by simpa only [h.freed_iff] using hr⟩
    · rintro ⟨_, n, ⟨rfl, hn, hb⟩, h0, rfl, hr⟩
      exact ⟨by simpa only [h.freed_iff] using hr, _, ⟨n, hn, hb, h0, rfl⟩, rfl⟩
  lockUnavailable_iff e := by
    have hu : ∀ x l, ¬ EndedIn u x (.locked a.lockName l) := fun x l hx => by
      simpa using h.ended hx
    rw [settle_error (by simp)]
    simp [Ended, hu, h.ne_lockUnavailable]
  storeUnavailable_iff e := by
    rw [settle_error (by simp), h.failed_iff]
    simp [Ended]
  negativeCounter_iff key := by
    rw [settle_error (by simp), h.negative_iff]
    simp only [h.counted_iff]
    simp [and_assoc]
  interrupted_iff e := by
    rw [settle_error (by simp), h.interrupted_iff]
    simp [Ended, or_and_right, exists_or, CallResult.interruption?]
  interrupted x y e hy he := by
    simp only [endedIn_append, endedIn_locking, endedIn_freeing] at hy
    obtain ⟨rfl, rfl⟩ | hy | ⟨rfl, rfl⟩ := hy
    · cases he
    · exact h.interrupted hy he
    · cases he
  lapsed x token' hx := by
    have hu : ¬ EndedIn u x (.freed token' none) := fun hx => by simpa using h.ended hx
    simp only [endedIn_append, endedIn_locking, endedIn_freeing, hu] at hx
    obtain ⟨-, hx⟩ | hx | ⟨rfl, hx⟩ := hx
    · cases hx
    · exact hx.elim
    · cases hx
      exact ⟨v', by simp [freeing, leg], ho rfl⟩

end Counting

section

variable {v w : World} {cs : List Call} {l : Except Interrupted (Except LockError LockToken)}

theorem accounted_of_not_granted (hl : ∀ token, l ≠ .ok (.ok token))
    (hcs : cs = [.lock a.lockName false] ∨ cs = [])
    (hi : ∀ e, l = .error e → ctx.interruption? w.signals w.now = some e)
    (hr : (∃ e, l = .error e ∧ r = .error (.interrupted e)) ∨
      ∃ e, l = .ok (.error e) ∧ r = .error (.lockUnavailable e)) :
    a.Accounted ctx day (a.locking ctx v w cs l) r where
  course := ⟨0, ⟨"", .issued 0⟩, by rcases hcs with rfl | rfl <;> simp⟩
  renews_after before later key ttl ht := by
    have hmem := mem_asked.2 (ht ▸ List.mem_append_right before List.mem_cons_self)
    rcases hcs with rfl | rfl <;> simp at hmem
  frees_once token := by
    rcases hcs with rfl | rfl <;> simp [Granted, Ended, Call.frees, Ne.symm (hl token)]
  frees_only _ := by rcases hcs with rfl | rfl <;> simp [Call.frees]
  ok_iff id := by
    rcases hr with ⟨e, -, rfl⟩ | ⟨e, -, rfl⟩ <;> simp [CameBy, Ended]
  releaseFailed_iff id reason := by
    rcases hr with ⟨e, -, rfl⟩ | ⟨e, -, rfl⟩ <;> simp [CameBy, Ended]
  lockUnavailable_iff e := by
    rcases hr with ⟨e, rfl, rfl⟩ | ⟨e, rfl, rfl⟩ <;> simp [Ended, eq_comm]
  storeUnavailable_iff e := by
    rcases hr with ⟨e, -, rfl⟩ | ⟨e, -, rfl⟩ <;> simp [Ended]
  negativeCounter_iff key := by
    rcases hr with ⟨e, -, rfl⟩ | ⟨e, -, rfl⟩ <;> simp [CameBy, Ended]
  interrupted_iff e := by
    rcases hr with ⟨e, rfl, rfl⟩ | ⟨e, rfl, rfl⟩ <;> simp [Ended, CallResult.interruption?]
  interrupted x y e hy he := by
    obtain ⟨rfl, rfl⟩ := endedIn_locking.1 hy
    cases l <;> cases he
    exact hi _ rfl
  lapsed x token hx := by simp at hx

end

theorem Way.accounted (h : Way a ctx day R t r) : a.Accounted ctx day t r := by
  cases h with
  | granted ht ho => exact ht.accounted ho
  | @refused v w e =>
    exact accounted_of_not_granted (by simp) (.inl rfl) (by simp) (.inr ⟨e, rfl, rfl⟩)
  | @barred v w cs e he hcs =>
    exact accounted_of_not_granted (by simp) hcs (by simp [he]) (.inl ⟨e, rfl, rfl⟩)

theorem Way.freed (h : Way a ctx day Guard.InTime t r) {w : World} {token : LockToken}
    {o : Option (Except LockError Bool)} (hx : EndedIn t w (.freed token o)) :
    ∃ v, .begun v (.unlock token) ∈ t ∧ w.now ≤ v.now.after a.releaseLimit ∧
      (o = none → v.now.after a.releaseLimit ≤ w.now) := by
  cases h with
  | barred | refused => simp at hx
  | @granted _ _ v' w' token' u _ o' hu ho hr =>
    have hnot : ¬ EndedIn u w (.freed token o) := fun hx => by simpa using hu.ended hx
    simp only [endedIn_append, endedIn_locking, endedIn_freeing, hnot] at hx
    obtain ⟨-, hx⟩ | hx | ⟨rfl, hx⟩ := hx
    · cases hx
    · exact hx.elim
    · cases hx
      exact ⟨v', by simp [freeing, leg], hr, ho⟩

theorem Way.freedInTime_iff (h : Way a ctx day Guard.InTime t r) (token : LockToken)
    (x : Except LockError Bool) :
    Ended t (.freed token (some x)) ↔ a.FreedInTime t token x := by
  constructor
  · rintro ⟨w, hx⟩
    obtain ⟨v, hv, hw, -⟩ := h.freed hx
    exact ⟨v, w, hv, hx, hw⟩
  · rintro ⟨v, w, -, hx, -⟩
    exact ⟨w, hx⟩

theorem Way.unanswered_iff (h : Way a ctx day Guard.InTime t r) (token : LockToken) :
    Ended t (.freed token none) ↔ a.Unanswered t token := by
  constructor
  · rintro ⟨w, hx⟩
    obtain ⟨v, hv, hw, hlate⟩ := h.freed hx
    exact ⟨v, w, hv, hx, Nat.le_antisymm hw (hlate rfl)⟩
  · rintro ⟨v, w, -, hx, -⟩
    exact ⟨w, hx⟩

theorem Way.releasedInTime (h : Way a ctx day Guard.InTime t r) : a.ReleasedInTime day t r where
  ok_iff id := by
    simp only [h.accounted.ok_iff id, h.freedInTime_iff]
  releaseFailed_iff id reason := by
    simp only [h.accounted.releaseFailed_iff id reason, h.freedInTime_iff, h.unanswered_iff]

end Allocator

namespace Crowd

/-- Whatever a crowd does meanwhile, whatever is planned to go wrong and whenever the caller gives
up: an allocation that has come to its end comes to what its own calls account for. If besides it is
looked at in time, its identifier is confirmed just when the unlock is answered within its limit. -/
theorem allocation_accounted {w : World} (hw : w.Calm) {moves : List (Move mint)} {i : Nat}
    {a : Allocator} {ctx : Context} {day : Day} {r : Except AllocError Identifier}
    (hr : ((around w).play moves).parties[i]? = some ⟨.job (.allocate a (.on ctx day)), .done r⟩) :
    a.Accounted ctx day ((around w).dealings i moves) r ∧
      ((around w).Lawful (Heeds i) moves → a.ReleasedInTime day ((around w).dealings i moves) r) := by
  have ho : (around w : Crowd mint).Orderly anything := orderly_around (within_anything _) hw
  refine ⟨(Allocator.way_of_tells (tells_of_done ho keeps_always rfl hr)).accounted, fun h => ?_⟩
  exact (Allocator.way_of_tells (tells_of_done ho (h.keeps ho rfl) rfl hr)).releasedInTime

/-- The store counts, but the lock is not given back in time. -/
def unconfirmed : List (Move mint) :=
  [.plan { Faults.none with unlock := [.stall] }, .join .newYear] ++
    List.replicate 9 (.look 0) ++ [.pass (.ofSecs 1), .look 0, .look 0]

theorem heeds_unconfirmed : (around .newYear).Lawful (Heeds 0) unconfirmed := by
  have hdue : ∀ t, Cause.due t ∈ [Cause.due (Span.ofSecs 1)] → Span.ofSecs 1 ≤ t := by
    intro t ht
    cases List.mem_singleton.1 ht
    exact Nat.le_refl _
  refine ⟨trivial, trivial, trivial, trivial, trivial, trivial, trivial, trivial, trivial, trivial,
    trivial, ?_, trivial, trivial, trivial⟩
  rintro p ⟨rfl⟩
  exact ⟨rfl, fun t ht _ => hdue t ht⟩

theorem allocation_accounted_unconfirmed :
    asked ((around World.newYear).dealings 0 unconfirmed) = [.lock "user-id-sequence" false,
        .store (.incr "user20200101"), .store (.expire "user20200101" (.ofSecs 86400)),
        .unlock ⟨"user-id-sequence", .issued 0⟩] ∧
      Allocator.standard.Accounted ⟨[], none⟩ .newYear ((around World.newYear).dealings 0 unconfirmed)
        (.error (.releaseFailed ⟨.newYear, 1⟩ .timedOut)) ∧
      Allocator.standard.ReleasedInTime .newYear ((around World.newYear).dealings 0 unconfirmed)
        (.error (.releaseFailed ⟨.newYear, 1⟩ .timedOut)) := by
  obtain ⟨haccounted, hpunctual⟩ := allocation_accounted World.newYear_calm
    (show ((around World.newYear).play unconfirmed).parties[0]? = _ from rfl)
  exact ⟨by decide +kernel, haccounted, hpunctual heeds_unconfirmed⟩

end Crowd

end Registrar
