import Registrar.Proofs.Service
/-!
The register of tokens, asked for one thing after another with nothing in its way. The history of
what has been written and removed tells what each request is answered (`TokenHistory.history_tells`),
and a removal is final until the identifier is written again.
-/
set_option autoImplicit false

namespace Registrar

namespace Tokens

inductive Job where
  | record (ctx : Context) (subject : Subject) (p : TokenPair)
  | resolve (ctx : Context) (id : String)
  | revoke (ctx : Context) (access : Access)
  | revokeOne (ctx : Context) (id : String)

abbrev Job.Yield : Job → Type
  | .record _ _ _ => Except TokenError Unit
  | .resolve _ _ => Except TokenError Subject
  | .revoke _ _ => Except TokenError Unit
  | .revokeOne _ _ => Except TokenError Nat

def Job.flow : (j : Job) → Flow j.Yield
  | .record ctx subject p => (Tokens.record ctx subject p).run
  | .resolve ctx id => (Tokens.resolve ctx id).run
  | .revoke ctx access => (Tokens.revoke ctx access).run
  | .revokeOne ctx id => (Tokens.revokeOne ctx id).run

/-- An identifier is written for a subject, until a moment, or it is removed. -/
inductive Mark where
  | written (id : String) (subject : Subject) (expiry : Instant)
  | removed (id : String)

def Mark.id : Mark → String
  | .written id _ _ | .removed id => id

def Job.marks : Job → List Mark
  | .record _ subject p =>
    [.written p.refreshId subject p.refreshExpiry, .written p.accessId subject p.accessExpiry]
  | .resolve _ _ => []
  | .revoke _ access => [.removed access.refreshId, .removed access.accessId]
  | .revokeOne _ id => [.removed id]

def latest? : List Mark → String → Option (Subject × Instant)
  | [], _ => none
  | .written k subject expiry :: marks, id =>
    if id = k then some (subject, expiry) else latest? marks id
  | .removed k :: marks, id => if id = k then none else latest? marks id

def holder? (marks : List Mark) (t : Instant) (id : String) : Option Subject :=
  match latest? marks id with
  | some (subject, expiry) => if t < expiry then some subject else none
  | none => none

def count (marks : List Mark) (t : Instant) (id : String) : Nat :=
  if (holder? marks t id).isSome then 1 else 0

def Job.answer (marks : List Mark) (t : Instant) : (j : Job) → j.Yield
  | .record _ _ _ => .ok ()
  | .resolve _ id =>
    match holder? marks t id with
    | some subject => .ok subject
    | none => .error .notFound
  | .revoke _ a =>
    if a.accessId ≠ a.refreshId ∧ (holder? marks t a.accessId).isSome ∧
        (holder? marks t a.refreshId).isSome then .ok ()
    else .error (.revocationIncomplete (count marks t a.accessId)
      (if a.accessId = a.refreshId then 0 else count marks t a.refreshId))
  | .revokeOne _ id => .ok (count marks t id)

section

variable {marks : List Mark} {t : Instant} {id k : String} {subject : Subject} {expiry : Instant}

theorem holder?_written : holder? (.written k subject expiry :: marks) t id =
    if id = k then if t < expiry then some subject else none else holder? marks t id := by
  by_cases h : id = k <;> simp [holder?, latest?, h]

theorem holder?_removed : holder? (.removed k :: marks) t id =
    if id = k then none else holder? marks t id := by
  by_cases h : id = k <;> simp [holder?, latest?, h]

@[simp] theorem count_eq_one : count marks t id = 1 ↔ (holder? marks t id).isSome = true := by
  unfold count
  split <;> simp_all

theorem count_removed : count (.removed k :: marks) t id = if id = k then 0 else count marks t id := by
  rw [count, count, holder?_removed]
  by_cases h : id = k <;> simp [h]

theorem Job.answer_revoke_again (ctx ctx' : Context) (a : Access) :
    (revoke ctx' a).answer ((revoke ctx a).marks ++ marks) t =
      .error (.revocationIncomplete 0 0) := by
  simp [answer, Job.marks, count, holder?_removed]

theorem Job.answer_revokeOne_again (ctx ctx' : Context) (id : String) :
    (revokeOne ctx' id).answer ((revokeOne ctx id).marks ++ marks) t = .ok (0 : Nat) := by
  simp [answer, Job.marks, count, holder?_removed]

theorem Job.answer_resolve (ctx : Context) (id : String) : (resolve ctx id).answer marks t =
    match holder? marks t id with
    | some subject => .ok subject
    | none => .error .notFound := rfl

theorem Job.answer_revoke (ctx : Context) (a : Access) :
    (if count marks t a.accessId = 1 ∧ count (.removed a.accessId :: marks) t a.refreshId = 1
      then .ok ()
      else .error (.revocationIncomplete (count marks t a.accessId)
        (count (.removed a.accessId :: marks) t a.refreshId))) = (revoke ctx a).answer marks t := by
  rw [count_removed]
  by_cases hid : a.accessId = a.refreshId
  · simp [answer, hid]
  · simp [answer, hid, Ne.symm hid]

theorem holder?_eq_some : holder? marks t id = some subject ↔
    ∃ expiry, latest? marks id = some (subject, expiry) ∧ t < expiry := by
  unfold holder?
  cases latest? marks id with
  | none => simp
  | some entry =>
    obtain ⟨other, e⟩ := entry
    simp only [Option.ite_none_right_eq_some, Option.some.injEq, Prod.mk.injEq]
    constructor
    · rintro ⟨ht, rfl⟩
      exact ⟨e, ⟨rfl, rfl⟩, ht⟩
    · rintro ⟨_, ⟨rfl, rfl⟩, ht⟩
      exact ⟨ht, rfl⟩

end

/-- From now on a reader finds under each identifier what the history says of it. -/
def Mirror (clock : Clock) (store : Store) (marks : List Mark) : Prop :=
  ∀ id later, clock.now ≤ later →
    store.peek later id = (holder? marks (clock.origin + later) id).map (·.name)

theorem live_until (clock : Clock) {expiry : Instant} {later : Tick} (hl : clock.now ≤ later)
    (value : String) :
    Entry.live later ⟨value, some (clock.now + clock.wall.untilInstant expiry)⟩ =
      decide (clock.origin + later < expiry) := by
  have hiff : later < clock.now + (expiry - (clock.origin + clock.now)).toNat ↔
      clock.origin + later < expiry := by
    lia
  exact decide_eq_decide.2 hiff

namespace Mirror

variable {clock : Clock} {store other : Store} {marks : List Mark}

theorem blank (hempty : ∀ id, store.entries.get? id = none) : Mirror clock store [] := by
  intro id later _
  rw [Store.peek, Store.find?, hempty]
  rfl

theorem reads (h : Mirror clock store marks) (hreads : store.Reads clock.now other) :
    Mirror clock other marks := by
  intro id later hl
  rw [Store.peek, hreads id later hl]
  exact h id later hl

theorem pass (h : Mirror clock store marks) (length : Span) :
    Mirror { clock with now := clock.now + length } store marks := fun id later hl =>
  h id later (Nat.le_trans (Nat.le_add_right _ _) hl)

theorem written (h : Mirror clock store marks) (k : String) (subject : Subject) (expiry : Instant) :
    Mirror clock
      (store.put k ⟨subject.name, some (clock.now + clock.wall.untilInstant expiry)⟩)
      (.written k subject expiry :: marks) := by
  intro id later hl
  rw [Store.peek, Store.find?_put, holder?_written]
  by_cases hk : id = k
  · rw [if_pos hk, if_pos hk, Option.filter_some, live_until clock hl]
    by_cases ht : clock.origin + later < expiry
    · simp [ht]
    · simp [ht]
  · rw [if_neg hk, if_neg hk]
    exact h id later hl

theorem removed (h : Mirror clock store marks) (k : String) :
    Mirror clock (store.drop k) (.removed k :: marks) := by
  intro id later hl
  rw [Store.peek, Store.find?_drop, holder?_removed]
  by_cases hk : id = k
  · rw [if_pos hk, if_pos hk]
    rfl
  · rw [if_neg hk, if_neg hk]
    exact h id later hl

theorem count (h : Mirror clock store marks) (id : String) :
    (if (store.find? clock.now id).isSome then 1 else 0) = Tokens.count marks clock.wall id := by
  have hpeek := congrArg Option.isSome (h id clock.now (Nat.le_refl _))
  rw [Store.peek, Option.isSome_map, Option.isSome_map] at hpeek
  rw [hpeek]
  rfl

end Mirror

def Job.leave (w : World) : Job → Store
  | .record _ subject p =>
    (w.store.put p.accessId
        ⟨subject.name, some (w.now + w.clock.wall.untilInstant p.accessExpiry)⟩).put p.refreshId
      ⟨subject.name, some (w.now + w.clock.wall.untilInstant p.refreshExpiry)⟩
  | .resolve _ _ => w.store
  | .revoke _ access => (w.store.drop access.accessId).drop access.refreshId
  | .revokeOne _ id => w.store.drop id

theorem Mirror.leave {w : World} {marks : List Mark} (h : Mirror w.clock w.store marks) (j : Job) :
    Mirror w.clock (j.leave w) (j.marks ++ marks) := by
  cases j with
  | record ctx subject p => exact (h.written _ _ _).written _ _ _
  | resolve ctx id => exact h
  | revoke ctx access => exact (h.removed _).removed _
  | revokeOne ctx id => exact h.removed _

theorem Job.find?_leave (w : World) (j : Job) {id : String} (hid : id ∉ j.marks.map Mark.id)
    (later : Tick) : (j.leave w).find? later id = w.store.find? later id := by
  cases j with
  | record ctx subject p =>
    obtain ⟨hr, ha⟩ : id ≠ _ ∧ id ≠ _ := by simpa [marks, Mark.id] using hid
    rw [leave, Store.find?_put, if_neg hr, Store.find?_put, if_neg ha]
  | resolve ctx k => rfl
  | revoke ctx access =>
    obtain ⟨hr, ha⟩ : id ≠ _ ∧ id ≠ _ := by simpa [marks, Mark.id] using hid
    rw [leave, Store.find?_drop, if_neg hr, Store.find?_drop, if_neg ha]
  | revokeOne ctx k => rw [leave, Store.find?_drop, if_neg (by simpa [marks, Mark.id] using hid)]

/-- The clocks show instants of the calendar, and have done so since they were started. -/
structure Shown (clock : Clock) : Prop where
  origin : Instant.min ≤ clock.origin
  wall : clock.wall ≤ Instant.max

/-- The context is live, and all expiries are instants of the calendar. -/
def Job.Fair (w : World) : Job → Prop
  | .record ctx _ p => w.Live ctx ∧ p.accessExpiry.InRange ∧ p.refreshExpiry.InRange
  | .resolve ctx _ | .revoke ctx _ | .revokeOne ctx _ => w.Live ctx

theorem Shown.isSome_after? {clock : Clock} (h : Shown clock) {expiry : Instant}
    (he : expiry.InRange) : (clock.now.after? (clock.wall.untilInstant expiry)).isSome = true := by
  have hlt : clock.now + clock.wall.untilInstant expiry < Tick.limit := by
    have horigin := h.origin
    have hwall := h.wall
    have hmax := he.2
    unfold Clock.wall at hwall ⊢
    unfold Instant.untilInstant
    simp only [Instant.min, Instant.max, Instant.nanosPerSec, Tick.limit] at *
    lia
  rw [Tick.after?, if_pos hlt]
  rfl

variable {w : World} {marks : List Mark}

theorem Job.told (hw : w.Healthy) (hclock : Shown w.clock) (h : Mirror w.clock w.store marks)
    {j : Job}
    (hj : j.Fair w) : ∃ v, j.flow.Yields w v (j.answer marks w.clock.wall) ∧ w.Serves v 0 ∧
      (j.leave w).Reads w.now v.store := by
  cases j with
  | record ctx subject p =>
    obtain ⟨hl, ha, hr⟩ := hj
    obtain ⟨v, hv, hserves, hstore⟩ := yields_record hw hl subject (p := p)
      (hclock.isSome_after? ha) (hclock.isSome_after? hr)
    exact ⟨v, hv, hserves, by rw [hstore]; exact .refl _ _⟩
  | resolve ctx id =>
    obtain ⟨v, hv, hserves, hreads⟩ := yields_resolve hw hj id
    have hpeek : w.store.peek w.now id = (holder? marks w.clock.wall id).map (·.name) :=
      h id w.now (Nat.le_refl _)
    rw [hpeek] at hv
    refine ⟨v, ?_, hserves, hreads⟩
    rw [answer_resolve]
    cases hs : holder? marks w.clock.wall id with
    | none =>
      rw [hs] at hv
      exact hv
    | some subject =>
      rw [hs] at hv
      exact hv
  | revoke ctx access =>
    obtain ⟨v, m, n, hv, hm, hn, hserves, hstore⟩ := yields_revoke hw hj access
    refine ⟨v, ?_, hserves, by rw [hstore]; exact .refl _ _⟩
    have hfirst : m = count marks w.clock.wall access.accessId := hm.trans (h.count _)
    have hsecond : n = count (.removed access.accessId :: marks) w.clock.wall access.refreshId :=
      hn.trans ((h.removed _).count _)
    rw [← answer_revoke ctx access, ← hfirst, ← hsecond]
    exact hv
  | revokeOne ctx id =>
    obtain ⟨v, hv, hserves, hstore⟩ := yields_revokeOne hw hj id
    have hcount : (if (w.store.find? w.now id).isSome then 1 else 0) = count marks w.clock.wall id :=
      h.count id
    rw [hcount] at hv
    exact ⟨v, hv, hserves, by rw [hstore]; exact .refl _ _⟩

end Tokens

/-- A register at work, and the history of what it has been asked for. -/
structure TokenHistory where
  world : World
  marks : List Tokens.Mark

namespace TokenHistory

open Tokens (Job Mark)

inductive Step where
  | ask (j : Job)
  | pass (length : Span)

def blank (w : World) : TokenHistory := ⟨w, []⟩

/-- What becomes of a request that is made now. -/
def outcome (s : TokenHistory) (j : Job) : Activity j.Yield := (j.flow.advance s.world).2

/-- A request that would have to wait is dropped. -/
def act (s : TokenHistory) : Step → TokenHistory
  | .ask j => ⟨(s.outcome j).drop (j.flow.advance s.world).1, j.marks ++ s.marks⟩
  | .pass length => { s with world := s.world.setNow (s.world.now + length) }

def play (s : TokenHistory) : List Step → TokenHistory
  | [] => s
  | m :: steps => (s.act m).play steps

def Fair (s : TokenHistory) : Step → Prop
  | .ask j => j.Fair s.world
  | .pass length => s.world.clock.wall + length ≤ Instant.max

def Lawful (s : TokenHistory) : List Step → Prop
  | [] => True
  | m :: steps => s.Fair m ∧ (s.act m).Lawful steps

theorem Lawful.preserves {I : TokenHistory → Prop} (hstep : ∀ s m, s.Fair m → I s → I (s.act m))
    {s : TokenHistory} {steps : List Step} (h : s.Lawful steps) (hs : I s) : I (s.play steps) := by
  induction steps generalizing s with
  | nil => exact hs
  | cons m steps ih => exact ih h.2 (hstep s m h.1 hs)

structure Sound (s : TokenHistory) : Prop where
  healthy : s.world.Healthy
  shown : Tokens.Shown s.world.clock
  mirror : Tokens.Mirror s.world.clock s.world.store s.marks

namespace Sound

variable {s : TokenHistory} {j : Job}

theorem ask (hs : s.Sound) (hj : j.Fair s.world) :
    s.outcome j = .done (j.answer s.marks s.world.clock.wall) ∧ (s.act (.ask j)).Sound ∧
      (j.leave s.world).Reads s.world.now (s.act (.ask j)).world.store := by
  obtain ⟨v, hv, hserves, hreads⟩ := Job.told hs.healthy hs.shown hs.mirror hj
  have hadvance : j.flow.advance s.world = (v, .done (j.answer s.marks s.world.clock.wall)) := hv
  have hact : s.act (.ask j) = ⟨v, j.marks ++ s.marks⟩ := by
    rw [act, outcome, hadvance]
    rfl
  rw [hact]
  refine ⟨congrArg Prod.snd hadvance, ⟨hs.healthy.serves hserves, ?_, ?_⟩, hreads⟩
  · rw [hserves.clock]
    exact hs.shown
  · rw [hserves.clock]
    exact (hs.mirror.leave j).reads hreads

theorem pass (hs : s.Sound) {length : Span} (h : s.world.clock.wall + length ≤ Instant.max) :
    (s.act (.pass length)).Sound where
  healthy := ⟨hs.healthy.faults, hs.healthy.available, hs.healthy.accepting⟩
  shown := ⟨hs.shown.origin, by
    change s.world.clock.origin + ((s.world.clock.now + length : Nat) : Int) ≤ Instant.max
    unfold Clock.wall at h
    lia⟩
  mirror := hs.mirror.pass length

theorem act (hs : s.Sound) {m : Step} (hm : s.Fair m) : (s.act m).Sound := by
  cases m with
  | ask j => exact (hs.ask hm).2.1
  | pass length => exact hs.pass hm

end Sound

structure Faithful (s : TokenHistory) : Prop where
  answers : ∀ j, j.Fair s.world → s.outcome j = .done (j.answer s.marks s.world.clock.wall)
  resolves : ∀ ctx id subject, s.world.Live ctx →
    (s.outcome (.resolve ctx id) = .done (.ok subject) ↔
      ∃ expiry, Tokens.latest? s.marks id = some (subject, expiry) ∧ s.world.clock.wall < expiry)
  untouched : ∀ j, j.Fair s.world → ∀ id ∉ j.marks.map Mark.id, ∀ later, s.world.now ≤ later →
    (s.act (.ask j)).world.store.find? later id = s.world.store.find? later id
  absent : ∀ ctx a, s.world.Live ctx → ∀ id ∈ [a.accessId, a.refreshId], ∀ later,
    s.world.now ≤ later → (s.act (.ask (.revoke ctx a))).world.store.find? later id = none
  /-- Revoked once more, at whatever time, a pair is not there. -/
  spent : ∀ ctx ctx' a length,
    s.Lawful [.ask (.revoke ctx a), .pass length, .ask (.revoke ctx' a)] →
      (s.play [.ask (.revoke ctx a), .pass length]).outcome (.revoke ctx' a) =
        .done (.error (.revocationIncomplete 0 0))
  spentOne : ∀ ctx ctx' id length,
    s.Lawful [.ask (.revokeOne ctx id), .pass length, .ask (.revokeOne ctx' id)] →
      (s.play [.ask (.revokeOne ctx id), .pass length]).outcome (.revokeOne ctx' id) =
        .done (.ok (0 : Nat))

theorem Sound.faithful {s : TokenHistory} (hs : s.Sound) : s.Faithful where
  answers j hj := (hs.ask hj).1
  resolves ctx id subject hl := by
    rw [(hs.ask (j := .resolve ctx id) hl).1, ← Tokens.holder?_eq_some, Job.answer_resolve]
    cases Tokens.holder? s.marks s.world.clock.wall id with
    | none => simp
    | some other => simp
  untouched j hj id hid later hl := by
    rw [(hs.ask hj).2.2 id later hl, Job.find?_leave _ _ hid]
  absent ctx a hl id hid later hlater := by
    have hid : id = a.accessId ∨ id = a.refreshId := by simpa using hid
    rw [(hs.ask (j := .revoke ctx a) hl).2.2 id later hlater, Job.leave, Store.find?_drop,
      Store.find?_drop]
    rcases hid with rfl | rfl <;> simp
  spent ctx ctx' a length h := by
    obtain ⟨hfirst, hpass, hsecond, -⟩ := h
    refine (((hs.act hfirst).act hpass).ask (j := .revoke ctx' a) hsecond).1.trans ?_
    exact congrArg Activity.done (Job.answer_revoke_again ctx ctx' a)
  spentOne ctx ctx' id length h := by
    obtain ⟨hfirst, hpass, hsecond, -⟩ := h
    refine (((hs.act hfirst).act hpass).ask (j := .revokeOne ctx' id) hsecond).1.trans ?_
    exact congrArg Activity.done (Job.answer_revokeOne_again ctx ctx' id)

theorem sound_blank {w : World} (hw : w.Healthy) (hclock : Tokens.Shown w.clock)
    (hempty : ∀ id, w.store.entries.get? id = none) : (blank w).Sound :=
  ⟨hw, hclock, .blank hempty⟩

/-- Whatever a register has been asked for, the history tells what it does. -/
theorem history_tells {w : World} (hw : w.Healthy) (hclock : Tokens.Shown w.clock)
    (hempty : ∀ id, w.store.entries.get? id = none) {steps : List Step}
    (h : (blank w).Lawful steps) : ((blank w).play steps).Faithful :=
  (h.preserves (fun _ _ hm hs => hs.act hm) (sound_blank hw hclock hempty)).faithful

section

def unhindered : Context := ⟨[], none⟩

/-- The pair of the key A for a minute and the key R for ten. -/
def minutes : TokenPair :=
  ⟨"at", "rt", "A", "R", 60 * Instant.nanosPerSec, 600 * Instant.nanosPerSec⟩

/-- A register in which a pair has been entered, just as its access half expires. -/
def halfway : List Step :=
  [.ask (.record unhindered ⟨"alice"⟩ minutes), .pass (.ofSecs 60)]

def dawn : World := .start ⟨0, .utc, 0⟩ none fun _ => ""

theorem history_tells_halfway :
    ((blank dawn).play halfway).outcome (.resolve unhindered "A") = .done (.error .notFound) ∧
      ((blank dawn).play halfway).outcome (.resolve unhindered "R") = .done (.ok ⟨"alice"⟩) ∧
      ((blank dawn).play halfway).outcome (.revoke unhindered ⟨"A", "R", ⟨"alice"⟩⟩) =
        .done (.error (.revocationIncomplete 0 1)) := by
  have hpass : ((blank dawn).act (.ask (.record unhindered ⟨"alice"⟩ minutes))).world.clock.wall +
      (Span.ofSecs 60 : Int) ≤ Instant.max := by decide +kernel
  have hlawful : (blank dawn).Lawful halfway :=
    ⟨⟨rfl, by decide +kernel, by decide +kernel⟩, hpass, trivial⟩
  have h := history_tells (w := dawn) ⟨rfl, rfl, rfl⟩ ⟨by decide, by decide⟩ (fun _ => rfl) hlawful
  have hwall : ((blank dawn).play halfway).world.clock.wall = 60 * Instant.nanosPerSec := by
    decide +kernel
  refine ⟨(h.answers (.resolve unhindered "A") rfl).trans ?_,
    (h.answers (.resolve unhindered "R") rfl).trans ?_,
    (h.answers (.revoke unhindered ⟨"A", "R", ⟨"alice"⟩⟩) rfl).trans ?_⟩
  · rw [hwall]
    rfl
  · rw [hwall]
    rfl
  · rw [hwall]
    rfl

end

end TokenHistory

end Registrar
