import Registrar.Machine
import Registrar.Scenario.Action
import Registrar.Scenario.Saved
set_option autoImplicit false

namespace Registrar.Scenario

structure Desk where
  contexts : Table String Context
  allocators : Table String Allocator
  accounts : Accounts
  saved : Saved

/-- What a step does, once the texts in it are filled in. -/
structure Step where
  wait : Span
  window : Span
  save : Option String
  deed : (String → String) → Instruction

/-- Steps are played one by one, or started together. Only alone can a step move the clock. -/
inductive Item where
  | alone (s : Step)
  | together (wait : Span) (steps : List Step)
  | advance (wait length : Span)

/-- The end of one step, or those of the steps started together. -/
inductive Outcome where
  | one (e : Ending Result)
  | all (es : List (Ending Result))

/-- The calls stand in the order in which they were made. -/
structure Report where
  now : Tick
  calls : List Call
  outcome : Outcome
  holders : List Holder

namespace Desk

def keep (name : Option String) (r : Result) (w : World) (d : Desk) : Desk :=
  match r with
  | .ok v => { d with saved := Saved.keep d.saved name (v.fields w.holders) }
  | _ => d

def context (d : Desk) (name : String) : Context := (d.contexts.get? name).getD ⟨[], none⟩

def allocator (d : Desk) (name : String) : Allocator := (d.allocators.get? name).getD .standard

end Desk

def telling {ε α : Type} (f : ε → Failure) (g : α → Value) (flow : Flow (Except ε α)) :
    Flow Result :=
  flow.bind fun
    | .error e => .done (.failed (f e))
    | .ok a => .done (.ok (g a))

def expiry? (w : World) (d : Int) : Option Instant := Instant.check? (w.clock.wall + d)

def recordFlow (w : World) (ctx : Context) (subject : Subject) (accessId refreshId : String)
    (accessIn refreshIn : Int) : Flow Result :=
  match expiry? w accessIn, expiry? w refreshIn with
  | some a, some r =>
    let p : TokenPair := ⟨"", "", accessId, refreshId, a, r⟩
    telling .token (fun _ => .wellFormed p.wellFormed) (Tokens.record ctx subject p)
  | _, _ => .done (.failed (.refused "no such instant"))

/-- One look at an allocation. If it has to wait, it is left where nothing can release its lock. -/
def forsake (w : World) (f : Flow (Except AllocError Identifier)) : Flow Result × World :=
  match f.advance w with
  | (w, .done (.ok i)) => (.done (.ok (.identifier i)), w)
  | (w, .done (.error e)) => (.done (.failed (.alloc e)), w)
  | (w, .crashed) => (.crash, w)
  | (w, a) => (.done .forsaken, a.forsake w)

/-- What an action sets going: a flow, or a change that is made at once. -/
def Instruction.begin (instruction : Instruction) (w : World) (d : Desk) :
    Flow Result × World × Desk :=
  let ctx := d.context instruction.ctx
  let allocator := d.allocator instruction.allocator
  let going (f : Flow Result) : Flow Result × World × Desk := (f, w, d)
  let told (v : Value) (w : World) : Flow Result × World × Desk := (.done (.ok v), w, d)
  match instruction.action with
  | .refuse reason => going (.done (.failed (.refused reason)))
  | .store c =>
    match w.store.perform w.now c with
    | none => going .crash
    | some (.error e, store) => (.done (.failed (.store e)), { w with store := store }, d)
    | some (.ok a, store) => told (Value.ofAnswer c a) { w with store := store }
  | .storeAvailable on => told .null { w with store := { w.store with available := on } }
  | .storeAccepting on => told .null { w with store := { w.store with accepting := on } }
  | .peek key => told (.entry (w.store.peek w.now key) (w.store.ttl w.now key)) w
  | .lock name => going (telling .lock .grant (.call .free (.lock name true) none .done))
  | .unlock name holder =>
    let (found, locks) := w.locks.unlock ⟨name, labelled w.holders holder⟩
    told (.flag found) { w with locks := locks }
  | .isHeld name => told (.flag (w.locks.isHeld name)) w
  | .locksAvailable on => told .null { w with locks := { w.locks with available := on } }
  | .context id opening =>
    let made := match opening with
      | .root => some (Context.background w.signals)
      | .timed timeout => Context.withTimeout w.signals w.now timeout
      | .child parent timeout => (d.context parent).child w.signals w.now timeout
    match made with
    | none => going .crash
    | some (ctx, signals) =>
      (.done (.ok .null), { w with signals := signals },
        { d with contexts := d.contexts.insert id ctx })
  | .cancel => told .null { w with signals := ctx.cancel w.signals }
  | .contextState => told (.contextState (ctx.isCancelled w.signals) ctx.deadline) w
  | .echo delay value => going (telling .interrupted (fun _ => .json value)
      (.call (.under ctx) (.pause delay) none .done))
  | .plan add => told .null { w with faults := add (labelled w.holders) w.faults }
  | .pass length => going (.call .free (.pause (some length)) none fun _ => .done (.ok .null))
  | .readClock => told (.clock w.clock.wall.text (w.clock.zone.localText w.clock.wall)) w
  | .counterKey day => told (.text (allocator.counterKey day)) w
  | .allocate day => going (telling .alloc .identifier (allocator.allocate ctx day))
  | .allocateToday => going (telling .alloc .identifier (allocator.allocateToday ctx))
  | .allocateForsaken day =>
    let (f, w) := forsake w (allocator.allocate ctx day)
    (f, w, d)
  | .record subject accessId refreshId accessIn refreshIn =>
    going (recordFlow w ctx subject accessId refreshId accessIn refreshIn)
  | .resolve id => going (telling .token (fun s => .text s.name) (Tokens.resolve ctx id))
  | .revoke access => going (telling .token (fun _ => .null) (Tokens.revoke ctx access))
  | .revokeOne id => going (telling .token (fun n => .count (Int.ofNat n)) (Tokens.revokeOne ctx id))
  | .register => going (telling .account (fun s => .text s.name) (d.accounts.register ctx))
  | .login subject => going (telling .account .pair (d.accounts.login ctx subject))
  | .authenticate token => going (telling .account .access (Accounts.authenticate ctx token))
  | .logout token => going (telling .account (fun _ => .null) (Accounts.logout ctx token))
  | .refresh token => going (telling .account .pair (d.accounts.refresh ctx token))
  | .encodeAccess claims => told (.text claims.token) w
  | .encodeRefresh claims => told (.text claims.token) w
  | .decodeAccess token =>
    going (telling .codec .accessClaims (.done (AccessClaims.ofToken w.clock.wall token)))
  | .decodeRefresh token =>
    going (telling .codec .refreshClaims (.done (RefreshClaims.ofToken w.clock.wall token)))

def Step.task (s : Step) : Task Desk Result where
  wait := s.wait
  window := some s.window
  begin w d := (s.deed (Saved.fill d.saved)).begin w d
  keep := Desk.keep s.save

abbrev Bench := Machine Desk Result

namespace Bench

/-- A bench with one context and the allocators named. -/
def start (clock : Clock) (patience : Option Span) (ids : Nat → String)
    (allocators : Table String Allocator) (terms : Terms) : Bench :=
  let w := World.start clock patience ids
  let (ctx, signals) := Context.background w.signals
  let users := (allocators.get? "users").getD .standard
  .idle { w with signals := signals }
    ⟨Table.empty.insert "bg" ctx, allocators, ⟨users, terms⟩, .empty⟩

def play (m : Bench) : Item → Outcome × Bench
  | .alone s =>
    match m.run [s.task] with
    | (e :: _, m) => (.one e, m)
    | ([], m) => (.one .dropped, m)
  | .together wait steps =>
    let m := if wait = 0 then m else m.advance wait
    let (es, m) := m.run (steps.map Step.task)
    (.all es, m)
  | .advance wait length =>
    let m := if wait = 0 then m else m.advance wait
    (.one (.finished (.ok .null)), m.advance length)

def report (m : Bench) (outcome : Outcome) : Report × Bench :=
  (⟨m.world.now, m.world.journal.reverse, outcome, m.world.holders⟩,
    { m with world := { m.world with journal := [] } })

def playAll (m : Bench) : List Item → List Report
  | [] => []
  | item :: rest =>
    let (outcome, m) := m.play item
    let (r, m) := m.report outcome
    r :: m.playAll rest

end Bench

end Registrar.Scenario
