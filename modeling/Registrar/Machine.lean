import Registrar.Activity
/-!
The machine that runs tasks by turns. One task runs at a time, each until it has to wait; those
roused run in the order in which they were roused. Time stands still while any task can run, and
then moves on to the next moment that something waits for.
-/
set_option autoImplicit false

namespace Registrar

inductive Ending (α : Type) where
  | finished (a : α)
  | crashed
  | dropped
  deriving Repr

/-- A task waits, begins its flow, and is dropped if the window closes before the flow ends. What
it begins and what it leaves behind can depend on the desk that the tasks share. -/
structure Task (σ α : Type) where
  wait : Span
  window : Option Span
  begin : World → σ → Flow α × World × σ
  keep : α → World → σ → σ

inductive Stage (α : Type) where
  | idle
  | asleep (due : Tick)
  | active (a : Activity α) (cutoff : Option Tick)
  | ended (e : Ending α)

inductive Who where
  | task (i : Nat)
  | release (i : Nat)
  deriving DecidableEq, Repr

structure Alarm where
  who : Who
  ticket : Option Nat
  cause : Cause
  deriving DecidableEq, Repr

structure Machine (σ α : Type) where
  world : World
  desk : σ
  tasks : List (Task σ α × Stage α)
  releases : List (Activity Unit)
  awake : List Who
  alarms : List Alarm

namespace Stage

variable {α : Type}

def ended? : Stage α → Option (Ending α)
  | .ended e => some e
  | _ => none

/-- The alarms that a stage needs, by ticket; a cutoff is looked at last. -/
def wanted : Stage α → List (Option Nat × Cause)
  | .asleep due => [(none, .due due)]
  | .active a cutoff =>
    a.causes.map (a.ticket?, ·) ++ (cutoff.map fun t => (none, Cause.due t)).toList
  | .idle | .ended _ => []

end Stage

namespace Task

variable {σ α : Type}

def go (t : Task σ α) (a : Activity α) (cutoff : Option Tick) (w : World) (s : σ) :
    Stage α × World × σ :=
  match a.poll w with
  | (w, .done a) => (.ended (.finished a), w, t.keep a w s)
  | (w, .crashed) => (.ended .crashed, w, s)
  | (w, a) =>
    if cutoff.any (· ≤ w.now) then (.ended .dropped, a.drop w, s) else (.active a cutoff, w, s)

def start (t : Task σ α) (w : World) (s : σ) : Stage α × World × σ :=
  let (f, w, s) := t.begin w s
  t.go (.fresh f) (t.window.map w.now.after) w s

def turn (t : Task σ α) (w : World) (s : σ) : Stage α → Stage α × World × σ
  | .idle => if t.wait = 0 then t.start w s else (.asleep (w.now.after t.wait), w, s)
  | .asleep due => if due ≤ w.now then t.start w s else (.asleep due, w, s)
  | .active a cutoff => t.go a cutoff w s
  | .ended e => (.ended e, w, s)

end Task

namespace Machine

variable {σ α : Type}

def idle (w : World) (s : σ) : Machine σ α := ⟨w, s, [], [], [], []⟩

def rouse (m : Machine σ α) (who : Who) : Machine σ α :=
  if who ∈ m.awake then m else { m with awake := m.awake ++ [who] }

def arrange (w : World) (met : List Alarm) : List Alarm :=
  met.mergeSort fun a b => a.cause.rank w ≤ b.cause.rank w

def ring (m : Machine σ α) : Machine σ α :=
  let (met, rest) := m.alarms.partition (·.cause.met m.world)
  (arrange m.world met).foldl (fun m alarm => m.rouse alarm.who) { m with alarms := rest }

/-- Alarms that are still needed stay where they are, the new ones come last. -/
def expect (m : Machine σ α) (who : Who) (wanted : List (Option Nat × Cause)) : Machine σ α :=
  let kept := m.alarms.filter fun a => a.who ≠ who || wanted.contains (a.ticket, a.cause)
  let fresh := (wanted.map fun (ticket, cause) => ⟨who, ticket, cause⟩).filter (!kept.contains ·)
  { m with alarms := kept ++ fresh }

def adopt (m : Machine σ α) : Machine σ α :=
  let n := m.releases.length
  let orphans := m.world.orphans
  { m with
    world := { m.world with orphans := [] }
    releases := m.releases ++ orphans.map fun h => .fresh (.release h)
    awake := m.awake ++ (List.range orphans.length).map fun i => .release (n + i) }

def settle (m : Machine σ α) (who : Who) (wanted : List (Option Nat × Cause)) : Machine σ α :=
  (m.expect who wanted).ring.adopt

def turn (m : Machine σ α) : Who → Machine σ α
  | .task i =>
    match m.tasks[i]? with
    | none => m
    | some (t, stage) =>
      let (stage, w, s) := t.turn m.world m.desk stage
      { m with world := w, desk := s, tasks := m.tasks.set i (t, stage) }.settle (.task i)
        stage.wanted
  | .release i =>
    match m.releases[i]? with
    | none => m
    | some a =>
      let (w, a) := a.poll m.world
      { m with world := w, releases := m.releases.set i a }.settle (.release i)
        (a.causes.map (a.ticket?, ·))

def dues : List Alarm → List Tick
  | [] => []
  | ⟨_, _, .due t⟩ :: rest => t :: dues rest
  | _ :: rest => dues rest

def next? (m : Machine σ α) : Option Tick := (dues m.alarms).min?

def moveTo (m : Machine σ α) (t : Tick) : Machine σ α := { m with world := m.world.setNow t }.ring

def finished (m : Machine σ α) : Bool := m.tasks.all fun (_, stage) => stage.ended?.isSome

def drain : Nat → Machine σ α → Machine σ α
  | 0, m => m
  | n + 1, m =>
    match m.awake with
    | [] => m
    | who :: awake => drain n ({ m with awake := awake }.turn who)

/-- Runs until every task has ended, or nothing can ever happen any more. -/
def finish : Nat → Machine σ α → Machine σ α
  | 0, m => m
  | n + 1, m =>
    if m.finished then m
    else match m.awake with
      | who :: awake => finish n ({ m with awake := awake }.turn who)
      | [] =>
        match m.next? with
        | some t => finish n (m.moveTo (max t m.world.now))
        | none => m

/-- Lets time pass up to a moment, with a stop at each moment before that something waits for. -/
def pass (target : Tick) : Nat → Machine σ α → Machine σ α
  | 0, m => m
  | n + 1, m =>
    match m.awake with
    | who :: awake => pass target n ({ m with awake := awake }.turn who)
    | [] =>
      match m.next? with
      | some t =>
        if t ≤ target then pass target n (m.moveTo (max t m.world.now)) else m.moveTo target
      | none => m.moveTo target

def fuel (m : Machine σ α) : Nat := 1000 * (m.tasks.length + m.releases.length + 1)

def assign (m : Machine σ α) (tasks : List (Task σ α)) : Machine σ α :=
  { m with
    tasks := tasks.map (·, .idle)
    awake := m.awake ++ (List.range tasks.length).map .task }

def isOver : Activity Unit → Bool
  | .done _ | .crashed => true
  | _ => false

/-- Forgets the tasks that have ended, and the releases once all are over. -/
def clear (m : Machine σ α) : Machine σ α :=
  { m with tasks := [], releases := if m.releases.all isOver then [] else m.releases }

def endings (m : Machine σ α) : List (Ending α) := m.tasks.filterMap fun (_, stage) => stage.ended?

/-- Runs tasks to their ends, and then whatever else can still run at that moment. -/
def run (m : Machine σ α) (tasks : List (Task σ α)) : List (Ending α) × Machine σ α :=
  let m := m.assign tasks
  let m := m.finish m.fuel
  let m := m.drain m.fuel
  (m.endings, m.clear)

def advance (m : Machine σ α) (d : Span) : Machine σ α :=
  let m := m.pass (m.world.now.after d) m.fuel
  (m.drain m.fuel).clear

end Machine

end Registrar
