import Registrar.Time.Span
/-!
Contexts: what bounds a piece of work. Each context has a signal of its own and hears those of its
ancestors; its deadline is never later than theirs.
-/
set_option autoImplicit false

namespace Registrar

inductive Interrupted where
  | cancelled
  | deadlineExceeded
  deriving DecidableEq, Repr

/-- Signals are numbered in the order of their making; those fired stay fired, the last one first.
The links join each signal to the one it was made under, with the last made first. -/
structure Signals where
  made : Nat
  links : List (Nat × Nat)
  fired : List Nat
  deriving DecidableEq, Repr

namespace Signals

def none : Signals := ⟨0, [], []⟩

/-- The signals made under one, the last made first. -/
def under (s : Signals) (n : Nat) : List Nat := (s.links.filter (·.2 == n)).map (·.1)

def isLeaf (s : Signals) (n : Nat) : Bool := (s.under n).isEmpty

/-- In what order the signals on a stack and those below them are heard: the leaves right under one
before it, the others right under it after it and before the rest of the stack. The count bounds
their number. -/
def cascadeFrom (s : Signals) : Nat → List Nat → List Nat
  | 0, _ => []
  | _, [] => []
  | k + 1, n :: rest =>
    let (leaves, others) := (s.under n).partition s.isLeaf
    leaves ++ n :: cascadeFrom s k (others.reverse ++ rest)

/-- In what order a signal and those below it are heard when it fires: itself last. -/
def cascade (s : Signals) (n : Nat) : List Nat := cascadeFrom s s.made (s.under n) ++ [n]

/-- The place of a signal in the cascade of the one that fired last. -/
def rank (s : Signals) (n : Nat) : Nat :=
  match s.fired with
  | [] => 0
  | top :: _ => (s.cascade top).idxOf n

end Signals

/-- The lineage names the signals that a context hears: its own first, the root's last. -/
structure Context where
  lineage : List Nat
  deadline : Option Tick
  deriving DecidableEq, Repr

namespace Context

def background (s : Signals) : Context × Signals :=
  (⟨[s.made], none⟩, { s with made := s.made + 1 })

def sooner (inherited : Option Tick) (due : Tick) : Tick :=
  match inherited with
  | some t => if t < due then t else due
  | none => due

def withTimeout (s : Signals) (now : Tick) (timeout : Span) : Option (Context × Signals) :=
  (now.after? timeout).map fun due => (⟨[s.made], some due⟩, { s with made := s.made + 1 })

def child (parent : Context) (s : Signals) (now : Tick) (timeout : Span) :
    Option (Context × Signals) :=
  (now.after? timeout).map fun due =>
    (⟨s.made :: parent.lineage, some (sooner parent.deadline due)⟩,
      { s with
        made := s.made + 1
        links := ((parent.lineage.take 1).map (s.made, ·)) ++ s.links })

def cancel (c : Context) (s : Signals) : Signals :=
  { s with fired := c.lineage.take 1 ++ s.fired }

def isCancelled (c : Context) (s : Signals) : Bool := c.lineage.any fun n => s.fired.contains n

def isDue (c : Context) (now : Tick) : Bool := c.deadline.any (· ≤ now)

/-- Cancellation is seen before the deadline. -/
def interruption? (c : Context) (s : Signals) (now : Tick) : Option Interrupted :=
  if c.isCancelled s then some .cancelled
  else if c.isDue now then some .deadlineExceeded
  else none

end Context

end Registrar
