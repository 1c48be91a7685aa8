import TimedTasks.DueCache
import TimedTasks.Pool
import TimedTasks.Queue

/-!
# The scheduler's own state

A scheduler is an arena of slots, of which the first `declared` are handed out, with the queue of configured tasks, the
cache of the one that is due next, and two facts about itself: where its session stands (`RunState`) and whether a
round is in progress.

The functions of this folder are the pieces of an operation between which nothing can come: no clock is read and no
lock taken inside them. A piece that can be refused returns either the refusal or the state after it, so a refusal
leaves no trace.
-/

namespace TimedTasks

/-- Where the session of a scheduler stands. -/
inductive RunState
  | stopped
  | active
  /-- A shutdown was asked for. -/
  | stopping
  deriving DecidableEq, Repr

namespace RunState

def name : RunState → String
  | stopped => "Stopped"
  | active => "Active"
  | stopping => "Stopping"

def number : RunState → Nat
  | stopped => 0
  | active => 1
  | stopping => 2

def ofNumber? : Nat → Option RunState
  | 0 => some stopped
  | 1 => some active
  | 2 => some stopping
  | _ => none

theorem ofNumber?_number (s : RunState) : ofNumber? s.number = some s := by
  cases s <;> rfl

end RunState

structure Scheduler where
  arena : Arena
  /-- The slots below this index are handed out. -/
  declared : Nat
  queue : Queue
  cache : DueCache
  runState : RunState
  /-- A round is in progress. -/
  inRound : Bool
  deriving DecidableEq, Repr

namespace Scheduler

/-- A new scheduler over `capacity` slots. -/
def fresh (capacity : Nat) : Scheduler where
  arena := Arena.fresh capacity
  declared := 0
  queue := .empty
  cache := .empty
  runState := .stopped
  inRound := false

def capacity (σ : Scheduler) : Nat := σ.arena.size

/-- The task of an index, if that slot was handed out. -/
def lookup (σ : Scheduler) (i : Nat) : Except Fault (Option Task) :=
  if i < σ.declared then some <$> σ.arena.slot i else .ok none

/-- Changes one slot. -/
def alter (σ : Scheduler) (i : Nat) (f : Task → Task) : Except Fault Scheduler := do
  let arena ← σ.arena.alter i f
  .ok { σ with arena }

/-- The slots that are linked into the queue, in order. -/
def queued (σ : Scheduler) : Except Fault (List Nat) := σ.queue.members σ.arena

end Scheduler

end TimedTasks
