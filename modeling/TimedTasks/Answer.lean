import TimedTasks.Scheduler.Basic

/-!
# Answers

What an operation gives back. The rows collect what the queries about a task, a scheduler and a pool say.
-/

namespace TimedTasks

/-- All that a scheduler says about a task. An id that it never handed out reads as a task that is not configured. -/
structure TaskRow where
  state : TaskState
  interval : UInt32
  repeats : Bool
  allocated : Bool
  dataLength : Nat
  elapsed : UInt32
  remaining : UInt32
  expired : Bool
  deriving DecidableEq, Repr

namespace TaskRow

/-- What can be said of a task without the lock and without the clock. -/
def untimed : Option Task → TaskRow
  | none => ⟨.uninit, 0, false, false, 0, 0, 0, false⟩
  | some t => ⟨t.state, t.timing.length, t.repeats, t.allocated, 0, 0, 0, false⟩

/-- What is said of a task at clock reading `now`: its age once it is configured, the time it has left while it is
armed, and whether that time is over while it waits. -/
def timed (now : UInt32) : Option Task → TaskRow
  | none => untimed none
  | some t =>
    { untimed (some t) with
      dataLength := t.payload.length
      elapsed := if t.state = .uninit then 0 else t.timing.elapsed now
      remaining := if t.state.armed then t.timing.remaining now else 0
      expired := t.state = .active && t.timing.expired now }

end TaskRow

/-- All that a scheduler says about itself. -/
structure SchedulerRow where
  runState : RunState
  now : UInt32
  queued : Nat
  nextDue : Option TaskId
  deriving DecidableEq, Repr

/-- What a scheduler says about itself at clock reading `now`. It was asked for its run state before. -/
def Scheduler.row (σ : Scheduler) (runState : RunState) (now : UInt32) : Except Fault SchedulerRow := do
  let linked ← σ.queued
  .ok ⟨runState, now, linked.length, σ.cache.soonest.map (⟨·⟩)⟩

/-- All that a pool says about itself on a scheduler. -/
structure PoolRow where
  slots : Nat
  slotSize : Nat
  bound : Bool
  allocated : Nat
  free : Nat
  deriving DecidableEq, Repr

/-- The counts of a pool on an arena, which has to reach as far as the pool's slots. -/
def Pool.row? (p : Pool) (a : Arena) : Option PoolRow :=
  match p.first with
  | none => some ⟨p.slots, p.slotSize, false, 0, p.slots⟩
  | some first => do
    let tasks ← (List.range' first p.slots).mapM fun i => a[i]?
    some ⟨p.slots, p.slotSize, true, tasks.countP (·.allocated), tasks.countP (!·.allocated)⟩

/-- What an operation gives back. -/
inductive Answer
  | done
  | failed (error : Error)
  /-- A slot was asked for that does not lie in the arena. -/
  | outOfBounds
  /-- The slot that was handed out, if any. -/
  | slot (id : Option TaskId)
  /-- The number of bytes that were kept. -/
  | kept (count : Nat)
  /-- The time until the next task is due, if any is armed. -/
  | deadline (ms : Option UInt32)
  | pool (row : PoolRow)
  | query (row : TaskRow)
  | info (row : SchedulerRow)
  | capacity (count : Nat)
  | task (task : Task)
  /-- The clock. -/
  | clock (ms : UInt32)
  deriving DecidableEq, Repr

end TimedTasks
