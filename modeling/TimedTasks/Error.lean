import TimedTasks.Task.Slot

/-!
# Refusals and faults

A refusal (`Error`) is an answer: the operation does not fit the state of things, says why, and changes nothing. A
`Fault` is the end of a computation: a name that nothing answers to, or a structure that is not what it should be.
Where an operation cannot fault, that is a fact about the states it works on.
-/

namespace TimedTasks

/-- Why an operation was refused. -/
inductive Error
  /-- The scheduler never handed out this id. -/
  | invalidTask (id : TaskId)
  /-- The task's state does not allow the operation. -/
  | invalidState (state : TaskState)
  /-- Bytes were to be copied into a task that has no segment. -/
  | notBuffered
  /-- The scheduler is in a session already. -/
  | alreadyRunning
  /-- The scheduler is not in a session. -/
  | notInitialized
  /-- A round is in progress. -/
  | busy
  deriving DecidableEq, Repr

namespace Error

/-- The name of the cause, without its details. -/
def name : Error → String
  | invalidTask _ => "InvalidTask"
  | invalidState _ => "InvalidState"
  | notBuffered => "NotBuffered"
  | alreadyRunning => "AlreadyRunning"
  | notInitialized => "NotInitialized"
  | busy => "Busy"

/-- The refusal as messages show it. -/
def message : Error → String
  | invalidTask id => "unknown " ++ id.text
  | invalidState state => "not allowed while " ++ state.name
  | notBuffered => "task has no buffer"
  | alreadyRunning => "scheduler already running"
  | notInitialized => "scheduler not initialized"
  | busy => "dispatch already in progress"

/-- The refusal as records show it: the name of the cause with its details. -/
def detail : Error → String
  | invalidTask id => "InvalidTask(" ++ id.detail ++ ")"
  | invalidState state => "InvalidState(" ++ state.name ++ ")"
  | e => e.name

end Error

/-- Why a computation cannot go on. -/
inductive Fault
  | noDevice (device : Nat)
  | noPool (pool : Nat)
  /-- An operation meant the task of its handler and had no handler. -/
  | noSelf
  | noSlot (slot : Nat)
  /-- The byte store does not reach as far as the segment. -/
  | badSegment (segment : Segment)
  /-- The links of a queue do not end, or it has only one of its two ends. -/
  | brokenQueue
  /-- A frame of the call stack waits for something that the frame above it does not give. -/
  | badStack
  deriving DecidableEq, Repr

end TimedTasks
