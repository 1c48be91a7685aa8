import TimedTasks.Answer
import TimedTasks.Op

/-!
# Events

What happens while an operation runs, in order: calls on a board, interrupts, handlers, the operations that handlers
and interrupts run, and messages to a log.
-/

namespace TimedTasks

/-- A message to the log. -/
inductive Log
  /-- A session began on a scheduler with this many slots. -/
  | initialized (slots : Nat)
  | running
  /-- A session ended with this many tasks configured. -/
  | stopped (tasks : Nat)
  | dispatch (id : TaskId)
  /-- A pool of this many slots does not fit. -/
  | noRoom (slots : Nat)
  deriving DecidableEq, Repr

namespace Log

def level : Log → String
  | initialized _ | running | stopped _ => "DEBUG"
  | dispatch _ => "TRACE"
  | noRoom _ => "WARN"

def text : Log → String
  | initialized slots => "scheduler init: " ++ toString slots ++ " task slots"
  | running => "scheduler running"
  | stopped tasks => "scheduler stopped: " ++ toString tasks ++ " tasks reset"
  | dispatch id => "dispatch " ++ id.text
  | noRoom slots => "task pool: arena has no room for " ++ toString slots ++ " slots"

end Log

/-- What happens while an operation runs; `device` is the number of the scheduler that it happens to. -/
inductive Event
  /-- The board is told that a session begins. -/
  | opened (device : Nat)
  /-- The board is told that a session is over. -/
  | closed (device : Nat)
  | slept (device : Nat) (ms : UInt32)
  /-- An interrupt came at a call of this kind. -/
  | interrupted (device : Nat) (call : BoardCall)
  /-- The handler of a task was invoked with these bytes. -/
  | ran (device : Nat) (id : TaskId) (handler : Nat) (clock : UInt32) (data : List UInt8)
  /-- An operation of a handler or an interrupt has its answer. -/
  | performed (op : String) (answer : Answer)
  | logged (message : Log)
  deriving DecidableEq, Repr

end TimedTasks
