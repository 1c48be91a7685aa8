import TimedTasks.Task.State

/-!
# Operations

What a client can ask of a scheduler, of the board under it and of the pools beside it. Operations are data: handlers
and interrupts are lists of them, and an operation may itself arm an interrupt with a list of its own.
-/

namespace TimedTasks

/-- The calls that a scheduler makes on its board. -/
inductive BoardCall
  /-- A reading of the clock. -/
  | now
  /-- The lock is taken. -/
  | lock
  | sleep
  /-- A session begins. -/
  | init
  /-- A session is over. -/
  | deinit
  deriving DecidableEq, Repr

namespace BoardCall

def name : BoardCall → String
  | now => "now"
  | lock => "lock"
  | sleep => "sleep"
  | init => "init"
  | deinit => "deinit"

def ofName? : String → Option BoardCall
  | "now" => some now
  | "lock" => some lock
  | "sleep" => some sleep
  | "init" => some init
  | "deinit" => some deinit
  | _ => none

theorem ofName?_name (c : BoardCall) : ofName? c.name = some c := by
  cases c <;> rfl

end BoardCall

/-- The task that an operation is about: the one whose handler runs the operation, or a slot by its index. -/
inductive TaskRef
  | self
  | slot (index : Nat)
  deriving DecidableEq, Repr

/-- An operation. It acts on the scheduler that it was called on, unless `on` names another one. -/
inductive Op
  /-- Hands out a slot. -/
  | declare
  | configure (task : TaskRef) (handler : Nat) (ms : UInt32) (repeats : Bool)
  | start (task : TaskRef)
  | stop (task : TaskRef)
  /-- A new interval, and a start. -/
  | update (task : TaskRef) (ms : UInt32)
  /-- Bytes for the handler; `none` stands for no bytes. -/
  | attach (task : TaskRef) (data : Option (List UInt8))
  /-- Bytes to copy into the segment of the task. -/
  | write (task : TaskRef) (data : List UInt8)
  /-- Takes a free slot of a pool. -/
  | alloc (pool : Nat)
  /-- The counts of a pool. -/
  | pool (pool : Nat)
  /-- Begins a session. -/
  | init
  /-- Dispatches rounds, and sleeps between them, until a shutdown. -/
  | run
  /-- Dispatches one round. -/
  | tick
  /-- Ends the session when its round is over. -/
  | shutdown
  /-- All that the scheduler says about a task. -/
  | query (task : TaskRef)
  /-- All that the scheduler says about itself. -/
  | info
  | capacity
  /-- The slot itself. -/
  | task (task : TaskRef)
  /-- Moves the clock on. -/
  | advance (ms : UInt32)
  | setNow (ms : UInt32)
  /-- Arms an interrupt: it lets `after` calls pass and runs `body` at the next one. -/
  | hook (call : BoardCall) (after : Nat) (body : List Op)
  /-- The operation on another scheduler. -/
  | on (device : Nat) (op : Op)
  deriving Repr

/-- The word for the operation in reports. -/
def Op.name : Op → String
  | declare => "declare"
  | configure .. => "configure"
  | start _ => "start"
  | stop _ => "stop"
  | update .. => "update"
  | attach .. => "attach"
  | write .. => "write"
  | alloc _ => "alloc"
  | pool _ => "pool"
  | init => "init"
  | run => "run"
  | tick => "tick"
  | shutdown => "shutdown"
  | query _ => "query"
  | info => "info"
  | capacity => "capacity"
  | task _ => "task"
  | advance _ => "advance"
  | setNow _ => "set_now"
  | hook .. => "hook"
  | on _ op => op.name

end TimedTasks
