/-!
# Ids and states of tasks

A task lives in a slot, and its `TaskId` is the index of that slot. `TaskState` is the life cycle of the slot.
-/

namespace TimedTasks

/-- The name of a task: the index of its slot. -/
structure TaskId where
  index : Nat
  deriving DecidableEq, Repr

namespace TaskId

/-- Task ids are ordered by index. -/
instance : LT TaskId := ⟨fun a b => a.index < b.index⟩

instance (a b : TaskId) : Decidable (a < b) := inferInstanceAs (Decidable (a.index < b.index))

instance : Max TaskId := ⟨fun a b => if a < b then b else a⟩

/-- The id as messages show it. -/
def text (id : TaskId) : String := "task#" ++ toString id.index

/-- The id as records show it. -/
def detail (id : TaskId) : String := "TaskId(" ++ toString id.index ++ ")"

end TaskId

/-- The life cycle of a slot. `executing` and `stopping` mean that the task's handler is on the call stack; with
`stopping` the task is to end up `stopped`, with `executing` it is to be armed again. -/
inductive TaskState
  /-- Not configured. -/
  | uninit
  /-- Configured and not armed. -/
  | stopped
  /-- Armed and waiting for its interval to run out. -/
  | active
  | executing
  | stopping
  deriving DecidableEq, Repr

namespace TaskState

def name : TaskState → String
  | uninit => "Uninit"
  | stopped => "Stopped"
  | active => "Active"
  | executing => "Executing"
  | stopping => "Stopping"

/-- States are numbered in the order of the life cycle. -/
def number : TaskState → Nat
  | uninit => 0
  | stopped => 1
  | active => 2
  | executing => 3
  | stopping => 4

def ofNumber? : Nat → Option TaskState
  | 0 => some uninit
  | 1 => some stopped
  | 2 => some active
  | 3 => some executing
  | 4 => some stopping
  | _ => none

theorem ofNumber?_number (s : TaskState) : ofNumber? s.number = some s := by
  cases s <;> rfl

/-- The handler of the task is on the call stack. -/
def inHandler : TaskState → Bool
  | executing | stopping => true
  | _ => false

/-- The interval of the task counts. -/
def armed : TaskState → Bool
  | active | executing => true
  | _ => false

/-- The state in which a start leaves the task: armed, also when its handler was to be the last one. A task that was
never configured cannot be started. -/
def started : TaskState → Option TaskState
  | uninit => none
  | stopped | active => some active
  | executing | stopping => some executing

end TaskState

end TimedTasks
