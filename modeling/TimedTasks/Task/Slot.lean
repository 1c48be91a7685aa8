import TimedTasks.Interval
import TimedTasks.Task.Payload
import TimedTasks.Task.State

/-!
# Task slots

A slot holds everything about one task: its state, its interval, the program that handles it and its bytes. It also
holds the link to the next slot of the queue, so a queue needs no storage of its own. The functions here change one
slot and know nothing of the others.
-/

namespace TimedTasks

/-- A task slot. `handler` is the number of the program that runs when the task is dispatched, `next` the slot behind
this one in the queue. A slot that belongs to a pool (`pooled`) is handed out and given back (`allocated`). -/
structure Task where
  state : TaskState
  timing : Interval
  repeats : Bool
  pooled : Bool
  allocated : Bool
  next : Option Nat
  handler : Option Nat
  payload : Payload
  deriving DecidableEq, Repr

namespace Task

/-- A slot that was never used. -/
def fresh : Task where
  state := .uninit
  timing := ⟨0, 0⟩
  repeats := false
  pooled := false
  allocated := false
  next := none
  handler := none
  payload := .attached []

/-! ## Belonging to a pool -/

/-- Makes the slot a free slot of a pool, with its bytes in `segment`. -/
def enroll (t : Task) (segment : Segment) : Task :=
  { t with pooled := true, allocated := false, payload := .copied segment 0 }

/-- Hands the slot out: it has no bytes for whoever has it now. Those of the one before may still be in the segment
(`World.wiped`). -/
def handOut (t : Task) : Task := { t with allocated := true, payload := t.payload.emptied }

/-- Gives the slot back to its pool; a slot without a pool has none to go back to. -/
def giveBack (t : Task) : Task := if t.pooled then { t with allocated := false } else t

/-! ## The life cycle -/

/-- Back to a slot that was never configured, outside of every queue. It still belongs to its pool. -/
def unconfigure (t : Task) : Task := { fresh with pooled := t.pooled, payload := t.payload.emptied }

/-- The interval of the task begins at clock reading `now`. -/
def beginAt (t : Task) (now : UInt32) : Task := { t with timing := { t.timing with start := now } }

/-- The interval of the task lasts `ms` milliseconds. -/
def withLength (t : Task) (ms : UInt32) : Task := { t with timing := { t.timing with length := ms } }

/-- Gives the task its handler, its interval and its mode. It is left disarmed. -/
def configure (t : Task) (handler : Nat) (ms : UInt32) (repeats : Bool) : Task :=
  { t.withLength (Interval.clamp ms repeats) with handler := some handler, repeats, state := .stopped }

/-- Arms the task at clock reading `now`, with `next` as the state that a start leads to. -/
def start (t : Task) (next : TaskState) (now : UInt32) : Task := { t.beginAt now with state := next }

/-- What a stop does: at once outside the handler, and inside it once the handler returns. -/
def stop (t : Task) : Task :=
  match t.state with
  | .active => { t with state := .stopped }.giveBack
  | .executing => { t with state := .stopping }
  | _ => t

/-- The end of a dispatch. What the handler left, `executing` or `stopping`, decides whether the task is armed again. -/
def settle (t : Task) : Task :=
  match t.state with
  | .executing => { t with state := .active }
  | .stopping => { t with state := .stopped }.giveBack
  | _ => t

/-- The slot as records show it. -/
def detail (t : Task) : String :=
  "Task \x7b state: " ++ t.state.name ++ ", start_ms: " ++ toString t.timing.start ++ ", interval_ms: " ++
    toString t.timing.length ++ ", repeat: " ++ toString t.repeats ++ ", pooled: " ++ toString t.pooled ++
    ", allocated: " ++ toString t.allocated ++ " \x7d"

end Task

end TimedTasks
