import TimedTasks.World

/-!
# Frames of the call stack

An operation is cut at the points where an interrupt can come: at each reading of the clock, at each piece of work
under the lock, and at the other calls on the board. What remains of it at such a point is a `Frame`, and the frames of
all calls in progress form a stack. A handler, the round that invoked it and the operation that it runs are frames on
top of each other, so whatever is in progress can be read off the stack.

A call on the board first runs the interrupts that come with it. They lie on the stack above the frame that goes on
after the call, and `World.calling` is the only place where that is arranged.
-/

namespace TimedTasks

/-- What is done with the clock once it is read. -/
inductive Reading
  /-- A start: stamps the task and leaves it in state `next`. -/
  | start (id : Nat) (next : TaskState)
  /-- A round's look at the task that the cache remembers. -/
  | cached (id : Nat) (timing : Interval)
  /-- A round's look at a task of the queue. -/
  | due (id : Nat) (timing : Interval)
  /-- The scan at the end of a round. -/
  | scan
  /-- The beginning of a repeating task's next interval, just before its handler runs. -/
  | renew (id : Nat)
  | elapsed (id : Nat) (timing : Interval) (row : TaskRow)
  | remaining (id : Nat) (timing : Interval) (row : TaskRow)
  | expired (id : Nat) (timing : Interval) (row : TaskRow)
  | info (runState : RunState)
  deriving DecidableEq, Repr

/-- What is done under the lock once it is taken. -/
inductive Section
  | declare
  | configure (id handler : Nat) (ms : UInt32) (repeats : Bool)
  /-- The cache is told of a task that was started at clock reading `now`. -/
  | noteArmed (id : Nat) (now : UInt32)
  /-- The cache is told of a task that was stopped. -/
  | forget (id : Nat)
  | attach (id : Nat) (data : List UInt8)
  | write (id : Nat) (data : List UInt8)
  | dataLength (id : Nat) (row : TaskRow)
  | beginSession
  | shutdown
  /-- The result of a round's scan at clock reading `now`. -/
  | adopt (best : Option Nat) (now : UInt32)
  /-- The handler and the bytes of the task that a round is to run. -/
  | fetch (id : Nat)
  | endSession
  /-- The last word on a session at whose end `tasks` tasks were configured. -/
  | sessionOver (tasks : Nat)
  | enroll (pool : Nat)
  /-- Slot `id` of a pool looked free, and `left` more follow it. -/
  | claim (id left : Nat)
  deriving DecidableEq, Repr

/-- What a frame is about to do. -/
inductive Act
  /-- An operation of the handler of task `self`, or of no handler. -/
  | perform (self : Option Nat) (op : Op)
  /-- Records the answer of an operation. -/
  | report (op : String)
  /-- Drops the answer of an operation. -/
  | discard
  /-- The operations of a handler or an interrupt that are still to run. -/
  | block (self : Option Nat) (ops : List Op)
  /-- The interrupts that come at a call on the board. -/
  | interrupts (call : BoardCall) (bodies : List (List Op))
  /-- Reads the clock. -/
  | reading (r : Reading)
  /-- Works under the lock. -/
  | locked (s : Section)
  /-- The board was told that a session begins. -/
  | opening
  /-- The board was told that a session with `tasks` tasks is over. -/
  | closing (tasks : Nat)
  | sleeping (ms : UInt32)
  /-- The loop of a run. -/
  | running
  /-- A single round that a client asked for. -/
  | ticking
  /-- A round in progress. -/
  | round
  /-- The beginning of a round: what does the cache say? -/
  | checkCache
  /-- The walk along the queue is to begin; slot `skip` had its turn. -/
  | survey (skip : Option Nat)
  /-- The walk along the queue has come to `cursor`. -/
  | walking (skip cursor : Option Nat)
  /-- Runs a task, if it still waits. -/
  | dispatch (id : Nat)
  /-- The handler of a task runs with these bytes. -/
  | handling (id handler : Nat) (data : Payload)
  /-- The end of a task's dispatch. -/
  | settle (id : Nat)
  /-- Looks for a free slot of a pool from slot `id` on, with `left` slots to go. -/
  | claiming (id left : Nat)
  /-- An operation is over. -/
  | answered (a : Answer)
  /-- A round is over; this much time is left until the next task is due. -/
  | deadline (ms : Option UInt32)
  deriving Repr

/-- A call in progress on a device. -/
structure Frame where
  device : Nat
  act : Act
  deriving Repr

/-- What a step leaves: the world, and the frames in place of the one that stepped. -/
structure Move where
  world : World
  frames : List Frame
  deriving Repr

namespace World

/-- The step leaves device `d` as `δ`, with `acts` to go on with. -/
def leaving (w : World) (d : Nat) (δ : Device) (acts : List Act) : Move :=
  ⟨w.put d δ, acts.map (⟨d, ·⟩)⟩

/-- The step ends with an answer. -/
def answering (w : World) (d : Nat) (δ : Device) (a : Answer) : Move := w.leaving d δ [.answered a]

/-- The step ends in a call on the board. `acts` go on after it, when the interrupts that come with it are over. -/
def calling (w : World) (d : Nat) (δ : Device) (call : BoardCall) (acts : List Act) : Move :=
  let (board, bodies) := δ.board.called call
  w.leaving d (δ.withBoard board) (.interrupts call bodies :: acts)

end World

end TimedTasks
