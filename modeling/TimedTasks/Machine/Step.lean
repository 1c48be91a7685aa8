import TimedTasks.Machine.Resume

/-!
# The machine

A `Machine` is a world with a stack of calls in progress, and `Machine.step` is all that ever happens: the frame on top
of the stack does its next piece of work and is replaced by the frames that are left to do. An answer, or the deadline
that a round ends with, goes to the frame below. A call is over when its answer is all that is on the stack.

A step depends on the machine alone, so a machine has one run, and what holds in all its states is an invariant of
`Machine.step`.
-/

namespace TimedTasks

namespace World

/-! ## Single frames -/

/-- Sleeps, on a board that can, and then goes on with the loop of the run. -/
def sleep (w : World) (d : Nat) (δ : Device) (ms : UInt32) : Move :=
  if δ.board.serves .sleep then (w.emit (.slept d ms)).calling d δ .sleep [.sleeping ms, .running]
  else w.leaving d δ [.running]

/-- The sleep is over. Once there were `limit` of them, a sleep ends with a shutdown. -/
def wake (w : World) (d : Nat) (δ : Device) (ms : UInt32) : Move :=
  let w := { w with sleeps := w.sleeps + 1 }
  w.leaving d (δ.withBoard (δ.board.slept ms)) (if w.limit ≤ w.sleeps then [.block none [.shutdown]] else [])

/-- A handler is over. Once there were `limit` of them, a handler ends with a shutdown. -/
def countRun (w : World) (d : Nat) (δ : Device) : Move :=
  let w := { w with runs := w.runs + 1 }
  if w.limit ≤ w.runs then w.calling d δ .lock [.locked .shutdown, .discard] else w.leaving d δ []

/-- The loop of a run: another round while the session lasts, then its end. -/
def loop (w : World) (d : Nat) (δ : Device) : Move :=
  if δ.scheduler.runState = .active then w.beginRound d δ .running
  else w.calling d δ .lock [.locked .endSession]

/-- The beginning of a round. If the cache remembers a task that waits, the clock decides what comes next. -/
def checkCache (w : World) (d : Nat) (δ : Device) : Except Fault Move := do
  match δ.scheduler.cache.soonest with
  | none => .ok (w.leaving d δ [.survey none])
  | some i =>
    let t ← δ.scheduler.arena.slot i
    if t.state = .active then .ok (w.calling d δ .now [.reading (.cached i t.timing)])
    else .ok (w.leaving d δ [.survey none])

/-- One step along the queue, past slot `skip`. The link to the next slot is read before the slot has its turn. At the
end of the queue the round scans for the next deadline. -/
def walk (w : World) (d : Nat) (δ : Device) (skip : Option Nat) : (cursor : Option Nat) → Except Fault Move
  | none => .ok (w.calling d δ .now [.reading .scan])
  | some i => do
    let t ← δ.scheduler.arena.slot i
    if skip ≠ some i ∧ t.state = .active then
      .ok (w.calling d δ .now [.reading (.due i t.timing), .walking skip t.next])
    else .ok (w.leaving d δ [.walking skip t.next])

/-- What a frame does when it is on top of the stack. -/
def step (w : World) (d : Nat) (δ : Device) : Act → Except Fault Move
  | .perform self op => w.perform d δ self op
  | .block _ [] => .ok (w.leaving d δ [])
  | .block self (op :: ops) => .ok (w.leaving d δ [.perform self op, .report op.name, .block self ops])
  | .interrupts _ [] => .ok (w.leaving d δ [])
  | .interrupts call (body :: rest) =>
    .ok ((w.emit (.interrupted d call)).leaving d δ [.block none body, .interrupts call rest])
  | .reading r =>
    let (now, board) := δ.board.readClock
    w.resume d (δ.withBoard board) now r
  | .locked s => w.work d δ s
  | .opening => .ok (w.calling d δ .lock [.locked .beginSession])
  | .closing tasks => .ok (w.calling d δ .lock [.locked (.sessionOver tasks)])
  | .sleeping ms => .ok (w.wake d δ ms)
  | .running => .ok (w.loop d δ)
  | .checkCache => w.checkCache d δ
  | .survey skip => .ok (w.leaving d δ [.walking skip δ.scheduler.queue.head])
  | .walking skip cursor => w.walk d δ skip cursor
  | .dispatch i => w.dispatch d δ i
  | .handling _ _ _ => .ok (w.countRun d δ)
  | .settle i => do
    let σ ← δ.scheduler.alter i Task.settle
    .ok (w.leaving d (δ.withScheduler σ) [])
  | .claiming i left => .ok (w.claiming d δ i left)
  | .report _ | .discard | .ticking | .round | .answered _ | .deadline _ => .error .badStack

/-! ## Results -/

/-- What the frame below does with an answer. -/
def takeAnswer (w : World) (d : Nat) (δ : Device) (a : Answer) : Act → Except Fault Move
  | .report op => .ok ((w.emit (.performed op a)).leaving d δ [])
  | .discard => .ok (w.leaving d δ [])
  | _ => .error .badStack

/-- What the frame below does with the deadline of a round. A run sleeps until then, or for the longest interval when
nothing is armed, unless its session is to end. -/
def takeDeadline (w : World) (d : Nat) (δ : Device) (ms : Option UInt32) : Act → Except Fault Move
  | .round => .ok (w.leaving d (δ.withScheduler { δ.scheduler with inRound := false }) [.deadline ms])
  | .ticking => .ok (w.answering d δ (.deadline ms))
  | .running =>
    let nap := ms.getD Interval.longest
    if δ.scheduler.runState = .active ∧ nap ≠ 0 then .ok (w.sleep d δ nap)
    else .ok (w.leaving d δ [.running])
  | _ => .error .badStack

end World

/-- A world with the calls that are in progress in it, the innermost first. -/
structure Machine where
  world : World
  stack : List Frame
  deriving Repr

/-- What a step of a machine leads to. -/
inductive Outcome
  | next (m : Machine)
  /-- The call is over. -/
  | done (a : Answer) (w : World)
  | fault (f : Fault)
  deriving Repr

namespace Machine

/-- Puts the frames of a move on the rest of the stack. -/
def onto (rest : List Frame) : Except Fault Move → Outcome
  | .ok move => .next ⟨move.world, move.frames ++ rest⟩
  | .error f => .fault f

/-- One step: the top frame works, or hands its result to the frame below. -/
def step (m : Machine) : Outcome :=
  match m.stack with
  | [] => .fault .badStack
  | ⟨_, .answered a⟩ :: [] => .done a m.world
  | ⟨_, .answered a⟩ :: ⟨d, act⟩ :: rest => onto rest (do m.world.takeAnswer d (← m.world.device d) a act)
  | ⟨_, .deadline ms⟩ :: ⟨d, act⟩ :: rest => onto rest (do m.world.takeDeadline d (← m.world.device d) ms act)
  | ⟨d, act⟩ :: rest => onto rest (do m.world.step d (← m.world.device d) act)

/-- The machine that begins an operation on scheduler `d` while nothing else is in progress. -/
def call (w : World) (d : Nat) (op : Op) : Machine := ⟨w, [⟨d, .perform none op⟩]⟩

end Machine

end TimedTasks
