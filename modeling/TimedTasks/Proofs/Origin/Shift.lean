import Mathlib.Logic.Function.Basic
import TimedTasks.Script

/-!
# The same on other clocks

What everything looks like on boards whose clocks are `k` ahead: each clock value that is kept anywhere is `k` more.
Nothing else changes, but for one thing. A slot that was not started since it was last reset bears no reading of any
clock. Its interval begins at zero on every board, so its age, which is of no use before a start, does depend on where
the clock began.

Which slots were started is not written anywhere. A `Tally` keeps it beside the run. It also keeps of which queries in
progress, and of which answers in the record of events, the subject was such a slot. With it the state of the other run
is a function of the state of the one (`Machine.shift`).
-/

namespace TimedTasks

variable {k : UInt32}

/-! ## Intervals and slots -/

namespace Interval

/-- The interval on a clock that is `k` ahead. -/
def shift (t : Interval) (k : UInt32) : Interval := { t with start := t.start + k }

variable {t : Interval} {now : UInt32}

@[simp] theorem length_shift : (t.shift k).length = t.length := rfl

@[simp] theorem shift_zero : t.shift 0 = t := by simp [shift]

/-- The age of an interval is the same when it and the clock are ahead by as much. -/
@[simp] theorem elapsed_shift : (t.shift k).elapsed (now + k) = t.elapsed now := by
  simp only [elapsed, shift]
  grind

/-- The age of an interval that stays where it is. -/
theorem elapsed_add : t.elapsed (now + k) = t.elapsed now + k := by
  simp only [elapsed]
  grind

/-- So is whether it is over. -/
@[simp] theorem expired_shift : (t.shift k).expired (now + k) = t.expired now := by
  rw [expired, elapsed_shift, length_shift, expired]

/-- And the time that is left of it. -/
@[simp] theorem remaining_shift : (t.shift k).remaining (now + k) = t.remaining now := by
  rw [remaining, elapsed_shift, length_shift, remaining]

end Interval

namespace Task

/-- The slot on a clock that is `k` ahead. -/
def shift (t : Task) (k : UInt32) : Task := { t with timing := t.timing.shift k }

variable {t : Task}

@[simp] theorem state_shift : (t.shift k).state = t.state := rfl
@[simp] theorem timing_shift : (t.shift k).timing = t.timing.shift k := rfl
@[simp] theorem repeats_shift : (t.shift k).repeats = t.repeats := rfl
@[simp] theorem pooled_shift : (t.shift k).pooled = t.pooled := rfl
@[simp] theorem allocated_shift : (t.shift k).allocated = t.allocated := rfl
@[simp] theorem next_shift : (t.shift k).next = t.next := rfl
@[simp] theorem handler_shift : (t.shift k).handler = t.handler := rfl
@[simp] theorem payload_shift : (t.shift k).payload = t.payload := rfl
@[simp] theorem shift_zero : t.shift 0 = t := by simp [shift]

/-- Giving a slot back to its pool leaves its interval as it is. -/
theorem giveBack_shift : (t.shift k).giveBack = t.giveBack.shift k := by
  rcases t with ⟨state, timing, repeats, pooled, allocated, next, handler, payload⟩
  cases pooled <;> rfl

/-- So does a stop. -/
theorem stop_shift : (t.shift k).stop = t.stop.shift k := by
  rcases t with ⟨state, timing, repeats, pooled, allocated, next, handler, payload⟩
  cases state <;> cases pooled <;> rfl

/-- And the end of a dispatch. -/
theorem settle_shift : (t.shift k).settle = t.settle.shift k := by
  rcases t with ⟨state, timing, repeats, pooled, allocated, next, handler, payload⟩
  cases state <;> cases pooled <;> rfl

/-- A stamp is a reading of the clock, whatever was there before. -/
theorem start_shift {before now : UInt32} {next : TaskState} :
    (t.shift before).start next (now + k) = (t.start next now).shift k := rfl

/-- A reset leaves no reading of the clock. -/
theorem unconfigure_shift {before : UInt32} : (t.shift before).unconfigure = t.unconfigure.shift 0 := by
  simp [unconfigure]

end Task

/-- The slots, slot `i` on a clock that is `φ i` ahead. -/
def Arena.shift (a : Arena) (φ : Nat → UInt32) : Arena := a.mapIdx fun i t => t.shift (φ i)

/-- The scheduler, slot `i` on a clock that is `φ i` ahead. -/
def Scheduler.shift (σ : Scheduler) (φ : Nat → UInt32) : Scheduler := { σ with arena := σ.arena.shift φ }

/-! ## Operations and boards -/

mutual

/-- The operation, with all clock values that it names `k` ahead. -/
def Op.shift (k : UInt32) : Op → Op
  | .setNow ms => .setNow (ms + k)
  | .hook call after body => .hook call after (Op.shiftAll k body)
  | .on d op => .on d (op.shift k)
  | op => op

/-- The operations of a list. -/
def Op.shiftAll (k : UInt32) : List Op → List Op
  | [] => []
  | op :: ops => op.shift k :: Op.shiftAll k ops

end

namespace Op

/-- The operations of a list are shifted one by one. -/
@[simp] theorem shiftAll_eq_map (ops : List Op) : shiftAll k ops = ops.map (shift k) := by
  induction ops with
  | nil => rfl
  | cons op ops ih => rw [shiftAll, ih, List.map_cons]

/-- The word for an operation in reports names no clock value. -/
@[simp] theorem name_shift : ∀ op : Op, (op.shift k).name = op.name
  | .on _ op => name_shift op
  | .declare | .configure .. | .start _ | .stop _ | .update .. | .attach .. | .write .. | .alloc _ | .pool _ | .init
  | .run | .tick | .shutdown | .query _ | .info | .capacity | .task _ | .advance _ | .setNow _ | .hook .. => rfl

end Op

/-- The interrupt, with shifted operations. -/
def Interrupt.shift (k : UInt32) (i : Interrupt) : Interrupt := { i with body := i.body.map (Op.shift k) }

/-- The board, its clock `k` ahead. -/
def Board.shift (k : UInt32) (b : Board) : Board :=
  { b with clock := b.clock + k, interrupts := b.interrupts.map (Interrupt.shift k) }

/-- The device, its clock `k` ahead, and slot `i` on a clock that is `φ i` ahead. -/
def Device.shift (k : UInt32) (φ : Nat → UInt32) (δ : Device) : Device := ⟨δ.board.shift k, δ.scheduler.shift φ⟩

/-- The handler, with shifted operations in every body. -/
def Handler.shift (k : UInt32) (h : Handler) : Handler :=
  { h with bodies := h.bodies.map fun body => body.map (Op.shift k) }

/-! ## Answers and events -/

/-- What is said of a task on clocks that are `k` ahead; of a task that was not started, the age is `k` more. -/
def TaskRow.shift (k : UInt32) (unstarted : Bool) (row : TaskRow) : TaskRow :=
  if unstarted then { row with elapsed := row.elapsed + k } else row

/-- How far ahead the interval of a slot is on a clock that is `k` ahead. -/
def ahead (k : UInt32) (unstarted : Bool) : UInt32 := if unstarted then 0 else k

/-- The answer on clocks that are `k` ahead; `unstarted` tells whether it is about a slot that was not started. -/
def Answer.shift (k : UInt32) (unstarted : Bool) : Answer → Answer
  | .query row => .query (row.shift k unstarted)
  | .info row => .info { row with now := row.now + k }
  | .task t => .task (t.shift (ahead k unstarted))
  | .clock ms => .clock (ms + k)
  | a => a

/-- The event, with the readings that it tells of `k` ahead. -/
def Event.shift (k : UInt32) (unstarted : Bool) : Event → Event
  | .ran d id handler clock data => .ran d id handler (clock + k) data
  | .performed op a => .performed op (a.shift k unstarted)
  | e => e

/-! ## Frames -/

/-- The reading on clocks that are `k` ahead. Intervals that a round looks at, or that have time left, were started. -/
def Reading.shift (k : UInt32) (unstarted : Bool) : Reading → Reading
  | .cached i timing => .cached i (timing.shift k)
  | .due i timing => .due i (timing.shift k)
  | .elapsed i timing row => .elapsed i (timing.shift (ahead k unstarted)) row
  | .remaining i timing row => .remaining i (timing.shift k) (row.shift k unstarted)
  | .expired i timing row => .expired i (timing.shift k) (row.shift k unstarted)
  | r => r

/-- The section, with the reading that it works with `k` ahead. -/
def Section.shift (k : UInt32) : Section → Section
  | .noteArmed i now => .noteArmed i (now + k)
  | .adopt best now => .adopt best (now + k)
  | s => s

/-- The act on clocks that are `k` ahead; `unstarted` tells whether it asks about a slot that was not started. -/
def Act.shift (k : UInt32) (unstarted : Bool) : Act → Act
  | .perform self op => .perform self (op.shift k)
  | .block self ops => .block self (ops.map (Op.shift k))
  | .interrupts call bodies => .interrupts call (bodies.map fun body => body.map (Op.shift k))
  | .reading r => .reading (r.shift k unstarted)
  | .locked s => .locked (s.shift k)
  | .answered a => .answered (a.shift k unstarted)
  | a => a

/-- The frames of a stack; `asked` tells of each height whether the frame there asks about a slot that was not
started. -/
def shiftStack (k : UInt32) (asked : Nat → Bool) : List Frame → List Frame
  | [] => []
  | f :: rest => ⟨f.device, f.act.shift k (asked rest.length)⟩ :: shiftStack k asked rest

/-! ## Machines -/

/-- What is kept beside a run to tell how it would go on other clocks. -/
structure Tally where
  /-- The slots of each device that were started since they were last reset. -/
  started : Nat → Nat → Bool
  /-- The heights of the stack at which something is asked about a slot that was not started. -/
  asked : Nat → Bool
  /-- The events whose answers are about such slots. -/
  told : Nat → Bool

namespace Tally

/-- Nothing was started, and nothing asked. -/
def empty : Tally := ⟨fun _ _ => false, fun _ => false, fun _ => false⟩

/-- How far ahead the slots of device `d` are on clocks that are `k` ahead. -/
def offset (T : Tally) (k : UInt32) (d : Nat) : Nat → UInt32 := fun i => ahead k (!T.started d i)

end Tally

/-- The world on clocks that are `k` ahead. -/
def World.shift (k : UInt32) (T : Tally) (w : World) : World :=
  { w with
    devices := w.devices.mapIdx fun d δ => δ.shift k (T.offset k d)
    handlers := w.handlers.map (Handler.shift k)
    trace := w.trace.mapIdx fun n e => e.shift k (T.told n) }

/-- The machine on clocks that are `k` ahead. -/
def Machine.shift (k : UInt32) (T : Tally) (m : Machine) : Machine := ⟨m.world.shift k T, shiftStack k T.asked m.stack⟩

def Outcome.shift (k : UInt32) (T : Tally) : Outcome → Outcome
  | .next m => .next (m.shift k T)
  | .done a w => .done (a.shift k (T.asked 0)) (w.shift k T)
  | .fault f => .fault f

namespace Tally

/-- Task `i` is configured, and was not started since. -/
def unstarted (T : Tally) (σ : Scheduler) (d i : Nat) : Bool :=
  match σ.lookup i with
  | .ok (some t) => t.state ≠ .uninit && !T.started d i
  | _ => false

/-- The operation shows a slot that was not started. -/
def shows (T : Tally) (d : Nat) (self : Option Nat) : Op → Bool
  | .task ref =>
    match ref.resolve self with
    | .ok i => !T.started d i
    | .error _ => false
  | _ => false

/-- The tally after slot `i` was stamped. -/
def stamped (T : Tally) (d i : Nat) : Tally :=
  { T with started := Function.update T.started d (Function.update (T.started d) i true) }

/-- The tally after the slots of a list were reset. -/
def reset (T : Tally) (d : Nat) (l : List Nat) : Tally :=
  { T with started := Function.update T.started d fun i => T.started d i && i ∉ l }

/-- The tally after a frame of device `d` at height `n` did its work. -/
def after (T : Tally) (σ : Scheduler) (d n : Nat) : Act → Tally
  | .perform self op => { T with asked := Function.update T.asked n (T.shows d self op) }
  | .locked (.dataLength i _) =>
    { T with asked := Function.update T.asked n (T.unstarted σ d i) }
  | .reading (.start i _) | .reading (.renew i) => T.stamped d i
  | .locked .beginSession | .locked .endSession =>
    match σ.queued with
    | .ok l => T.reset d l
    | .error _ => T
  | _ => T

/-- The tally after the frame below took answer number `n` of the record. -/
def heard (T : Tally) (n : Nat) (unstarted : Bool) : Act → Tally
  | .report _ => { T with told := Function.update T.told n unstarted }
  | _ => T

end Tally

/-- The tally after a step of the machine. -/
def Machine.tally (m : Machine) (T : Tally) : Tally :=
  match m.stack with
  | ⟨_, .answered _⟩ :: ⟨_, act⟩ :: rest => T.heard m.world.trace.size (T.asked (rest.length + 1)) act
  | ⟨_, .answered _⟩ :: [] | ⟨_, .deadline _⟩ :: _ | [] => T
  | ⟨d, act⟩ :: rest =>
    match m.world.devices[d]? with
    | some δ => T.after δ.scheduler d rest.length act
    | none => T

end TimedTasks
