import TimedTasks.Machine.Run

/-!
# Scripts

A script sets up a world and runs a list of operations in it, one after the other. It reports, for each operation, the
answer, what happened meanwhile, and what every scheduler says about itself and its slots afterwards. Looking at a
scheduler for a report reads its clock without moving it, and interrupts nothing.
-/

namespace TimedTasks

/-! ## The world at the beginning -/

/-- A scheduler with the clock of its board. -/
structure DeviceSetup where
  capacity : Nat
  clock : UInt32
  pace : List UInt32
  naps : List UInt32
  deriving DecidableEq, Repr

structure Setup where
  devices : List DeviceSetup
  /-- The boards have a clock and nothing else. -/
  clockOnly : Bool
  /-- How many slots each pool has, and of what size. -/
  pools : List (Nat × Nat)
  /-- The operations of each handler, for each of its invocations. -/
  handlers : List (List (List Op))
  limit : Nat
  /-- Pools wipe the bytes of a slot when they hand it out. -/
  wipes : Bool := false
  deriving Repr

namespace Setup

def device (s : Setup) (d : DeviceSetup) : Device where
  board := ⟨s.clockOnly, d.clock, d.pace, d.naps, []⟩
  scheduler := .fresh d.capacity

/-- The world in which nothing happened yet. -/
def world (s : Setup) : World where
  devices := (s.devices.map s.device).toArray
  pools := (s.pools.map fun (slots, slotSize) => Pool.unbound slots slotSize).toArray
  handlers := (s.handlers.map fun bodies => Handler.mk bodies 0).toArray
  wipes := s.wipes
  limit := s.limit
  runs := 0
  sleeps := 0
  trace := #[]

end Setup

/-! ## Reports -/

/-- What a scheduler says about itself and its slots. -/
structure Snapshot where
  scheduler : SchedulerRow
  tasks : List TaskRow
  deriving DecidableEq, Repr

def Device.snapshot (δ : Device) : Except Fault Snapshot := do
  let scheduler ← δ.scheduler.row δ.scheduler.runState δ.board.clock
  let tasks ← (List.range δ.scheduler.capacity).mapM fun i => do
    let found ← δ.scheduler.lookup i
    .ok (TaskRow.timed δ.board.clock found)
  .ok ⟨scheduler, tasks⟩

/-- What is reported of an operation. -/
structure Report where
  answer : Answer
  events : List Event
  states : List Snapshot
  deriving DecidableEq, Repr

/-- Why a script has no reports. -/
inductive Stall
  | fault (f : Fault)
  /-- An operation did not end within the steps that it was given. -/
  | unfinished
  deriving DecidableEq, Repr

structure Script where
  setup : Setup
  /-- Messages to the log are reported as well. -/
  verbose : Bool
  /-- The operations; those that name no scheduler act on the first one. -/
  ops : List Op
  deriving Repr

namespace Script

/-- Whether an event is reported. -/
def shows (s : Script) : Event → Bool
  | .logged _ => s.verbose
  | _ => true

/-- The report of an operation with answer `a` that led from one world to another. -/
def report (s : Script) (before after : World) (a : Answer) : Except Fault Report := do
  let states ← after.devices.toList.mapM Device.snapshot
  .ok ⟨a, (after.trace.toList.drop before.trace.size).filter s.shows, states⟩

/-- The reports of a list of operations from world `w` on, with at most `fuel` steps for each. -/
def runFrom (s : Script) (fuel : Nat) (w : World) : List Op → Except Stall (List Report)
  | [] => .ok []
  | op :: rest =>
    match (Machine.call w 0 op).run fuel with
    | .fault f => .error (.fault f)
    | .unfinished _ => .error .unfinished
    | .answered a after =>
      match s.report w after a with
      | .error f => .error (.fault f)
      | .ok r => (r :: ·) <$> s.runFrom fuel after rest

/-- The reports of a script, with at most `fuel` steps for each operation. -/
def run (s : Script) (fuel : Nat) : Except Stall (List Report) := s.runFrom fuel s.setup.world s.ops

end Script

end TimedTasks
