import TimedTasks.Op

/-!
# Boards

A board is what a scheduler needs from the hardware under it: a clock, a lock, sleep, and someone to tell when a
session begins and ends. On a real board an interrupt may come at any time. Here interrupts are armed ahead and come only
at the calls that a scheduler makes on its board. What lies between two such calls is one step, also where a stop, a start
or an update reads and writes a task without the lock: an interrupt in the middle of that is not modelled.

Each reading of the clock may move it on, and a sleep may end early. How far and how early are lists of amounts, used
up one by one, of which the last one stays (`pace`, `naps`).
-/

namespace TimedTasks

/-- An armed interrupt: `after` calls of kind `call` pass, the next one is interrupted by `body`. -/
structure Interrupt where
  call : BoardCall
  after : Nat
  body : List Op
  deriving Repr

namespace Interrupt

/-- The interrupt waits for this kind of call and lets no more of them pass. -/
def due (i : Interrupt) (call : BoardCall) : Bool := i.call = call && i.after = 0

/-- The interrupt after a call that did not fire it. -/
def passed (i : Interrupt) (call : BoardCall) : Interrupt :=
  if i.call = call then { i with after := i.after - 1 } else i

end Interrupt

structure Board where
  /-- The board has a clock and nothing else: no sleep, no one to tell of sessions, and a lock that nothing notices. -/
  clockOnly : Bool
  clock : UInt32
  /-- How far the clock moves at each reading. -/
  pace : List UInt32
  /-- How long each sleep can last. -/
  naps : List UInt32
  /-- The armed interrupts, in the order in which they were armed. -/
  interrupts : List Interrupt
  deriving Repr

namespace Board

/-- Whether anything comes of a call of this kind. -/
def serves (b : Board) (call : BoardCall) : Bool := !b.clockOnly || call = .now

/-- A call of kind `call`: the interrupts that are due leave the board in the order in which they were armed, and the
others of this kind come one call closer. -/
def called (b : Board) (call : BoardCall) : Board × List (List Op) :=
  if b.serves call then
    ({ b with interrupts := (b.interrupts.filter fun i => !i.due call).map fun i => i.passed call },
      (b.interrupts.filter fun i => i.due call).map fun i => i.body)
  else (b, [])

/-- The amounts that are left after one was used. -/
def usedUp : List UInt32 → List UInt32
  | _ :: next :: rest => next :: rest
  | last => last

/-- Reads the clock, which then moves on. -/
def readClock (b : Board) : UInt32 × Board :=
  (b.clock, { b with clock := b.clock + b.pace.headD 0, pace := usedUp b.pace })

/-- The board after a sleep of `ms` milliseconds, or less if the sleep ended early. -/
def slept (b : Board) (ms : UInt32) : Board :=
  { b with clock := b.clock + min ms (b.naps.headD ms), naps := usedUp b.naps }

def advance (b : Board) (ms : UInt32) : Board := { b with clock := b.clock + ms }

def setNow (b : Board) (ms : UInt32) : Board := { b with clock := ms }

/-- Arms an interrupt behind the others. -/
def arm (b : Board) (i : Interrupt) : Board := { b with interrupts := b.interrupts ++ [i] }

end Board

end TimedTasks
