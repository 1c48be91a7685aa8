import TimedTasks.Script

/-!
# On a host's own clock

On a host, the board reads the time since it was made, and sleeps by putting its thread to sleep. How long anything
takes there is not determined; what can be said is what holds for every clock that a sleep of `ms` milliseconds moves
on by at least `ms`. The clock here moves by exactly that, and stands still otherwise. With enough steps nothing else
depends on `ms`: the handler runs as often as it was asked to, and the session ends (`HostedRow.find_eq`).
-/

namespace TimedTasks

/-- What is found on a host with a task of `ms` milliseconds whose handler ends the session. -/
structure HostedRow where
  /-- A sleep of `ms` milliseconds moved the clock on by as much, or more. -/
  waited : Bool
  /-- The value that came out of the lock. -/
  passed : UInt32
  init : Answer
  run : Answer
  /-- How often the handler ran. -/
  runs : Nat
  runState : RunState
  deriving DecidableEq, Repr

namespace HostedRow

/-- One repeating task; its handler asks for the shutdown at its invocation number `runs`. -/
def script (ms : UInt32) (runs : Nat) : Script where
  setup :=
    { devices := [⟨1, 0, [], []⟩]
      clockOnly := false
      pools := []
      handlers := [List.replicate (runs - 1) [] ++ [[.shutdown]]]
      limit := runs + 2 }
  verbose := false
  ops := [.init, .declare, .configure (.slot 0) 0 ms true, .start (.slot 0), .run]

/-- How many handlers ran among the events of a list. -/
def countRuns (events : List Event) : Nat :=
  events.countP fun e =>
    match e with
    | .ran .. => true
    | _ => false

/-- The row for `ms` and `runs`, found with at most `fuel` steps for each operation. -/
def find (fuel : Nat) (ms : UInt32) (runs : Nat) : Except Stall HostedRow := do
  let board : Board := ⟨false, 0, [], [], []⟩
  let reports ← (script ms runs).run fuel
  match reports.head?, reports.getLast? with
  | some first, some last =>
    .ok
      { waited := ms ≤ (board.slept ms).clock - board.clock
        passed := ms
        init := first.answer
        run := last.answer
        runs := countRuns (reports.flatMap (·.events))
        runState := (last.states.head?.map (·.scheduler.runState)).getD .stopped }
  | _, _ => .error .unfinished

end HostedRow

end TimedTasks
