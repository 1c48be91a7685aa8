import TimedTasks.Scheduler.Basic

/-!
# Sessions and rounds

A session begins and ends with nothing configured. In between, rounds dispatch what is due; a round that looked at the
whole queue ends with a scan for the task that is due next.
-/

namespace TimedTasks

namespace Scheduler

/-! ## Sessions -/

/-- The beginning of a session: nothing is configured any more. -/
def beginSession (σ : Scheduler) : Except Fault Scheduler := do
  let (_, arena) ← σ.queue.dismiss σ.arena
  .ok { σ with arena, queue := .empty, cache := .empty }

/-- The end of a session: nothing is configured, and every slot is back in its pool. Says how many tasks there were. -/
def endSession (σ : Scheduler) : Except Fault (Nat × Scheduler) := do
  let (count, arena) ← σ.queue.dismiss σ.arena
  let arena ← arena.alterAll Task.giveBack (List.range σ.declared)
  .ok (count, { σ with arena, queue := .empty, cache := .empty })

/-- Asks a session to end; without a session there is nothing to ask. -/
def shutdown (σ : Scheduler) : Scheduler :=
  if σ.runState = .stopped then σ else { σ with runState := .stopping }

/-! ## Rounds -/

/-- The waiting task of a list that has least time left at `now`, with that time; of two the first. -/
def soonestOf (a : Arena) (now : UInt32) : List Nat → Option (Nat × UInt32) → Except Fault (Option (Nat × UInt32))
  | [], best => .ok best
  | i :: rest, best => do
    let t ← a.slot i
    let left := t.timing.remaining now
    let best :=
      if t.state = .active then
        match best with
        | some (j, least) => if left < least then some (i, left) else some (j, least)
        | none => some (i, left)
      else best
    soonestOf a now rest best

/-- The queued task that is due next. -/
def scan (σ : Scheduler) (now : UInt32) : Except Fault (Option Nat) := do
  let best ← soonestOf σ.arena now (← σ.queued) none
  .ok (best.map (·.1))

/-- Remembers the result of a scan and says how long it is until then. -/
def adopt (σ : Scheduler) (best : Option Nat) (now : UInt32) : Except Fault (Scheduler × Option UInt32) := do
  let (cache, left) ← σ.cache.adopt σ.arena best now
  .ok ({ σ with cache }, left)

end Scheduler

end TimedTasks
