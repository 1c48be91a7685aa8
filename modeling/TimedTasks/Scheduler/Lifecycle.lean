import TimedTasks.Scheduler.Basic

/-!
# The life of a task

Configuring, starting and stopping a task, and giving it bytes. A start comes in three pieces, since it reads the clock
and takes the lock: the state that it leads to (`startState`), the stamp (`start`) and the word to the cache
(`noteArmed`).
-/

namespace TimedTasks

namespace Scheduler

/-- Links a slot into the queue, behind the others. -/
def enqueue (σ : Scheduler) (i : Nat) : Except Fault Scheduler := do
  let (queue, arena) ← σ.queue.push σ.arena i
  .ok { σ with queue, arena }

/-- Configures a task whose handler is not on the call stack. The first time this links it into the queue. -/
def configure (σ : Scheduler) (i handler : Nat) (ms : UInt32) (repeats : Bool) :
    Except Fault (Except Error Scheduler) := do
  let t ← σ.arena.slot i
  if t.state.inHandler then .ok (.error (.invalidState t.state))
  else
    let σ ← if t.state = .uninit then σ.enqueue i else .ok σ
    let σ ← σ.alter i fun t => t.configure handler ms repeats
    .ok (.ok { σ with cache := σ.cache.forget i })

/-! ## Starting -/

/-- The state in which a start is to leave the task. -/
def startState (σ : Scheduler) (i : Nat) : Except Fault (Except Error TaskState) := do
  match ← σ.lookup i with
  | none => .ok (.error (.invalidTask ⟨i⟩))
  | some t =>
    match t.state.started with
    | none => .ok (.error (.invalidState t.state))
    | some next => .ok (.ok next)

/-- Arms a task at clock reading `now`. -/
def start (σ : Scheduler) (i : Nat) (next : TaskState) (now : UInt32) : Except Fault Scheduler :=
  σ.alter i fun t => t.start next now

/-- Tells the cache that a task was armed. -/
def noteArmed (σ : Scheduler) (i : Nat) (now : UInt32) : Except Fault Scheduler := do
  let cache ← σ.cache.noteArmed σ.arena i now
  .ok { σ with cache }

/-- Gives a configured task a new interval. -/
def relength (σ : Scheduler) (i : Nat) (ms : UInt32) : Except Fault (Except Error Scheduler) := do
  match ← σ.lookup i with
  | none => .ok (.error (.invalidTask ⟨i⟩))
  | some t =>
    if t.state = .uninit then .ok (.error (.invalidState t.state))
    else
      let σ ← σ.alter i fun t => t.withLength (Interval.clamp ms t.repeats)
      .ok (.ok σ)

/-! ## Stopping -/

/-- Disarms a task, or notes that it is to be disarmed when its handler returns. -/
def stop (σ : Scheduler) (i : Nat) : Except Fault (Except Error Scheduler) := do
  match ← σ.lookup i with
  | none => .ok (.error (.invalidTask ⟨i⟩))
  | some t =>
    if t.state = .uninit then .ok (.error (.invalidState t.state))
    else
      let σ ← σ.alter i Task.stop
      .ok (.ok σ)

/-- Tells the cache that a task was disarmed. -/
def forget (σ : Scheduler) (i : Nat) : Scheduler := { σ with cache := σ.cache.forget i }

/-! ## Bytes -/

/-- Gives bytes to a stopped task. A slot with a segment copies as much as fits, any other slot refers to them. -/
def attach (σ : Scheduler) (ps : Pools) (i : Nat) (data : List UInt8) :
    Except Fault (Except Error (Scheduler × Pools)) := do
  let t ← σ.arena.slot i
  if t.state = .stopped then
    match t.payload with
    | .attached _ =>
      let σ ← σ.alter i fun t => { t with payload := .attached data }
      .ok (.ok (σ, ps))
    | .copied segment _ =>
      let (kept, ps) ← ps.copy segment data
      let σ ← σ.alter i fun t => { t with payload := .copied segment kept }
      .ok (.ok (σ, ps))
  else .ok (.error (.invalidState t.state))

/-- Copies as much as fits into the segment of a stopped task, and says how much that was. -/
def write (σ : Scheduler) (ps : Pools) (i : Nat) (data : List UInt8) :
    Except Fault (Except Error (Nat × Scheduler × Pools)) := do
  let t ← σ.arena.slot i
  if t.state = .stopped then
    match t.payload with
    | .attached _ => .ok (.error .notBuffered)
    | .copied segment _ =>
      let (kept, ps) ← ps.copy segment data
      let σ ← σ.alter i fun t => { t with payload := .copied segment kept }
      .ok (.ok (kept, σ, ps))
  else .ok (.error (.invalidState t.state))

end Scheduler

end TimedTasks
