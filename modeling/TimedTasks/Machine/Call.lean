import TimedTasks.Machine.Frame
import TimedTasks.Scheduler.Lifecycle

/-!
# The beginning of an operation

`World.perform` does what an operation does before its first point of interruption: it finds the task that is meant,
refuses what can be refused at once, and leaves the frames that go on. The queries about a task read the clock up to
three times, each time only if there is something to compute; `World.askElapsed` and its two successors are the steps
of that chain, and each of them looks the task up anew.
-/

namespace TimedTasks

/-- The slot that is meant; only the operations of a handler have a task of their own. -/
def TaskRef.resolve (self : Option Nat) : TaskRef → Except Fault Nat
  | .slot index => .ok index
  | .self =>
    match self with
    | some index => .ok index
    | none => .error .noSelf

namespace World

/-! ## Queries about a task -/

/-- Asks whether the interval of a waiting task is over. -/
def askExpired (w : World) (d : Nat) (δ : Device) (i : Nat) (row : TaskRow) : Except Fault Move := do
  match ← δ.scheduler.lookup i with
  | none => .ok (w.answering d δ (.query row))
  | some t =>
    if t.state = .active then .ok (w.calling d δ .now [.reading (.expired i t.timing row)])
    else .ok (w.answering d δ (.query row))

/-- Asks how much time an armed task has left, then goes on. -/
def askRemaining (w : World) (d : Nat) (δ : Device) (i : Nat) (row : TaskRow) : Except Fault Move := do
  match ← δ.scheduler.lookup i with
  | none => w.askExpired d δ i row
  | some t =>
    if t.state.armed then .ok (w.calling d δ .now [.reading (.remaining i t.timing row)])
    else w.askExpired d δ i row

/-- Asks how long ago a configured task was started, then goes on. -/
def askElapsed (w : World) (d : Nat) (δ : Device) (i : Nat) (row : TaskRow) : Except Fault Move := do
  match ← δ.scheduler.lookup i with
  | none => w.askRemaining d δ i row
  | some t =>
    if t.state = .uninit then w.askRemaining d δ i row
    else .ok (w.calling d δ .now [.reading (.elapsed i t.timing row)])

/-- Asks everything about a task. The length of its bytes is read under the lock. -/
def query (w : World) (d : Nat) (δ : Device) (i : Nat) : Except Fault Move := do
  let found ← δ.scheduler.lookup i
  let row := TaskRow.untimed found
  match found with
  | none => .ok (w.answering d δ (.query row))
  | some _ => .ok (w.calling d δ .lock [.locked (.dataLength i row)])

/-! ## Operations on a task -/

/-- Works under the lock on a task that was handed out. -/
def lockedOn (w : World) (d : Nat) (δ : Device) (i : Nat) (s : Section) : Except Fault Move := do
  match ← δ.scheduler.lookup i with
  | none => .ok (w.answering d δ (.failed (.invalidTask ⟨i⟩)))
  | some _ => .ok (w.calling d δ .lock [.locked s])

/-- Starts a task. The state that it will be in is settled before the clock is read. -/
def start (w : World) (d : Nat) (δ : Device) (i : Nat) : Except Fault Move := do
  match ← δ.scheduler.startState i with
  | .error e => .ok (w.answering d δ (.failed e))
  | .ok next => .ok (w.calling d δ .now [.reading (.start i next)])

/-- Gives a task a new interval and starts it. -/
def update (w : World) (d : Nat) (δ : Device) (i : Nat) (ms : UInt32) : Except Fault Move := do
  match ← δ.scheduler.relength i ms with
  | .error e => .ok (w.answering d δ (.failed e))
  | .ok σ => w.start d (δ.withScheduler σ) i

/-- Stops a task, then tells the cache. -/
def stop (w : World) (d : Nat) (δ : Device) (i : Nat) : Except Fault Move := do
  match ← δ.scheduler.stop i with
  | .error e => .ok (w.answering d δ (.failed e))
  | .ok σ => .ok (w.calling d (δ.withScheduler σ) .lock [.locked (.forget i)])

/-! ## Operations on a pool -/

/-- Takes a free slot of a pool, whose slots are reserved first if they are not yet. -/
def alloc (w : World) (d : Nat) (δ : Device) (k : Nat) : Except Fault Move := do
  let p ← w.pools.pool k
  match p.first with
  | some first => .ok (w.leaving d δ [.claiming first p.slots])
  | none => .ok (w.calling d δ .lock [.locked (.enroll k)])

/-- Looks at one slot of a pool after the other. A slot that looks free is looked at again under the lock. -/
def claiming (w : World) (d : Nat) (δ : Device) (i : Nat) : (left : Nat) → Move
  | 0 => w.answering d δ (.slot none)
  | left + 1 =>
    match δ.scheduler.arena[i]? with
    | none => w.answering d δ .outOfBounds
    | some t =>
      if t.allocated then w.leaving d δ [.claiming (i + 1) left]
      else w.calling d δ .lock [.locked (.claim i left)]

/-- The counts of a pool. -/
def countPool (w : World) (d : Nat) (δ : Device) (k : Nat) : Except Fault Move := do
  let p ← w.pools.pool k
  match p.row? δ.scheduler.arena with
  | none => .ok (w.answering d δ .outOfBounds)
  | some row => .ok (w.answering d δ (.pool row))

/-! ## Sessions and rounds -/

/-- Begins a session; the board is told first. -/
def openSession (w : World) (d : Nat) (δ : Device) : Move :=
  if δ.scheduler.runState = .stopped then
    let w := if δ.board.serves .init then w.emit (.opened d) else w
    w.calling d δ .init [.opening]
  else w.answering d δ (.failed .alreadyRunning)

/-- Begins a round; `below` takes its result. -/
def beginRound (w : World) (d : Nat) (δ : Device) (below : Act) : Move :=
  w.leaving d (δ.withScheduler { δ.scheduler with inRound := true }) [.checkCache, .round, below]

/-- Begins the loop of a run. -/
def run (w : World) (d : Nat) (δ : Device) : Move :=
  if δ.scheduler.runState = .stopped then w.answering d δ (.failed .notInitialized)
  else if δ.scheduler.inRound then w.answering d δ (.failed .busy)
  else (w.log .running).leaving d δ [.running]

/-- Begins a single round. -/
def tick (w : World) (d : Nat) (δ : Device) : Move :=
  if δ.scheduler.runState ≠ .active then w.answering d δ (.failed .notInitialized)
  else if δ.scheduler.inRound then w.answering d δ (.failed .busy)
  else w.beginRound d δ .ticking

/-! ## All operations -/

/-- Begins an operation of the handler of task `self`, or of no handler. -/
def perform (w : World) (d : Nat) (δ : Device) (self : Option Nat) : Op → Except Fault Move
  | .declare => .ok (w.calling d δ .lock [.locked .declare])
  | .configure task handler ms repeats => do
    let i ← task.resolve self
    w.lockedOn d δ i (.configure i handler ms repeats)
  | .start task => do w.start d δ (← task.resolve self)
  | .stop task => do w.stop d δ (← task.resolve self)
  | .update task ms => do w.update d δ (← task.resolve self) ms
  | .attach task data => do
    let i ← task.resolve self
    w.lockedOn d δ i (.attach i (data.getD []))
  | .write task data => do
    let i ← task.resolve self
    w.lockedOn d δ i (.write i data)
  | .alloc k => w.alloc d δ k
  | .pool k => w.countPool d δ k
  | .init => .ok (w.openSession d δ)
  | .run => .ok (w.run d δ)
  | .tick => .ok (w.tick d δ)
  | .shutdown => .ok (w.calling d δ .lock [.locked .shutdown])
  | .query task => do w.query d δ (← task.resolve self)
  | .info => .ok (w.calling d δ .now [.reading (.info δ.scheduler.runState)])
  | .capacity => .ok (w.answering d δ (.capacity δ.scheduler.capacity))
  | .task task => do
    let i ← task.resolve self
    match δ.scheduler.arena[i]? with
    | none => .ok (w.answering d δ .outOfBounds)
    | some t => .ok (w.answering d δ (.task t))
  | .advance ms =>
    let board := δ.board.advance ms
    .ok (w.answering d (δ.withBoard board) (.clock board.clock))
  | .setNow ms => .ok (w.answering d (δ.withBoard (δ.board.setNow ms)) (.clock ms))
  | .hook call after body => .ok (w.answering d (δ.withBoard (δ.board.arm ⟨call, after, body⟩)) .done)
  | .on e op => .ok ⟨w, [⟨e, .perform self op⟩]⟩

end World

end TimedTasks
