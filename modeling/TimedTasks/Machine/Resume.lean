import TimedTasks.Machine.Call
import TimedTasks.Scheduler.Session
import TimedTasks.Scheduler.Slots

/-!
# After the clock is read, and under the lock

`World.resume` says what becomes of a clock reading, `World.work` what is done under the lock. Both run without
interruption up to the next call on the board.

A round looks at a task's interval before it reads the clock, and compares them afterwards. The interrupts of that
reading may have changed the task in between, so whether it still waits is checked once more before it is run
(`World.dispatch`).
-/

namespace TimedTasks

namespace World

/-! ## Rounds -/

/-- Runs a task if it still waits. A repeating task begins its next interval first, which takes a clock reading; a task
that runs once is to be stopped when its handler returns. -/
def dispatch (w : World) (d : Nat) (δ : Device) (i : Nat) : Except Fault Move := do
  let t ← δ.scheduler.arena.slot i
  if t.state = .active then
    if t.repeats then .ok (w.calling d δ .now [.reading (.renew i)])
    else
      let σ ← δ.scheduler.alter i fun t => { t with state := .stopping }
      .ok (w.calling d (δ.withScheduler σ) .lock [.locked (.fetch i), .settle i])
  else .ok (w.leaving d δ [])

/-- What a round does with the task that the cache remembers, once it knows how much time is left: wait for it, or run
it ahead of the others. An interrupt may have given the cache another task, which is then looked for in the queue. -/
def resumeCached (w : World) (d : Nat) (δ : Device) (i : Nat) (left : UInt32) : Move :=
  if 0 < left then
    if δ.scheduler.cache.soonest = some i then w.leaving d δ [.deadline (some left)]
    else w.leaving d δ [.survey none]
  else w.leaving d δ [.dispatch i, .survey (some i)]

/-- What becomes of clock reading `now`. -/
def resume (w : World) (d : Nat) (δ : Device) (now : UInt32) : Reading → Except Fault Move
  | .start i next => do
    let σ ← δ.scheduler.start i next now
    .ok (w.calling d (δ.withScheduler σ) .lock [.locked (.noteArmed i now)])
  | .cached i timing => .ok (w.resumeCached d δ i (timing.remaining now))
  | .due i timing => .ok (w.leaving d δ (if timing.expired now then [.dispatch i] else []))
  | .scan => do
    let best ← δ.scheduler.scan now
    .ok (w.calling d δ .lock [.locked (.adopt best now)])
  | .renew i => do
    let σ ← δ.scheduler.start i .executing now
    .ok (w.calling d (δ.withScheduler σ) .lock [.locked (.fetch i), .settle i])
  | .elapsed i timing row => w.askRemaining d δ i { row with elapsed := timing.elapsed now }
  | .remaining i timing row => w.askExpired d δ i { row with remaining := timing.remaining now }
  | .expired _ timing row => .ok (w.answering d δ (.query { row with expired := timing.expired now }))
  | .info runState => do
    let row ← δ.scheduler.row runState now
    .ok (w.answering d δ (.info row))

/-! ## Under the lock -/

/-- Calls the handler of a task, with the bytes that the task has at this moment. A task without a handler has nothing
to run. -/
def callHandler (w : World) (d : Nat) (δ : Device) (i : Nat) : Except Fault Move := do
  let t ← δ.scheduler.arena.slot i
  let w := w.log (.dispatch ⟨i⟩)
  match t.handler with
  | none => .ok (w.leaving d δ [])
  | some k =>
    let bytes ← t.payload.bytes w.pools
    let (ops, w) := (w.emit (.ran d ⟨i⟩ k δ.board.clock bytes)).invoke k
    .ok (w.leaving d δ [.block (some i) ops, .handling i k t.payload])

/-- Tells the board that the session is over. -/
def closeSession (w : World) (d : Nat) (δ : Device) (tasks : Nat) : Move :=
  let w := if δ.board.serves .deinit then w.emit (.closed d) else w
  w.calling d δ .deinit [.closing tasks]

/-- The byte stores after a slot with these bytes was handed out. -/
def wiped (w : World) (p : Payload) : Except Fault Pools := if w.wipes then w.pools.wipe p else .ok w.pools

/-- Takes a slot of a pool, unless someone else took it meanwhile. Whether a handler runs that has bytes of the slot is
not asked, not even where they are wiped. -/
def claim (w : World) (d : Nat) (δ : Device) (i left : Nat) : Except Fault Move := do
  let t ← δ.scheduler.arena.slot i
  if t.allocated then .ok (w.leaving d δ [.claiming (i + 1) left])
  else
    let σ ← δ.scheduler.alter i Task.handOut
    let pools ← w.wiped t.payload
    .ok ({ w with pools }.answering d (δ.withScheduler σ) (.slot (some ⟨i⟩)))

/-- Reserves the slots of a pool, if the arena has room for them, and goes on to take one of them. -/
def enroll (w : World) (d : Nat) (δ : Device) (k : Nat) : Except Fault Move := do
  let p ← w.pools.pool k
  match ← δ.scheduler.enrollPool w.pools k with
  | none => .ok ((w.log (.noRoom p.slots)).answering d δ (.slot none))
  | some (first, σ, pools) =>
    .ok ({ w with pools }.leaving d (δ.withScheduler σ) [.claiming first p.slots])

/-- What is done under the lock. -/
def work (w : World) (d : Nat) (δ : Device) : Section → Except Fault Move
  | .declare =>
    match δ.scheduler.takeSlots 1 with
    | none => .ok (w.answering d δ (.slot none))
    | some (i, σ) => .ok (w.answering d (δ.withScheduler σ) (.slot (some ⟨i⟩)))
  | .configure i handler ms repeats => do
    match ← δ.scheduler.configure i handler ms repeats with
    | .error e => .ok (w.answering d δ (.failed e))
    | .ok σ => .ok (w.answering d (δ.withScheduler σ) .done)
  | .noteArmed i now => do
    let σ ← δ.scheduler.noteArmed i now
    .ok (w.answering d (δ.withScheduler σ) .done)
  | .forget i => .ok (w.answering d (δ.withScheduler (δ.scheduler.forget i)) .done)
  | .attach i data => do
    match ← δ.scheduler.attach w.pools i data with
    | .error e => .ok (w.answering d δ (.failed e))
    | .ok (σ, pools) => .ok ({ w with pools }.answering d (δ.withScheduler σ) .done)
  | .write i data => do
    match ← δ.scheduler.write w.pools i data with
    | .error e => .ok (w.answering d δ (.failed e))
    | .ok (kept, σ, pools) => .ok ({ w with pools }.answering d (δ.withScheduler σ) (.kept kept))
  | .dataLength i row => do
    let t ← δ.scheduler.arena.slot i
    w.askElapsed d δ i { row with dataLength := t.payload.length }
  | .beginSession => do
    let σ ← δ.scheduler.beginSession
    let σ := { σ with runState := .active }
    .ok ((w.log (.initialized σ.capacity)).answering d (δ.withScheduler σ) .done)
  | .shutdown => .ok (w.answering d (δ.withScheduler δ.scheduler.shutdown) .done)
  | .adopt best now => do
    let (σ, left) ← δ.scheduler.adopt best now
    .ok (w.leaving d (δ.withScheduler σ) [.deadline left])
  | .fetch i => w.callHandler d δ i
  | .endSession => do
    let (tasks, σ) ← δ.scheduler.endSession
    .ok (w.closeSession d (δ.withScheduler σ) tasks)
  | .sessionOver tasks =>
    let σ := { δ.scheduler with runState := .stopped }
    .ok ((w.log (.stopped tasks)).answering d (δ.withScheduler σ) .done)
  | .enroll k => w.enroll d δ k
  | .claim i left => w.claim d δ i left

end World

end TimedTasks
