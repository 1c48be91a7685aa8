import TimedTasks.Machine.Run
import TimedTasks.Proofs.Chain

/-!
# What a step can do

`Leads` lists, for each frame, all that its step can lead to: the state of the scheduler, the board, the call on the
board in which the step may end, and the acts that take the place of the one that worked. `World.step_listed` says that
the list is complete. Whatever is proved of all runs is proved by cases on it, and no other proof opens the functions of
the machine.
-/

namespace TimedTasks

/-- What a step leaves of a device: its scheduler, its board before the call in which the step may end, and the acts
that go on. -/
structure Stride where
  scheduler : Scheduler
  board : Board
  call : Option BoardCall
  acts : List Act

namespace Stride

/-- The device after the step. -/
def device (s : Stride) : Device :=
  match s.call with
  | none => ⟨s.board, s.scheduler⟩
  | some call => ⟨(s.board.called call).1, s.scheduler⟩

/-- The acts that the step leaves; a call on the board puts its interrupts on top. -/
def frames (s : Stride) : List Act :=
  match s.call with
  | none => s.acts
  | some call => .interrupts call (s.board.called call).2 :: s.acts

/-- A call on the board leaves the scheduler alone. -/
@[simp] theorem scheduler_device (s : Stride) : s.device.scheduler = s.scheduler := by
  unfold device; split <;> rfl

/-- A call on the board does not move the clock; only a reading or a sleep does. -/
@[simp] theorem clock_device (s : Stride) : s.device.board.clock = s.board.clock := by
  unfold device
  split
  · rfl
  · rw [Board.called]; split <;> rfl

@[simp] theorem pace_device (s : Stride) : s.device.board.pace = s.board.pace := by
  unfold device
  split
  · rfl
  · rw [Board.called]; split <;> rfl

end Stride

/-- The sections that operations on tasks and pools begin with, and that may refuse them. -/
def Section.refuses : Section → Bool
  | declare | configure .. | attach .. | write .. | enroll _ => true
  | _ => false

/-- The readings of the queries. -/
def Reading.asks : Reading → Bool
  | elapsed .. | remaining .. | expired .. | info _ => true
  | _ => false

/-- The operation does nothing but work under the lock. -/
inductive Op.Asks (σ : Scheduler) (self : Option Nat) : Op → Section → Prop
  | declare : Asks σ self .declare .declare
  | configure {task handler ms repeats i} : task.resolve self = .ok i → i < σ.declared →
      Asks σ self (.configure task handler ms repeats) (.configure i handler ms repeats)
  | attach {task data i} : task.resolve self = .ok i → i < σ.declared →
      Asks σ self (.attach task data) (.attach i (data.getD []))
  | write {task data i} : task.resolve self = .ok i → i < σ.declared → Asks σ self (.write task data) (.write i data)
  | alloc {k} : Asks σ self (.alloc k) (.enroll k)
  | shutdown : Asks σ self .shutdown .shutdown
  | query {task i row} : task.resolve self = .ok i → i < σ.declared → Asks σ self (.query task) (.dataLength i row)

/-- What an operation can answer at once. The operations on sessions and rounds answer only when they are refused, and
a shutdown never does. -/
def Op.Answers (σ : Scheduler) : Op → Answer → Prop
  | init, a => σ.runState ≠ .stopped ∧ a = .failed .alreadyRunning
  | run, a => (σ.runState = .stopped ∧ a = .failed .notInitialized) ∨
      (σ.runState ≠ .stopped ∧ σ.inRound = true ∧ a = .failed .busy)
  | tick, a => (σ.runState ≠ .active ∧ a = .failed .notInitialized) ∨
      (σ.runState = .active ∧ σ.inRound = true ∧ a = .failed .busy)
  | shutdown, _ => False
  | _, _ => True

/-- What the step of a frame can lead to. -/
inductive Leads (w : World) (δ : Device) : Act → Stride → Prop
  /- The beginnings of operations. -/
  | answer {self op a} : (∀ ms, a ≠ .deadline ms) → op.Answers δ.scheduler a →
      Leads w δ (.perform self op) ⟨δ.scheduler, δ.board, none, [.answered a]⟩
  | ask {self op s} : op.Asks δ.scheduler self s →
      Leads w δ (.perform self op) ⟨δ.scheduler, δ.board, some .lock, [.locked s]⟩
  | start {self task i next} : task.resolve self = .ok i → δ.scheduler.startState i = .ok (.ok next) →
      Leads w δ (.perform self (.start task)) ⟨δ.scheduler, δ.board, some .now, [.reading (.start i next)]⟩
  | update {self task ms i next σ} : task.resolve self = .ok i → δ.scheduler.relength i ms = .ok (.ok σ) →
      σ.startState i = .ok (.ok next) →
      Leads w δ (.perform self (.update task ms)) ⟨σ, δ.board, some .now, [.reading (.start i next)]⟩
  | stop {self task i σ} : task.resolve self = .ok i → δ.scheduler.stop i = .ok (.ok σ) →
      Leads w δ (.perform self (.stop task)) ⟨σ, δ.board, some .lock, [.locked (.forget i)]⟩
  | alloc {self k first left} :
      Leads w δ (.perform self (.alloc k)) ⟨δ.scheduler, δ.board, none, [.claiming first left]⟩
  | init {self} : δ.scheduler.runState = .stopped →
      Leads w δ (.perform self .init) ⟨δ.scheduler, δ.board, some .init, [.opening]⟩
  | run {self} : δ.scheduler.runState ≠ .stopped → δ.scheduler.inRound = false →
      Leads w δ (.perform self .run) ⟨δ.scheduler, δ.board, none, [.running]⟩
  | tick {self} : δ.scheduler.runState = .active → δ.scheduler.inRound = false →
      Leads w δ (.perform self .tick)
        ⟨{ δ.scheduler with inRound := true }, δ.board, none, [.checkCache, .round, .ticking]⟩
  | info {self} : Leads w δ (.perform self .info)
      ⟨δ.scheduler, δ.board, some .now, [.reading (.info δ.scheduler.runState)]⟩
  | advance {self ms} : Leads w δ (.perform self (.advance ms))
      ⟨δ.scheduler, δ.board.advance ms, none, [.answered (.clock (δ.board.advance ms).clock)]⟩
  | setNow {self ms} : Leads w δ (.perform self (.setNow ms))
      ⟨δ.scheduler, δ.board.setNow ms, none, [.answered (.clock ms)]⟩
  | hook {self call after body} : Leads w δ (.perform self (.hook call after body))
      ⟨δ.scheduler, δ.board.arm ⟨call, after, body⟩, none, [.answered .done]⟩
  /- Blocks and interrupts. -/
  | blockEnd {self} : Leads w δ (.block self []) ⟨δ.scheduler, δ.board, none, []⟩
  | blockNext {self op ops} : Leads w δ (.block self (op :: ops))
      ⟨δ.scheduler, δ.board, none, [.perform self op, .report op.name, .block self ops]⟩
  | interruptsEnd {call} : Leads w δ (.interrupts call []) ⟨δ.scheduler, δ.board, none, []⟩
  | interruptsNext {call body rest} : Leads w δ (.interrupts call (body :: rest))
      ⟨δ.scheduler, δ.board, none, [.block none body, .interrupts call rest]⟩
  /- Readings of the clock. -/
  | stamp {i next σ} : δ.scheduler.start i next δ.board.clock = .ok σ →
      Leads w δ (.reading (.start i next))
        ⟨σ, δ.board.readClock.2, some .lock, [.locked (.noteArmed i δ.board.clock)]⟩
  | wait {i timing} : 0 < timing.remaining δ.board.clock → δ.scheduler.cache.soonest = some i →
      Leads w δ (.reading (.cached i timing))
        ⟨δ.scheduler, δ.board.readClock.2, none, [.deadline (some (timing.remaining δ.board.clock))]⟩
  | retarget {i timing} : 0 < timing.remaining δ.board.clock → δ.scheduler.cache.soonest ≠ some i →
      Leads w δ (.reading (.cached i timing)) ⟨δ.scheduler, δ.board.readClock.2, none, [.survey none]⟩
  | dueFirst {i timing} : timing.remaining δ.board.clock = 0 →
      Leads w δ (.reading (.cached i timing))
        ⟨δ.scheduler, δ.board.readClock.2, none, [.dispatch i, .survey (some i)]⟩
  | due {i timing} : timing.expired δ.board.clock = true →
      Leads w δ (.reading (.due i timing)) ⟨δ.scheduler, δ.board.readClock.2, none, [.dispatch i]⟩
  | notDue {i timing} : timing.expired δ.board.clock = false →
      Leads w δ (.reading (.due i timing)) ⟨δ.scheduler, δ.board.readClock.2, none, []⟩
  | scan {best} : δ.scheduler.scan δ.board.clock = .ok best →
      Leads w δ (.reading .scan)
        ⟨δ.scheduler, δ.board.readClock.2, some .lock, [.locked (.adopt best δ.board.clock)]⟩
  | renew {i σ} : δ.scheduler.start i .executing δ.board.clock = .ok σ →
      Leads w δ (.reading (.renew i)) ⟨σ, δ.board.readClock.2, some .lock, [.locked (.fetch i), .settle i]⟩
  | asked {r r'} : r.asks → r'.asks →
      Leads w δ (.reading r) ⟨δ.scheduler, δ.board.readClock.2, some .now, [.reading r']⟩
  | told {r a} : r.asks → (∀ ms, a ≠ .deadline ms) →
      Leads w δ (.reading r) ⟨δ.scheduler, δ.board.readClock.2, none, [.answered a]⟩
  /- Work under the lock. -/
  | refused {s a} : s.refuses → (∀ ms, a ≠ .deadline ms) →
      (∀ i handler ms repeats, s = .configure i handler ms repeats → (δ.scheduler.life i).state.inHandler) →
      Leads w δ (.locked s) ⟨δ.scheduler, δ.board, none, [.answered a]⟩
  | declared {i σ} : δ.scheduler.takeSlots 1 = some (i, σ) →
      Leads w δ (.locked .declare) ⟨σ, δ.board, none, [.answered (.slot (some ⟨i⟩))]⟩
  | configured {i handler ms repeats σ} : δ.scheduler.configure i handler ms repeats = .ok (.ok σ) →
      Leads w δ (.locked (.configure i handler ms repeats)) ⟨σ, δ.board, none, [.answered .done]⟩
  | noted {i now σ} : δ.scheduler.noteArmed i now = .ok σ →
      Leads w δ (.locked (.noteArmed i now)) ⟨σ, δ.board, none, [.answered .done]⟩
  | forgotten {i} : Leads w δ (.locked (.forget i)) ⟨δ.scheduler.forget i, δ.board, none, [.answered .done]⟩
  | attached {i data σ ps} : δ.scheduler.attach w.pools i data = .ok (.ok (σ, ps)) →
      Leads w δ (.locked (.attach i data)) ⟨σ, δ.board, none, [.answered .done]⟩
  | written {i data kept σ ps} : δ.scheduler.write w.pools i data = .ok (.ok (kept, σ, ps)) →
      Leads w δ (.locked (.write i data)) ⟨σ, δ.board, none, [.answered (.kept kept)]⟩
  | lengthAsked {i row r} : r.asks →
      Leads w δ (.locked (.dataLength i row)) ⟨δ.scheduler, δ.board, some .now, [.reading r]⟩
  | lengthTold {i row a} : (∀ ms, a ≠ .deadline ms) →
      Leads w δ (.locked (.dataLength i row)) ⟨δ.scheduler, δ.board, none, [.answered a]⟩
  | begun {σ} : δ.scheduler.beginSession = .ok σ →
      Leads w δ (.locked .beginSession) ⟨{ σ with runState := .active }, δ.board, none, [.answered .done]⟩
  | shutdown : Leads w δ (.locked .shutdown) ⟨δ.scheduler.shutdown, δ.board, none, [.answered .done]⟩
  | adopted {best now σ left} : δ.scheduler.adopt best now = .ok (σ, left) →
      Leads w δ (.locked (.adopt best now)) ⟨σ, δ.board, none, [.deadline left]⟩
  | unhandled {i t} : δ.scheduler.arena.slot i = .ok t → t.handler = none →
      Leads w δ (.locked (.fetch i)) ⟨δ.scheduler, δ.board, none, []⟩
  | fetched {i t k} : δ.scheduler.arena.slot i = .ok t → t.handler = some k →
      Leads w δ (.locked (.fetch i))
        ⟨δ.scheduler, δ.board, none, [.block (some i) (w.invoke k).1, .handling i k t.payload]⟩
  | ended {count σ} : δ.scheduler.endSession = .ok (count, σ) →
      Leads w δ (.locked .endSession) ⟨σ, δ.board, some .deinit, [.closing count]⟩
  | sessionOver {count} : Leads w δ (.locked (.sessionOver count))
      ⟨{ δ.scheduler with runState := .stopped }, δ.board, none, [.answered .done]⟩
  | enrolled {k first left σ ps} : δ.scheduler.enrollPool w.pools k = .ok (some (first, σ, ps)) →
      Leads w δ (.locked (.enroll k)) ⟨σ, δ.board, none, [.claiming first left]⟩
  | claimed {i left σ} : δ.scheduler.alter i Task.handOut = .ok σ →
      Leads w δ (.locked (.claim i left)) ⟨σ, δ.board, none, [.answered (.slot (some ⟨i⟩))]⟩
  | claimedMeanwhile {i left} :
      Leads w δ (.locked (.claim i left)) ⟨δ.scheduler, δ.board, none, [.claiming (i + 1) left]⟩
  /- Sessions. -/
  | opened : Leads w δ .opening ⟨δ.scheduler, δ.board, some .lock, [.locked .beginSession]⟩
  | closed {count} : Leads w δ (.closing count) ⟨δ.scheduler, δ.board, some .lock, [.locked (.sessionOver count)]⟩
  | woken {ms} : Leads w δ (.sleeping ms) ⟨δ.scheduler, δ.board.slept ms, none, []⟩
  | wokenLast {ms} : Leads w δ (.sleeping ms)
      ⟨δ.scheduler, δ.board.slept ms, none, [.block none [.shutdown]]⟩
  | anotherRound : δ.scheduler.runState = .active →
      Leads w δ .running
        ⟨{ δ.scheduler with inRound := true }, δ.board, none, [.checkCache, .round, .running]⟩
  | lastRound : δ.scheduler.runState ≠ .active →
      Leads w δ .running ⟨δ.scheduler, δ.board, some .lock, [.locked .endSession]⟩
  /- Rounds. -/
  | remembered {i t} : δ.scheduler.cache.soonest = some i → δ.scheduler.arena.slot i = .ok t → t.state = .active →
      Leads w δ .checkCache ⟨δ.scheduler, δ.board, some .now, [.reading (.cached i t.timing)]⟩
  | nothingRemembered : Leads w δ .checkCache ⟨δ.scheduler, δ.board, none, [.survey none]⟩
  | surveyed {skip} : Leads w δ (.survey skip)
      ⟨δ.scheduler, δ.board, none, [.walking skip δ.scheduler.queue.head]⟩
  | walked {skip} : Leads w δ (.walking skip none) ⟨δ.scheduler, δ.board, some .now, [.reading .scan]⟩
  | looked {skip i t} : skip ≠ some i → δ.scheduler.arena.slot i = .ok t → t.state = .active →
      Leads w δ (.walking skip (some i))
        ⟨δ.scheduler, δ.board, some .now, [.reading (.due i t.timing), .walking skip t.next]⟩
  | passed {skip i t} : (skip = some i ∨ t.state ≠ .active) → δ.scheduler.arena.slot i = .ok t →
      Leads w δ (.walking skip (some i)) ⟨δ.scheduler, δ.board, none, [.walking skip t.next]⟩
  | renewing {i t} : δ.scheduler.arena.slot i = .ok t → t.state = .active → t.repeats = true →
      Leads w δ (.dispatch i) ⟨δ.scheduler, δ.board, some .now, [.reading (.renew i)]⟩
  | dispatched {i t σ} : δ.scheduler.arena.slot i = .ok t → t.state = .active → t.repeats = false →
      (δ.scheduler.alter i fun t => { t with state := .stopping }) = .ok σ →
      Leads w δ (.dispatch i) ⟨σ, δ.board, some .lock, [.locked (.fetch i), .settle i]⟩
  | notDispatched {i t} : δ.scheduler.arena.slot i = .ok t → t.state ≠ .active →
      Leads w δ (.dispatch i) ⟨δ.scheduler, δ.board, none, []⟩
  | handled {i k p} : Leads w δ (.handling i k p) ⟨δ.scheduler, δ.board, none, []⟩
  | handledLast {i k p} : Leads w δ (.handling i k p)
      ⟨δ.scheduler, δ.board, some .lock, [.locked .shutdown, .discard]⟩
  | settled {i σ} : δ.scheduler.alter i Task.settle = .ok σ → Leads w δ (.settle i) ⟨σ, δ.board, none, []⟩
  /- The search for a free slot of a pool. -/
  | unclaimed {i left a} : (∀ ms, a ≠ .deadline ms) →
      Leads w δ (.claiming i left) ⟨δ.scheduler, δ.board, none, [.answered a]⟩
  | occupied {i left} :
      Leads w δ (.claiming i (left + 1)) ⟨δ.scheduler, δ.board, none, [.claiming (i + 1) left]⟩
  | claiming {i left} :
      Leads w δ (.claiming i (left + 1)) ⟨δ.scheduler, δ.board, some .lock, [.locked (.claim i left)]⟩

/-! ## The list is complete -/

/-- The event is an invocation of the handler of task `i` on device `d`. -/
def Event.invokes (d i : Nat) : Event → Bool
  | .ran e id .. => e = d && id = ⟨i⟩
  | _ => false

/-- How often the handler of task `i` was invoked on device `d`. -/
def World.invocations (w : World) (d i : Nat) : Nat := w.trace.countP (Event.invokes d i)

/-- The task whose handler the step invokes. -/
def Stride.invoked (s : Stride) : Option Nat :=
  match s.acts with
  | [.block .., .handling i ..] => some i
  | _ => none

/-- What the handlers are to do, at each of their invocations. -/
def World.programs (w : World) : Array (List (List Op)) := w.handlers.map (·.bodies)

/-- The worlds differ in nothing that a device, an invocation or a handler's program shows, and pools are of one build. -/
structure World.Alike (w w' : World) : Prop where
  devices : w'.devices = w.devices
  programs : w'.programs = w.programs
  wipes : w'.wipes = w.wipes
  invocations : w'.invocations = w.invocations

/-- A move is a stride of device `d`. -/
structure Move.Is (move : Move) (w : World) (d : Nat) (s : Stride) : Prop where
  devices : move.world.devices = w.devices.setIfInBounds d s.device
  frames : move.frames = s.frames.map (⟨d, ·⟩)
  programs : move.world.programs = w.programs
  wipes : move.world.wipes = w.wipes
  invocations : ∀ e i, move.world.invocations e i =
    w.invocations e i + if e = d ∧ s.invoked = some i then 1 else 0

/-- The move is one of those that `Leads` lists. -/
def Move.Listed (move : Move) (w : World) (d : Nat) (δ : Device) (act : Act) : Prop :=
  ∃ s, Leads w δ act s ∧ move.Is w d s

namespace World

variable {w w' : World} {d : Nat} {δ : Device}

theorem Alike.refl (w : World) : w.Alike w := ⟨rfl, rfl, rfl, rfl⟩

/-- Taking note of an event, except that a handler ran, leaves an alike world. -/
theorem alike_emit {e : Event} (h : ∀ d i, e.invokes d i = false) : w.Alike (w.emit e) :=
  ⟨rfl, rfl, rfl, by funext d i; simp [invocations, emit, h]⟩

/-- A step without a call on the board leaves what its stride says, if nothing is invoked in it. -/
theorem Alike.leaving_is {acts : List Act} (h : w.Alike w')
    (quiet : Stride.invoked ⟨δ.scheduler, δ.board, none, acts⟩ = none) :
    (w'.leaving d δ acts).Is w d ⟨δ.scheduler, δ.board, none, acts⟩ :=
  ⟨by simp [leaving, put, Stride.device, h.devices], rfl, h.programs, h.wipes, fun e i => by
    show w'.invocations e i = _
    rw [quiet, h.invocations]
    simp⟩

/-- The same with a call on the board, whose interrupts come on top. -/
theorem Alike.calling_is {call : BoardCall} {acts : List Act} (h : w.Alike w')
    (quiet : Stride.invoked ⟨δ.scheduler, δ.board, some call, acts⟩ = none) :
    (w'.calling d δ call acts).Is w d ⟨δ.scheduler, δ.board, some call, acts⟩ :=
  ⟨by simp [calling, leaving, put, Stride.device, Device.withBoard, h.devices], rfl, h.programs, h.wipes, fun e i => by
    show w'.invocations e i = _
    rw [quiet, h.invocations]
    simp⟩

/-- A step that ends without a call on the board. -/
theorem Alike.leaving_listed {act : Act} {acts : List Act} {δ' : Device} (h : w.Alike w')
    (l : Leads w δ act ⟨δ'.scheduler, δ'.board, none, acts⟩)
    (quiet : Stride.invoked ⟨δ'.scheduler, δ'.board, none, acts⟩ = none) :
    (w'.leaving d δ' acts).Listed w d δ act :=
  ⟨_, l, h.leaving_is quiet⟩

/-- A step that ends in a call on the board. -/
theorem Alike.calling_listed {act : Act} {acts : List Act} {call : BoardCall} {δ' : Device} (h : w.Alike w')
    (l : Leads w δ act ⟨δ'.scheduler, δ'.board, some call, acts⟩)
    (quiet : Stride.invoked ⟨δ'.scheduler, δ'.board, some call, acts⟩ = none) :
    (w'.calling d δ' call acts).Listed w d δ act :=
  ⟨_, l, h.calling_is quiet⟩

/-! ### Queries

What a query leads to does not depend on where in its chain of readings it stands. -/

/-- A step that goes on with a query: it answers, or it reads the clock once more. -/
structure Asking (w : World) (δ₀ : Device) (act : Act) (δ : Device) : Prop where
  told : ∀ a, (∀ ms, a ≠ .deadline ms) → Leads w δ₀ act ⟨δ.scheduler, δ.board, none, [.answered a]⟩
  asked : ∀ r : Reading, r.asks → Leads w δ₀ act ⟨δ.scheduler, δ.board, some .now, [.reading r]⟩

variable {δ₀ : Device} {act : Act} {move : Move} {i : Nat} {row : TaskRow}

/-- The last question of a query: it ends in an answer or in a reading. -/
theorem askExpired_listed (q : Asking w δ₀ act δ) (h : w.askExpired d δ i row = .ok move) :
    move.Listed w d δ₀ act := by
  obtain ⟨found, -, h⟩ := bind_eq_ok.1 h
  have answer : (w.answering d δ (.query row)).Listed w d δ₀ act :=
    (Alike.refl w).leaving_listed (q.told _ fun _ => Answer.noConfusion) rfl
  cases found with
  | none => cases h; exact answer
  | some t =>
    simp only at h
    split at h
    · cases h; exact (Alike.refl w).calling_listed (q.asked _ rfl) rfl
    · cases h; exact answer

/-- The question before it ends in a reading of its own, or as the last one does. -/
theorem askRemaining_listed (q : Asking w δ₀ act δ) (h : w.askRemaining d δ i row = .ok move) :
    move.Listed w d δ₀ act := by
  obtain ⟨found, -, h⟩ := bind_eq_ok.1 h
  cases found with
  | none => exact askExpired_listed q h
  | some t =>
    simp only at h
    split at h
    · cases h; exact (Alike.refl w).calling_listed (q.asked _ rfl) rfl
    · exact askExpired_listed q h

/-- The first question ends in a reading of its own, or as the next one does. -/
theorem askElapsed_listed (q : Asking w δ₀ act δ) (h : w.askElapsed d δ i row = .ok move) :
    move.Listed w d δ₀ act := by
  obtain ⟨found, -, h⟩ := bind_eq_ok.1 h
  cases found with
  | none => exact askRemaining_listed q h
  | some t =>
    simp only at h
    split at h
    · exact askRemaining_listed q h
    · cases h; exact (Alike.refl w).calling_listed (q.asked _ rfl) rfl

/-! ### Operations -/

variable {self : Option Nat} {op : Op} {a : Answer}

/-- An answer at once changes nothing but the stack. -/
theorem answering_listed (l : Leads w δ₀ act ⟨δ.scheduler, δ.board, none, [.answered a]⟩) :
    (w.answering d δ a).Listed w d δ₀ act :=
  (Alike.refl w).leaving_listed l rfl

/-- An operation that is refused, or that answers at once. -/
theorem answer_listed (h : ∀ ms, a ≠ .deadline ms) (answers : op.Answers δ.scheduler a) :
    (w.answering d δ a).Listed w d δ (.perform self op) :=
  answering_listed (.answer h answers)

/-- An operation that begins under the lock is refused for a slot that was not handed out, and else takes the lock. -/
theorem lockedOn_listed {s : Section} (answers : ∀ a, op.Answers δ.scheduler a)
    (ask : i < δ.scheduler.declared → op.Asks δ.scheduler self s) (h : w.lockedOn d δ i s = .ok move) :
    move.Listed w d δ (.perform self op) := by
  obtain ⟨found, hf, h⟩ := bind_eq_ok.1 h
  cases found with
  | none => cases h; exact answer_listed (fun _ => Answer.noConfusion) (answers _)
  | some t =>
    cases h
    exact (Alike.refl w).calling_listed (.ask (ask (Scheduler.lookup_eq_ok_some hf).1)) rfl

/-- A start is refused, or reads the clock and keeps in mind the state that it leads to. -/
theorem start_listed {task : TaskRef} (ref : task.resolve self = .ok i) (h : w.start d δ i = .ok move) :
    move.Listed w d δ (.perform self (.start task)) := by
  obtain ⟨next, hn, h⟩ := bind_eq_ok.1 h
  cases next with
  | error e => cases h; exact answer_listed (fun _ => Answer.noConfusion) trivial
  | ok next => cases h; exact (Alike.refl w).calling_listed (.start ref hn) rfl

/-- A task that was given a new interval is configured, so the start behind it is not refused. -/
theorem update_listed {task : TaskRef} {ms : UInt32} (ref : task.resolve self = .ok i)
    (h : w.update d δ i ms = .ok move) : move.Listed w d δ (.perform self (.update task ms)) := by
  obtain ⟨changed, hc, h⟩ := bind_eq_ok.1 h
  cases changed with
  | error e => cases h; exact answer_listed (fun _ => Answer.noConfusion) trivial
  | ok σ =>
    obtain ⟨next, hn, h⟩ := bind_eq_ok.1 h
    cases next with
    | error e => exact absurd hn (Scheduler.startState_of_relength hc)
    | ok next => cases h; exact (Alike.refl w).calling_listed (.update ref hc hn) rfl

/-- A stop is refused, or disarms the task before it takes the lock. -/
theorem stop_listed {task : TaskRef} (ref : task.resolve self = .ok i) (h : w.stop d δ i = .ok move) :
    move.Listed w d δ (.perform self (.stop task)) := by
  obtain ⟨changed, hc, h⟩ := bind_eq_ok.1 h
  cases changed with
  | error e => cases h; exact answer_listed (fun _ => Answer.noConfusion) trivial
  | ok σ => cases h; exact (Alike.refl w).calling_listed (.stop ref hc) rfl

/-- A query of a slot that was not handed out is answered at once; any other one takes the lock. -/
theorem query_listed {task : TaskRef} (ref : task.resolve self = .ok i) (h : w.query d δ i = .ok move) :
    move.Listed w d δ (.perform self (.query task)) := by
  obtain ⟨found, hf, h⟩ := bind_eq_ok.1 h
  cases found with
  | none => cases h; exact answer_listed (fun _ => Answer.noConfusion) trivial
  | some t =>
    cases h
    exact (Alike.refl w).calling_listed (.ask (.query ref (Scheduler.lookup_eq_ok_some hf).1)) rfl

/-- An allocation takes the lock for a pool without slots, and else looks at the first of them. -/
theorem alloc_listed {k : Nat} (h : w.alloc d δ k = .ok move) : move.Listed w d δ (.perform self (.alloc k)) := by
  obtain ⟨p, -, h⟩ := bind_eq_ok.1 h
  split at h
  · cases h; exact (Alike.refl w).leaving_listed .alloc rfl
  · cases h; exact (Alike.refl w).calling_listed (.ask .alloc) rfl

theorem countPool_listed {k : Nat} (h : w.countPool d δ k = .ok move) :
    move.Listed w d δ (.perform self (.pool k)) := by
  obtain ⟨p, -, h⟩ := bind_eq_ok.1 h
  split at h <;> cases h <;> exact answer_listed (fun _ => Answer.noConfusion) trivial

/-- A session is refused, or the board is told of it. -/
theorem openSession_listed : (w.openSession d δ).Listed w d δ (.perform self .init) := by
  unfold openSession
  split
  · rename_i stopped
    refine Alike.calling_listed ?_ (.init stopped) rfl
    split
    · exact alike_emit fun _ _ => rfl
    · exact Alike.refl w
  · rename_i some
    exact answer_listed (fun _ => Answer.noConfusion) ⟨some, rfl⟩

/-- A run is refused, or comes to the head of its loop. -/
theorem run_listed : (w.run d δ).Listed w d δ (.perform self .run) := by
  unfold run
  split
  · rename_i stopped
    exact answer_listed (fun _ => Answer.noConfusion) (.inl ⟨stopped, rfl⟩)
  · rename_i running
    split
    · rename_i busy
      exact answer_listed (fun _ => Answer.noConfusion) (.inr ⟨running, busy, rfl⟩)
    · rename_i free
      exact (alike_emit fun _ _ => rfl).leaving_listed (.run running (Bool.eq_false_iff.2 free)) rfl

/-- A tick is refused, or begins a round. -/
theorem tick_listed : (w.tick d δ).Listed w d δ (.perform self .tick) := by
  unfold tick
  split
  · rename_i late
    exact answer_listed (fun _ => Answer.noConfusion) (.inl ⟨late, rfl⟩)
  · rename_i active
    split
    · rename_i busy
      exact answer_listed (fun _ => Answer.noConfusion) (.inr ⟨not_not.1 active, busy, rfl⟩)
    · rename_i free
      exact (Alike.refl w).leaving_listed (.tick (not_not.1 active) (Bool.eq_false_iff.2 free)) rfl

/-- The first step of an operation, which is not on another device, is in the list. -/
theorem perform_listed (here : ∀ e op', op ≠ .on e op') (h : w.perform d δ self op = .ok move) :
    move.Listed w d δ (.perform self op) := by
  cases op with
  | declare => cases h; exact (Alike.refl w).calling_listed (.ask .declare) rfl
  | configure task handler ms repeats =>
    obtain ⟨i, ref, h⟩ := bind_eq_ok.1 h
    exact lockedOn_listed (fun _ => trivial) (.configure ref) h
  | start task =>
    obtain ⟨i, ref, h⟩ := bind_eq_ok.1 h
    exact start_listed ref h
  | stop task =>
    obtain ⟨i, ref, h⟩ := bind_eq_ok.1 h
    exact stop_listed ref h
  | update task ms =>
    obtain ⟨i, ref, h⟩ := bind_eq_ok.1 h
    exact update_listed ref h
  | attach task data =>
    obtain ⟨i, ref, h⟩ := bind_eq_ok.1 h
    exact lockedOn_listed (fun _ => trivial) (.attach ref) h
  | write task data =>
    obtain ⟨i, ref, h⟩ := bind_eq_ok.1 h
    exact lockedOn_listed (fun _ => trivial) (.write ref) h
  | alloc k => exact alloc_listed h
  | pool k => exact countPool_listed h
  | init => cases h; exact openSession_listed
  | run => cases h; exact run_listed
  | tick => cases h; exact tick_listed
  | shutdown => cases h; exact (Alike.refl w).calling_listed (.ask .shutdown) rfl
  | query task =>
    obtain ⟨i, ref, h⟩ := bind_eq_ok.1 h
    exact query_listed ref h
  | info => cases h; exact (Alike.refl w).calling_listed .info rfl
  | capacity => cases h; exact answer_listed (fun _ => Answer.noConfusion) trivial
  | task task =>
    obtain ⟨i, -, h⟩ := bind_eq_ok.1 h
    split at h <;> cases h <;> exact answer_listed (fun _ => Answer.noConfusion) trivial
  | advance ms => cases h; exact answering_listed .advance
  | setNow ms => cases h; exact answering_listed .setNow
  | hook call after body => cases h; exact answering_listed .hook
  | on e op' => exact absurd rfl (here e op')

/-! ### Clock readings and work under the lock -/

/-- What a round does with the task of its cache is decided by the time that is left for it. -/
theorem resumeCached_listed {timing : Interval} :
    (w.resumeCached d (δ.withBoard δ.board.readClock.2) i (timing.remaining δ.board.clock)).Listed w d δ
      (.reading (.cached i timing)) := by
  unfold resumeCached
  split
  · rename_i early
    split
    · rename_i same
      exact (Alike.refl w).leaving_listed (.wait early same) rfl
    · rename_i other
      exact (Alike.refl w).leaving_listed (.retarget early other) rfl
  · rename_i late
    have due : timing.remaining δ.board.clock = 0 := by
      rw [← UInt32.toNat_inj]
      simpa [UInt32.lt_iff_toNat_lt] using late
    exact (Alike.refl w).leaving_listed (.dueFirst due) rfl

/-- A query that has read the clock. -/
theorem asking_of_reading {r : Reading} (h : r.asks) :
    Asking w δ (.reading r) (δ.withBoard δ.board.readClock.2) :=
  ⟨fun _ a => .told h a, fun _ r' => .asked h r'⟩

/-- What becomes of a clock reading is in the list, for every kind of reading. -/
theorem resume_listed {r : Reading} (h : w.resume d (δ.withBoard δ.board.readClock.2) δ.board.clock r = .ok move) :
    move.Listed w d δ (.reading r) := by
  cases r with
  | start i next =>
    obtain ⟨σ, hσ, h⟩ := bind_eq_ok.1 h
    cases h
    exact (Alike.refl w).calling_listed (.stamp hσ) rfl
  | cached i timing => cases h; exact resumeCached_listed
  | due i timing =>
    cases h
    split
    · rename_i expired
      exact (Alike.refl w).leaving_listed (.due expired) rfl
    · rename_i early
      exact (Alike.refl w).leaving_listed (.notDue (Bool.eq_false_iff.2 early)) rfl
  | scan =>
    obtain ⟨best, hb, h⟩ := bind_eq_ok.1 h
    cases h
    exact (Alike.refl w).calling_listed (.scan hb) rfl
  | renew i =>
    obtain ⟨σ, hσ, h⟩ := bind_eq_ok.1 h
    cases h
    exact (Alike.refl w).calling_listed (.renew hσ) rfl
  | elapsed i timing row => exact askRemaining_listed (asking_of_reading rfl) h
  | remaining i timing row => exact askExpired_listed (asking_of_reading rfl) h
  | expired i timing row => cases h; exact answering_listed (.told rfl fun _ => Answer.noConfusion)
  | info runState =>
    obtain ⟨row, -, h⟩ := bind_eq_ok.1 h
    cases h
    exact answering_listed (.told rfl fun _ => Answer.noConfusion)

/-- The trace counts each invocation of a handler with its device and slot. -/
theorem invocations_emit_ran {k : Nat} {clock : UInt32} {bytes : List UInt8} (e j : Nat) :
    (w.emit (.ran d ⟨i⟩ k clock bytes)).invocations e j =
      w.invocations e j + if e = d ∧ i = j then 1 else 0 := by
  simp only [invocations, emit, Array.countP_push, Event.invokes, Bool.and_eq_true, decide_eq_true_eq,
    TaskId.mk.injEq, @eq_comm _ d e]

/-- Taking the next body of a handler changes nothing but how often it was invoked. -/
theorem invoke_alike (w : World) (k : Nat) : w.Alike (w.invoke k).2 := by
  unfold invoke
  split
  · rename_i h found
    refine ⟨rfl, ?_, rfl, rfl⟩
    apply Array.ext_getElem?
    intro j
    simp only [programs, Array.getElem?_map, Array.getElem?_setIfInBounds]
    split
    · rename_i same
      subst same
      obtain ⟨bound, same⟩ := Array.getElem?_eq_some_iff.1 found
      simp [Handler.invoke, bound, same]
    · rfl
  · exact .refl w

theorem invoke_emit (w : World) (e : Event) (k : Nat) : ((w.emit e).invoke k).1 = (w.invoke k).1 := by
  unfold invoke emit
  dsimp only
  split <;> rfl

/-- The one step that invokes a handler. -/
theorem callHandler_listed (h : w.callHandler d δ i = .ok move) : move.Listed w d δ (.locked (.fetch i)) := by
  obtain ⟨t, ht, h⟩ := bind_eq_ok.1 h
  have told : w.Alike (w.log (.dispatch ⟨i⟩)) := alike_emit fun _ _ => rfl
  dsimp only at h
  split at h
  · rename_i handlerless
    cases h
    exact told.leaving_listed (.unhandled ht handlerless) rfl
  · rename_i k handler
    obtain ⟨bytes, -, h⟩ := bind_eq_ok.1 h
    cases h
    refine ⟨_, .fetched ht handler, ?_, ?_, (invoke_alike _ _).programs, (invoke_alike _ _).wipes, ?_⟩
    · simp [leaving, put, (invoke_alike _ _).devices, emit, log, Stride.device]
    · simp [leaving, Stride.frames, invoke_emit, log]
    · intro e j
      show (invoke _ k).2.invocations e j = _
      rw [(invoke_alike _ _).invocations, invocations_emit_ran, told.invocations]
      simp [Stride.invoked]

/-- Only a task whose handler is on the call stack cannot be configured. -/
theorem inHandler_of_configure {handler : Nat} {ms : UInt32} {repeats : Bool} {σ : Scheduler} {e : Error}
    (h : σ.configure i handler ms repeats = .ok (.error e)) : (σ.life i).state.inHandler := by
  obtain ⟨t, ht, h⟩ := bind_eq_ok.1 h
  split at h
  · rename_i busy
    rw [Scheduler.life, Arena.life_of_slot ht]
    exact busy
  · by_cases first : t.state = .uninit
    · simp only [first, if_true] at h
      obtain ⟨τ, -, h⟩ := bind_eq_ok.1 h
      obtain ⟨υ, -, h⟩ := bind_eq_ok.1 h
      cases h
    · simp only [first, if_false] at h
      obtain ⟨τ, -, h⟩ := bind_eq_ok.1 h
      obtain ⟨υ, -, h⟩ := bind_eq_ok.1 h
      cases h

/-- A search that has the lock takes the slot that it looked at, and the pool wipes it if it does so. Or someone else took
the slot meanwhile. -/
theorem claim_eq_ok {left : Nat} (h : w.claim d δ i left = .ok move) : ∃ t, δ.scheduler.arena.slot i = .ok t ∧
    (t.allocated ∧ move = w.leaving d δ [.claiming (i + 1) left] ∨
      t.allocated = false ∧ ∃ σ ps, δ.scheduler.alter i Task.handOut = .ok σ ∧ w.wiped t.payload = .ok ps ∧
        move = { w with pools := ps }.answering d (δ.withScheduler σ) (.slot (some ⟨i⟩))) := by
  obtain ⟨t, slot, h⟩ := bind_eq_ok.1 h
  refine ⟨t, slot, ?_⟩
  split at h
  · rename_i allocated
    cases h
    exact .inl ⟨allocated, rfl⟩
  · rename_i free
    obtain ⟨σ, taken, h⟩ := bind_eq_ok.1 h
    obtain ⟨ps, wiped, h⟩ := bind_eq_ok.1 h
    cases h
    exact .inr ⟨by simpa using free, σ, ps, taken, wiped, rfl⟩

/-- What is done under the lock is in the list, for every section. -/
theorem work_listed {s : Section} (h : w.work d δ s = .ok move) : move.Listed w d δ (.locked s) := by
  have refusal : ∀ {s : Section} {a : Answer}, s.refuses → (∀ ms, a ≠ .deadline ms) →
      (∀ i handler ms repeats, s ≠ .configure i handler ms repeats) → (w.answering d δ a).Listed w d δ (.locked s) :=
    fun r answer other => answering_listed (.refused r answer fun _ _ _ _ same => absurd same (other _ _ _ _))
  cases s with
  | declare =>
    simp only [work] at h
    split at h
    · cases h; exact refusal rfl nofun nofun
    · rename_i taken
      cases h; exact answering_listed (.declared taken)
  | configure i handler ms repeats =>
    obtain ⟨r, hr, h⟩ := bind_eq_ok.1 h
    cases r <;> cases h
    · refine answering_listed (.refused rfl (fun _ => Answer.noConfusion) fun _ _ _ _ same => ?_)
      cases same
      exact inHandler_of_configure hr
    · exact answering_listed (.configured hr)
  | noteArmed i now =>
    obtain ⟨σ, hσ, h⟩ := bind_eq_ok.1 h
    cases h; exact answering_listed (.noted hσ)
  | forget i => cases h; exact answering_listed .forgotten
  | attach i data =>
    obtain ⟨r, hr, h⟩ := bind_eq_ok.1 h
    rcases r with e | ⟨σ, ps⟩ <;> cases h
    · exact refusal rfl nofun nofun
    · exact Alike.leaving_listed ⟨rfl, rfl, rfl, rfl⟩ (.attached hr) rfl
  | write i data =>
    obtain ⟨r, hr, h⟩ := bind_eq_ok.1 h
    rcases r with e | ⟨kept, σ, ps⟩ <;> cases h
    · exact refusal rfl nofun nofun
    · exact Alike.leaving_listed ⟨rfl, rfl, rfl, rfl⟩ (.written hr) rfl
  | dataLength i row =>
    obtain ⟨t, -, h⟩ := bind_eq_ok.1 h
    exact askElapsed_listed ⟨fun _ a => .lengthTold a, fun _ r => .lengthAsked r⟩ h
  | beginSession =>
    obtain ⟨σ, hσ, h⟩ := bind_eq_ok.1 h
    cases h; exact (alike_emit fun _ _ => rfl).leaving_listed (.begun hσ) rfl
  | shutdown => cases h; exact answering_listed .shutdown
  | adopt best now =>
    obtain ⟨⟨σ, left⟩, hσ, h⟩ := bind_eq_ok.1 h
    cases h; exact (Alike.refl w).leaving_listed (.adopted hσ) rfl
  | fetch i => exact callHandler_listed h
  | endSession =>
    obtain ⟨⟨count, σ⟩, hσ, h⟩ := bind_eq_ok.1 h
    cases h
    unfold closeSession
    refine Alike.calling_listed ?_ (.ended hσ) rfl
    split
    · exact alike_emit fun _ _ => rfl
    · exact Alike.refl w
  | sessionOver tasks => cases h; exact (alike_emit fun _ _ => rfl).leaving_listed .sessionOver rfl
  | enroll k =>
    obtain ⟨p, -, h⟩ := bind_eq_ok.1 h
    obtain ⟨r, hr, h⟩ := bind_eq_ok.1 h
    rcases r with _ | ⟨first, σ, ps⟩ <;> cases h
    · exact (alike_emit fun _ _ => rfl).leaving_listed (.refused rfl nofun nofun) rfl
    · exact Alike.leaving_listed ⟨rfl, rfl, rfl, rfl⟩ (.enrolled hr) rfl
  | claim i left =>
    obtain ⟨t, -, ⟨-, rfl⟩ | ⟨-, σ, ps, hσ, -, rfl⟩⟩ := claim_eq_ok h
    · exact (Alike.refl w).leaving_listed .claimedMeanwhile rfl
    · exact Alike.leaving_listed ⟨rfl, rfl, rfl, rfl⟩ (.claimed hσ) rfl

/-! ### Frames -/

/-- A look at one slot of a pool: it is the last one, or it is taken, or the lock is taken for it. -/
theorem claiming_listed {left : Nat} : (w.claiming d δ i left).Listed w d δ (.claiming i left) := by
  cases left with
  | zero => exact answering_listed (.unclaimed fun _ => Answer.noConfusion)
  | succ left =>
    rw [claiming]
    split
    · exact answering_listed (.unclaimed fun _ => Answer.noConfusion)
    · split
      · exact (Alike.refl w).leaving_listed .occupied rfl
      · exact (Alike.refl w).calling_listed .claiming rfl

/-- A round begins with a reading for the task of the cache, or with the walk. -/
theorem checkCache_listed (h : w.checkCache d δ = .ok move) : move.Listed w d δ .checkCache := by
  have blind : (w.leaving d δ [.survey none]).Listed w d δ .checkCache :=
    (Alike.refl w).leaving_listed .nothingRemembered rfl
  unfold checkCache at h
  split at h
  · cases h; exact blind
  · rename_i soonest
    obtain ⟨t, ht, h⟩ := bind_eq_ok.1 h
    split at h
    · rename_i active
      cases h; exact (Alike.refl w).calling_listed (.remembered soonest ht active) rfl
    · cases h; exact blind

/-- A step along the queue looks at the task there, or passes over it, or comes to the scan. -/
theorem walk_listed {skip cursor : Option Nat} (h : w.walk d δ skip cursor = .ok move) :
    move.Listed w d δ (.walking skip cursor) := by
  cases cursor with
  | none => cases h; exact (Alike.refl w).calling_listed .walked rfl
  | some i =>
    obtain ⟨t, ht, h⟩ := bind_eq_ok.1 h
    split at h
    · rename_i look
      cases h; exact (Alike.refl w).calling_listed (.looked look.1 ht look.2) rfl
    · rename_i pass
      cases h
      refine (Alike.refl w).leaving_listed (.passed ?_ ht) rfl
      by_cases skipped : skip = some i
      · exact .inl skipped
      · exact .inr fun active => pass ⟨skipped, active⟩

/-- A dispatch finds that the task waits no more, or begins its interval anew, or marks it as its last run. -/
theorem dispatch_listed (h : w.dispatch d δ i = .ok move) : move.Listed w d δ (.dispatch i) := by
  obtain ⟨t, ht, h⟩ := bind_eq_ok.1 h
  split at h
  · rename_i active
    split at h
    · rename_i repeats
      cases h; exact (Alike.refl w).calling_listed (.renewing ht active repeats) rfl
    · rename_i once
      obtain ⟨σ, hσ, h⟩ := bind_eq_ok.1 h
      cases h
      exact (Alike.refl w).calling_listed (.dispatched ht active (Bool.eq_false_iff.2 once) hσ) rfl
  · rename_i idle
    cases h; exact (Alike.refl w).leaving_listed (.notDispatched ht idle) rfl

/-- Every step of a frame is one of those that `Leads` lists, unless it hands an operation to another scheduler. -/
theorem step_listed (here : ∀ self e op, act ≠ .perform self (.on e op)) (h : w.step d δ act = .ok move) :
    move.Listed w d δ act := by
  cases act with
  | perform self op => exact perform_listed (fun e op' same => here self e op' (same ▸ rfl)) h
  | block self ops =>
    cases ops with
    | nil => cases h; exact (Alike.refl w).leaving_listed .blockEnd rfl
    | cons op ops => cases h; exact (Alike.refl w).leaving_listed .blockNext rfl
  | interrupts call bodies =>
    cases bodies with
    | nil => cases h; exact (Alike.refl w).leaving_listed .interruptsEnd rfl
    | cons body rest => cases h; exact (alike_emit fun _ _ => rfl).leaving_listed .interruptsNext rfl
  | reading r => exact resume_listed h
  | locked s => exact work_listed h
  | opening => cases h; exact (Alike.refl w).calling_listed .opened rfl
  | closing count => cases h; exact (Alike.refl w).calling_listed .closed rfl
  | sleeping ms =>
    cases h
    unfold wake
    dsimp only
    split
    · exact Alike.leaving_listed ⟨rfl, rfl, rfl, rfl⟩ .wokenLast rfl
    · exact Alike.leaving_listed ⟨rfl, rfl, rfl, rfl⟩ .woken rfl
  | running =>
    cases h
    unfold loop
    split
    · rename_i active
      exact (Alike.refl w).leaving_listed (.anotherRound active) rfl
    · rename_i inactive
      exact (Alike.refl w).calling_listed (.lastRound inactive) rfl
  | checkCache => exact checkCache_listed h
  | survey skip => cases h; exact (Alike.refl w).leaving_listed .surveyed rfl
  | walking skip cursor => exact walk_listed h
  | dispatch i => exact dispatch_listed h
  | handling i k p =>
    cases h
    unfold countRun
    dsimp only
    split
    · exact Alike.calling_listed ⟨rfl, rfl, rfl, rfl⟩ .handledLast rfl
    · exact Alike.leaving_listed ⟨rfl, rfl, rfl, rfl⟩ .handled rfl
  | settle i =>
    obtain ⟨σ, hσ, h⟩ := bind_eq_ok.1 h
    cases h; exact (Alike.refl w).leaving_listed (.settled hσ) rfl
  | claiming i left => cases h; exact claiming_listed
  | report op => cases h
  | discard => cases h
  | ticking => cases h
  | round => cases h
  | answered a => cases h
  | deadline ms => cases h

end World

end TimedTasks
