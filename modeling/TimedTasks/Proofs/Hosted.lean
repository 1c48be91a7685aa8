import TimedTasks.Hosted

/-!
# A session on a host

What `HostedRow.find` finds, for every interval and every number of runs: the handler ran as often as it was asked to,
and the session is over.

The clock of such a board moves in sleeps only, so a round finds the one task either just begun or just due. A turn of
the loop is then the same 23 steps each time (`turn_quiet`), up to the one in which the handler asks for the shutdown
(`turn_last`), and a run is as many turns as the handler is to run (`turns`).
-/

namespace TimedTasks

/-- A script whose first operation is over has the report of it, before those of the others. -/
theorem Script.runFrom_cons {s : Script} {fuel n : Nat} {w after : World} {op : Op} {rest : List Op} {a : Answer}
    {r : Report} {rs : List Report} (finished : (Machine.call w 0 op).run n = .answered a after) (le : n ≤ fuel)
    (told : s.report w after a = .ok r) (others : s.runFrom fuel after rest = .ok rs) :
    s.runFrom fuel w (op :: rest) = .ok (r :: rs) := by
  rw [runFrom, Machine.run_answered_of_le finished le]
  simp only [told, others]
  rfl

namespace HostedRow

/-! ## The machines of the script -/

/-- The task of the script, whose interval began at clock reading `start`. -/
def task (len start : UInt32) (state : TaskState) : Task :=
  { Task.fresh with state, timing := ⟨start, len⟩, repeats := true, handler := some 0 }

/-- The scheduler while its task is configured, and remembered as the one that is due next. -/
def holding (len start : UInt32) (state : TaskState) (runState : RunState) (inRound : Bool) : Scheduler :=
  ⟨#[task len start state], 1, ⟨some 0, some 0⟩, ⟨some 0, none⟩, runState, inRound⟩

/-- The scheduler before its task is configured, and after the session. -/
def idle (declared : Nat) (runState : RunState) : Scheduler :=
  ⟨#[Task.fresh], declared, .empty, .empty, runState, false⟩

/-- The scheduler after its task was started at clock reading 0, when no round has looked at it yet. -/
def armed (len : UInt32) (inRound : Bool) : Scheduler :=
  { holding len 0 .active .active inRound with cache := ⟨none, some 0⟩ }

/-- What the handler does at each of its invocations. -/
def bodies (runs : Nat) : List (List Op) := List.replicate (runs - 1) [] ++ [[.shutdown]]

/-- How far a run has come: the clock, how often the handler was called, how many of these calls and how many sleeps
are over, and what happened so far. -/
structure Stage where
  now : UInt32
  calls : Nat
  ended : Nat
  sleeps : Nat
  trace : Array Event

/-- The machine of the script at stage `g`, with these acts on its stack. -/
def machine (runs : Nat) (g : Stage) (σ : Scheduler) (acts : List Act) : Machine where
  world :=
    { devices := #[⟨⟨false, g.now, [], [], []⟩, σ⟩]
      pools := #[]
      wipes := false
      handlers := #[⟨bodies runs, g.calls⟩]
      limit := runs + 2
      runs := g.ended
      sleeps := g.sleeps
      trace := g.trace }
  stack := acts.map (⟨0, ·⟩)

/-- What happens when the session begins. -/
def opened : Array Event := #[.opened 0, .logged (.initialized 1)]

/-- What happens when the handler is called. -/
def dispatched (now : UInt32) : Array Event := #[.logged (.dispatch ⟨0⟩), .ran 0 ⟨0⟩ 0 now []]

/-- What happens once it asks for the shutdown. -/
def closing : Array Event := #[Event.performed "shutdown" .done] ++ #[Event.closed 0, .logged (.stopped 1)]

variable {len start now : UInt32} {runs calls ended sleeps : Nat} {runState : RunState} {trace : Array Event}
  {ops : List Op} {g : Stage}

/-! ## Time -/

/-- The interval of a repeating task is never empty. -/
theorem clamp_pos (ms : UInt32) : 0 < Interval.clamp ms true := by
  unfold Interval.clamp
  grind [Interval.longest, Interval.shortestRepeating]

/-- Nothing is left of an interval after its length, whether or not the clock wrapped on the way. -/
theorem remaining_end : Interval.remaining ⟨start, len⟩ (start + len) = 0 := by
  have : start + len - start = len := by rw [UInt32.add_comm, UInt32.add_sub_cancel]
  simp [Interval.remaining, Interval.elapsed, this]

theorem remaining_start (pos : 0 < len) : Interval.remaining ⟨start, len⟩ start = len := by
  simp [Interval.remaining, Interval.elapsed, pos]

/-! ## The stages of a turn

Where nothing depends on numbers that are not known, the machine is simply run. The steps that are written out are those
that compare times or counts. -/

/-- The task is found due. -/
theorem look_due :
    (machine runs ⟨start + len, calls, ended, sleeps, trace⟩ (holding len start .active .active false) [.running]).run 4 =
      .unfinished (machine runs ⟨start + len, calls, ended, sleeps, trace⟩ (holding len start .active .active true)
        [.dispatch 0, .survey (some 0), .round, .running]) := by
  have looked :
      (machine runs ⟨start + len, calls, ended, sleeps, trace⟩ (holding len start .active .active false)
        [.running]).run 3 =
      .unfinished (machine runs ⟨start + len, calls, ended, sleeps, trace⟩ (holding len start .active .active true)
        [.reading (.cached 0 ⟨start, len⟩), .round, .running]) := rfl
  refine Machine.run_trans (k := 1) looked ?_ rfl
  simp [Machine.run, Machine.step, Machine.onto, machine, World.device, World.step, World.resume, World.resumeCached,
    remaining_end, Board.readClock, Device.withBoard, World.leaving, World.put, Board.usedUp, bind, Except.bind]

/-- The task begins its next interval before its handler runs. -/
theorem renew_due :
    (machine runs ⟨now, calls, ended, sleeps, trace⟩ (holding len start .active .active true)
        [.dispatch 0, .survey (some 0), .round, .running]).run 4 =
      .unfinished (machine runs ⟨now, calls, ended, sleeps, trace⟩ (holding len now .executing .active true)
        [.locked (.fetch 0), .settle 0, .survey (some 0), .round, .running]) := by
  have renewed :
      (machine runs ⟨now, calls, ended, sleeps, trace⟩ (holding len start .active .active true)
        [.dispatch 0, .survey (some 0), .round, .running]).run 4 =
      .unfinished (machine runs ⟨now + 0, calls, ended, sleeps, trace⟩ (holding len now .executing .active true)
        [.locked (.fetch 0), .settle 0, .survey (some 0), .round, .running]) := rfl
  rwa [UInt32.add_zero] at renewed

/-- The handler is called, and has these operations to run. -/
theorem fetch_body (body : (bodies runs)[min calls ((bodies runs).length - 1)]? = some ops) :
    (machine runs ⟨now, calls, ended, sleeps, trace⟩ (holding len start .executing .active true)
        [.locked (.fetch 0), .settle 0, .survey (some 0), .round, .running]).run 1 =
      .unfinished (machine runs
        ⟨now, calls + 1, ended, sleeps, trace ++ dispatched now⟩
        (holding len start .executing .active true)
        [.block (some 0) ops, .handling 0 0 (.attached []), .settle 0, .survey (some 0), .round, .running]) := by
  have fetched :
      (machine runs ⟨now, calls, ended, sleeps, trace⟩ (holding len start .executing .active true)
        [.locked (.fetch 0), .settle 0, .survey (some 0), .round, .running]).run 1 =
      .unfinished (machine runs
        ⟨now, calls + 1, ended, sleeps, trace ++ dispatched now⟩
        (holding len start .executing .active true)
        [.block (some 0) (((bodies runs)[min calls ((bodies runs).length - 1)]?).getD []), .handling 0 0 (.attached []),
          .settle 0, .survey (some 0), .round, .running]) := rfl
  rw [fetched, body, Option.getD_some]

/-- The handler has nothing to do. -/
theorem skip_body :
    (machine runs ⟨now, calls, ended, sleeps, trace⟩ (holding len start .executing .active true)
        [.block (some 0) [], .handling 0 0 (.attached []), .settle 0, .survey (some 0), .round, .running]).run 1 =
      .unfinished (machine runs ⟨now, calls, ended, sleeps, trace⟩ (holding len start .executing .active true)
        [.handling 0 0 (.attached []), .settle 0, .survey (some 0), .round, .running]) := rfl

/-- The handler asks for the shutdown. -/
theorem ask_shutdown :
    (machine runs ⟨now, calls, ended, sleeps, trace⟩ (holding len start .executing .active true)
        [.block (some 0) [.shutdown], .handling 0 0 (.attached []), .settle 0, .survey (some 0), .round,
          .running]).run 6 =
      .unfinished (machine runs ⟨now, calls, ended, sleeps, trace ++ #[Event.performed "shutdown" .done]⟩
        (holding len start .executing .stopping true)
        [.handling 0 0 (.attached []), .settle 0, .survey (some 0), .round, .running]) := rfl

/-- The handler returns; it did not run so often yet that the world asks for the shutdown. -/
theorem count_run (few : ended < runs + 1) :
    (machine runs ⟨now, calls, ended, sleeps, trace⟩ (holding len start .executing runState true)
        [.handling 0 0 (.attached []), .settle 0, .survey (some 0), .round, .running]).run 2 =
      .unfinished (machine runs ⟨now, calls, ended + 1, sleeps, trace⟩ (holding len start .active runState true)
        [.survey (some 0), .round, .running]) := by
  simp [Machine.run, Machine.step, Machine.onto, machine, World.device, World.step, World.countRun,
    show ¬ runs + 2 ≤ ended + 1 by omega, Device.withScheduler, World.leaving, World.put, bind, Except.bind, holding,
    Scheduler.alter, Arena.alter, task, Task.settle]

/-- The rest of the round finds that the whole interval is left. -/
theorem look_ahead (pos : 0 < len) :
    (machine runs ⟨start, calls, ended, sleeps, trace⟩ (holding len start .active runState true)
        [.survey (some 0), .round, .running]).run 8 =
      .unfinished (machine runs ⟨start, calls, ended, sleeps, trace⟩ (holding len start .active runState false)
        [.deadline (some len), .running]) := by
  have walked :
      (machine runs ⟨start, calls, ended, sleeps, trace⟩ (holding len start .active runState true)
        [.survey (some 0), .round, .running]).run 4 =
      .unfinished (machine runs ⟨start, calls, ended, sleeps, trace⟩ (holding len start .active runState true)
        [.reading .scan, .round, .running]) := rfl
  have scanned :
      (machine runs ⟨start, calls, ended, sleeps, trace⟩ (holding len start .active runState true)
        [.reading .scan, .round, .running]).run 2 =
      .unfinished (machine runs ⟨start + 0, calls, ended, sleeps, trace⟩ (holding len start .active runState true)
        [.locked (.adopt (some 0) start), .round, .running]) := rfl
  have adopted :
      (machine runs ⟨start, calls, ended, sleeps, trace⟩ (holding len start .active runState true)
        [.locked (.adopt (some 0) start), .round, .running]).run 2 =
      .unfinished (machine runs ⟨start, calls, ended, sleeps, trace⟩ (holding len start .active runState false)
        [.deadline (some (Interval.remaining ⟨start, len⟩ start)), .running]) := rfl
  rw [UInt32.add_zero] at scanned
  rw [remaining_start pos] at adopted
  exact Machine.run_trans walked (Machine.run_trans scanned adopted rfl) rfl

/-- While the session lasts, the board sleeps for the interval. -/
theorem sleep_on (pos : 0 < len) (few : sleeps < runs + 1) :
    (machine runs ⟨now, calls, ended, sleeps, trace⟩ (holding len start .active .active false)
        [.deadline (some len), .running]).run 3 =
      .unfinished (machine runs ⟨now + len, calls, ended, sleeps + 1, trace ++ #[Event.slept 0 len]⟩
        (holding len start .active .active false) [.running]) := by
  have some_nap : len ≠ 0 := UInt32.pos_iff_ne_zero.1 pos
  simp [Machine.run, Machine.step, Machine.onto, machine, World.device, World.step, World.takeDeadline, some_nap,
    World.sleep, Board.serves, World.calling, Board.called, World.wake, Board.slept, Board.usedUp, World.emit,
    Device.withBoard, World.leaving, World.put, bind, Except.bind, show ¬ runs + 2 ≤ sleeps + 1 by omega, holding,
    Option.getD, min]

/-- Once the shutdown was asked for, the session is closed. -/
theorem close_session :
    (machine runs ⟨now, calls, ended, sleeps, trace⟩ (holding len start .active .stopping false)
        [.deadline (some len), .running]).run 9 =
      .answered .done (machine runs ⟨now, calls, ended, sleeps, trace ++ #[Event.closed 0, .logged (.stopped 1)]⟩
        (idle 1 .stopped) []).world := by
  have left :
      (machine runs ⟨now, calls, ended, sleeps, trace⟩ (holding len start .active .stopping false)
        [.deadline (some len), .running]).run 3 =
      .unfinished (machine runs ⟨now, calls, ended, sleeps, trace⟩ (holding len start .active .stopping false)
        [.locked .endSession]) := rfl
  have dismissed :
      (machine runs ⟨now, calls, ended, sleeps, trace⟩ (holding len start .active .stopping false)
        [.locked .endSession]).run 1 =
      .unfinished (machine runs ⟨now, calls, ended, sleeps, trace.push (.closed 0)⟩ (idle 1 .stopping)
        [.interrupts .deinit [], .closing 1]) := rfl
  have told :
      (machine runs ⟨now, calls, ended, sleeps, trace.push (.closed 0)⟩ (idle 1 .stopping)
        [.interrupts .deinit [], .closing 1]).run 5 =
      .answered .done (machine runs ⟨now, calls, ended, sleeps, trace ++ #[Event.closed 0, .logged (.stopped 1)]⟩
        (idle 1 .stopped) []).world := rfl
  exact Machine.run_trans left (Machine.run_trans dismissed told rfl) rfl

/-! ## Turns of the loop -/

/-- Before its last invocation the handler does nothing. -/
theorem body_quiet (few : calls + 1 < runs) : (bodies runs)[min calls ((bodies runs).length - 1)]? = some [] := by
  have inside : calls < runs - 1 := by omega
  have index : min calls ((bodies runs).length - 1) = calls := by
    simp only [bodies, List.length_append, List.length_replicate, List.length_cons, List.length_nil]
    omega
  rw [index, bodies, List.getElem?_append_left (by simpa using inside)]
  simp [inside]

/-- In its last invocation it asks for the shutdown. -/
theorem body_last (last : runs ≤ calls + 1) :
    (bodies runs)[min calls ((bodies runs).length - 1)]? = some [.shutdown] := by
  have index : min calls ((bodies runs).length - 1) = runs - 1 := by
    simp only [bodies, List.length_append, List.length_replicate, List.length_cons, List.length_nil]
    omega
  rw [index, bodies]
  simp

/-- A turn in which the handler does nothing: the next turn begins one interval later. -/
theorem turn_quiet (pos : 0 < len) (few : calls + 1 < runs) :
    (machine runs ⟨start + len, calls, calls, calls + 1, trace⟩ (holding len start .active .active false)
        [.running]).run 23 =
      .unfinished (machine runs ⟨start + len + len, calls + 1, calls + 1, calls + 2,
          trace ++ (dispatched (start + len) ++ #[Event.slept 0 len])⟩
        (holding len (start + len) .active .active false) [.running]) := by
  rw [← Array.append_assoc]
  refine Machine.run_trans (k := 19) look_due ?_ rfl
  refine Machine.run_trans (k := 15) renew_due ?_ rfl
  refine Machine.run_trans (k := 14) (fetch_body (body_quiet few)) ?_ rfl
  refine Machine.run_trans (k := 13) skip_body ?_ rfl
  refine Machine.run_trans (k := 11) (count_run (by omega)) ?_ rfl
  refine Machine.run_trans (k := 3) (look_ahead pos) ?_ rfl
  exact sleep_on pos (by omega)

/-- The turn in which the handler asks for the shutdown ends the run. -/
theorem turn_last (pos : 0 < len) (last : runs ≤ calls + 1) (few : calls < runs + 1) :
    (machine runs ⟨start + len, calls, calls, calls + 1, trace⟩ (holding len start .active .active false)
        [.running]).run 34 =
      .answered .done (machine runs ⟨start + len, calls + 1, calls + 1, calls + 1,
          trace ++ (dispatched (start + len) ++ closing)⟩ (idle 1 .stopped) []).world := by
  rw [closing, ← Array.append_assoc, ← Array.append_assoc]
  refine Machine.run_trans (k := 30) look_due ?_ rfl
  refine Machine.run_trans (k := 26) renew_due ?_ rfl
  refine Machine.run_trans (k := 25) (fetch_body (body_last last)) ?_ rfl
  refine Machine.run_trans (k := 19) ask_shutdown ?_ rfl
  refine Machine.run_trans (k := 17) (count_run few) ?_ rfl
  refine Machine.run_trans (k := 9) (look_ahead pos) ?_ rfl
  exact close_session

/-- The first round of the run finds that the task still waits. -/
theorem look_early (pos : 0 < len) :
    (machine runs ⟨0, 0, 0, 0, trace⟩ (armed len false) [.perform none .run]).run 7 =
      .unfinished (machine runs ⟨0, 0, 0, 0, trace ++ #[Event.logged .running]⟩ (armed len true)
        [.walking none none, .round, .running]) := by
  have begun :
      (machine runs ⟨0, 0, 0, 0, trace⟩ (armed len false) [.perform none .run]).run 4 =
      .unfinished (machine runs ⟨0, 0, 0, 0, trace ++ #[Event.logged .running]⟩ (armed len true)
        [.walking none (some 0), .round, .running]) := rfl
  have looked :
      (machine runs ⟨0, 0, 0, 0, trace ++ #[Event.logged .running]⟩ (armed len true)
        [.walking none (some 0), .round, .running]).run 2 =
      .unfinished (machine runs ⟨0, 0, 0, 0, trace ++ #[Event.logged .running]⟩ (armed len true)
        [.reading (.due 0 ⟨0, len⟩), .walking none none, .round, .running]) := rfl
  have some_time : len ≠ 0 := UInt32.pos_iff_ne_zero.1 pos
  refine Machine.run_trans (k := 3) begun ?_ rfl
  refine Machine.run_trans (k := 1) looked ?_ rfl
  simp [Machine.run, Machine.step, Machine.onto, machine, World.device, World.step, World.resume, Interval.expired,
    Interval.elapsed, some_time, Board.readClock, Device.withBoard, World.leaving, World.put, Board.usedUp, bind,
    Except.bind]

/-- The first turn: the task was only started, so the board sleeps for its whole interval. -/
theorem turn_first (pos : 0 < len) :
    (machine runs ⟨0, 0, 0, 0, trace⟩ (armed len false) [.perform none .run]).run 16 =
      .unfinished (machine runs ⟨0 + len, 0, 0, 1, trace ++ #[Event.logged .running] ++ #[Event.slept 0 len]⟩
        (holding len 0 .active .active false) [.running]) := by
  have scanned :
      (machine runs ⟨0, 0, 0, 0, trace ++ #[Event.logged .running]⟩ (armed len true)
        [.walking none none, .round, .running]).run 4 =
      .unfinished (machine runs ⟨0, 0, 0, 0, trace ++ #[Event.logged .running]⟩ (armed len true)
        [.locked (.adopt (some 0) 0), .round, .running]) := rfl
  have adopted :
      (machine runs ⟨0, 0, 0, 0, trace ++ #[Event.logged .running]⟩ (armed len true)
        [.locked (.adopt (some 0) 0), .round, .running]).run 2 =
      .unfinished (machine runs ⟨0, 0, 0, 0, trace ++ #[Event.logged .running]⟩ (holding len 0 .active .active false)
        [.deadline (some (Interval.remaining ⟨0, len⟩ 0)), .running]) := rfl
  rw [remaining_start pos] at adopted
  refine Machine.run_trans (k := 9) (look_early pos) ?_ rfl
  refine Machine.run_trans (k := 5) scanned ?_ rfl
  refine Machine.run_trans (k := 3) adopted ?_ rfl
  exact sleep_on pos (by omega)

theorem countRuns_append (old new : List Event) : countRuns (old ++ new) = countRuns old + countRuns new :=
  List.countP_append

/-- With `more` turns to go before the last one, the run ends after all of them, and the handler runs once in each. -/
theorem turns (pos : 0 < len) (more : Nat) :
    ∀ (calls : Nat) (start : UInt32) (trace : Array Event), calls + more + 1 = max 1 runs →
      ∃ g : Stage, ∃ since : Array Event, g.trace = trace ++ since ∧ countRuns since.toList = more + 1 ∧
        (machine runs ⟨start + len, calls, calls, calls + 1, trace⟩ (holding len start .active .active false)
          [.running]).run (23 * more + 34) = .answered .done (machine runs g (idle 1 .stopped) []).world := by
  induction more with
  | zero =>
    intro calls start trace left
    exact ⟨_, dispatched (start + len) ++ closing, rfl, rfl, turn_last pos (by omega) (by omega)⟩
  | succ more ih =>
    intro calls start trace left
    obtain ⟨g, since, happened, ran, finish⟩ := ih (calls + 1) (start + len)
      (trace ++ (dispatched (start + len) ++ #[Event.slept 0 len])) (by omega)
    refine ⟨g, dispatched (start + len) ++ #[Event.slept 0 len] ++ since, by rw [happened, Array.append_assoc], ?_,
      Machine.run_trans (turn_quiet pos (by omega)) finish (by omega)⟩
    have once : countRuns (dispatched (start + len) ++ #[Event.slept 0 len]).toList = 1 := rfl
    rw [Array.toList_append, countRuns_append, once, ran]
    omega

/-! ## The whole script -/

/-- What a report leaves out are messages to the log only. -/
theorem countRuns_shown (ms : UInt32) (runs : Nat) (events : List Event) :
    countRuns (events.filter (script ms runs).shows) = countRuns events := by
  simp only [countRuns, List.countP_filter]
  congr 1
  funext e
  cases e <;> rfl

/-- The report of an operation, in which the one scheduler says its run state. -/
theorem report_eq (ms : UInt32) (before : World) (a : Answer) {σ : Scheduler} {s : Snapshot}
    (shown : (Device.mk ⟨false, g.now, [], [], []⟩ σ).snapshot = .ok s) :
    (script ms runs).report before (machine runs g σ []).world a =
      .ok ⟨a, (g.trace.toList.drop before.trace.size).filter (script ms runs).shows, [s]⟩ := by
  simp [Script.report, machine, shown, bind, Except.bind, pure, Except.pure]

/-- The world before the run: a session began, and the task of the script was started in it. -/
def prepared (ms : UInt32) (runs : Nat) : World :=
  (machine runs ⟨0, 0, 0, 0, opened⟩ (armed (Interval.clamp ms true) false) []).world

/-- The first operations of the script succeed, and no handler runs in them. -/
theorem prepare (ms : UInt32) (runs : Nat) {fuel : Nat} (enough : 6 ≤ fuel) {rest : List Op} {rs : List Report}
    (others : (script ms runs).runFrom fuel (prepared ms runs) rest = .ok rs) :
    ∃ r₁ r₂ r₃ r₄ : Report, r₁.answer = .done ∧ countRuns ([r₁, r₂, r₃, r₄].flatMap (·.events)) = 0 ∧
      (script ms runs).runFrom fuel (script ms runs).setup.world
        (Op.init :: .declare :: .configure (.slot 0) 0 ms true :: .start (.slot 0) :: rest) =
        .ok (r₁ :: r₂ :: r₃ :: r₄ :: rs) := by
  have told :
      (Machine.call (script ms runs).setup.world 0 .init).run 4 =
      .unfinished (machine runs ⟨0, 0, 0, 0, #[.opened 0]⟩ (idle 0 .stopped) [.locked .beginSession]) := rfl
  have begun :
      (machine runs ⟨0, 0, 0, 0, #[.opened 0]⟩ (idle 0 .stopped) [.locked .beginSession]).run 2 =
      .answered .done (machine runs ⟨0, 0, 0, 0, opened⟩ (idle 0 .active) []).world := rfl
  have handed_out :
      (Machine.call (machine runs ⟨0, 0, 0, 0, opened⟩ (idle 0 .active) []).world 0 .declare).run 4 =
      .answered (.slot (some ⟨0⟩)) (machine runs ⟨0, 0, 0, 0, opened⟩ (idle 1 .active) []).world := rfl
  have configured :
      (Machine.call (machine runs ⟨0, 0, 0, 0, opened⟩ (idle 1 .active) []).world 0
        (.configure (.slot 0) 0 ms true)).run 4 =
      .answered .done (machine runs ⟨0, 0, 0, 0, opened⟩
        { holding (Interval.clamp ms true) 0 .stopped .active false with cache := .empty } []).world := rfl
  have started :
      (Machine.call (machine runs ⟨0, 0, 0, 0, opened⟩
        { holding (Interval.clamp ms true) 0 .stopped .active false with cache := .empty } []).world 0
        (.start (.slot 0))).run 6 =
      .answered .done (prepared ms runs) := rfl
  refine ⟨_, _, _, _, ?_, ?_, Script.runFrom_cons (Machine.run_trans told begun rfl) enough (report_eq ms _ _ rfl)
    (Script.runFrom_cons handed_out (by omega) (report_eq ms _ _ rfl) (Script.runFrom_cons configured (by omega)
      (report_eq ms _ _ rfl) (Script.runFrom_cons started enough (report_eq ms _ _ rfl) others)))⟩
  · rfl
  · rfl

/-- On a host the handler runs as often as it was asked to, and at least once; then the session is over. Each of its
runs takes 23 steps, and all the rest of the run another 27. -/
theorem find_eq {fuel : Nat} {ms : UInt32} {runs : Nat} (enough : 23 * max 1 runs + 27 ≤ fuel) :
    find fuel ms runs = .ok ⟨true, ms, .done, .done, max 1 runs, .stopped⟩ := by
  have pos := clamp_pos ms
  obtain ⟨g, since, happened, ran, finish⟩ := turns pos (max 1 runs - 1) 0 0
    (opened ++ #[Event.logged .running] ++ #[.slept 0 (Interval.clamp ms true)])
    (show 0 + (max 1 runs - 1) + 1 = max 1 runs by omega)
  obtain ⟨s, shown, stopped⟩ :
      ∃ s, (Device.mk ⟨false, g.now, [], [], []⟩ (idle 1 .stopped)).snapshot = .ok s ∧
        s.scheduler.runState = .stopped := ⟨_, rfl, rfl⟩
  have ended : (script ms runs).runFrom fuel (prepared ms runs) [.run] =
      .ok [⟨.done, (g.trace.toList.drop 2).filter (script ms runs).shows, [s]⟩] :=
    Script.runFrom_cons (Machine.run_trans (turn_first pos) finish rfl) (by omega) (report_eq ms _ _ shown) rfl
  obtain ⟨r₁, r₂, r₃, r₄, done, quiet, reports⟩ := prepare ms runs (by omega) ended
  have waited : ms ≤ (Board.slept ⟨false, 0, [], [], []⟩ ms).clock := by simp [Board.slept, min]
  have all_runs : countRuns ((g.trace.toList.drop 2).filter (script ms runs).shows) = max 1 runs := by
    have happened_since : g.trace.toList.drop 2 =
        [Event.logged .running, .slept 0 (Interval.clamp ms true)] ++ since.toList := by simp [happened, opened]
    have none_before : countRuns [Event.logged .running, .slept 0 (Interval.clamp ms true)] = 0 := rfl
    rw [countRuns_shown, happened_since, countRuns_append, none_before, ran]
    omega
  have total : countRuns ([r₁, r₂, r₃, r₄].flatMap (·.events) ++
      (g.trace.toList.drop 2).filter (script ms runs).shows) = max 1 runs := by
    rw [countRuns_append, quiet, all_runs, Nat.zero_add]
  have told : (script ms runs).run fuel =
      .ok [r₁, r₂, r₃, r₄, ⟨.done, (g.trace.toList.drop 2).filter (script ms runs).shows, [s]⟩] := reports
  simp only [find, told, bind, Except.bind, List.head?_cons]
  simpa [done, stopped, waited] using total

end HostedRow

end TimedTasks
