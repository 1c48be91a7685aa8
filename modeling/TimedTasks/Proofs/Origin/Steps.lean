import TimedTasks.Proofs.Origin.Calls
import TimedTasks.Proofs.Sound

/-!
# Steps on other clocks

What becomes of a clock reading, what is done under the lock and what single frames do is the same on clocks that are
ahead. `World.step_shift` puts the cases together, and `Machine.step_shift` says it of a whole machine: the tally after
the step belongs to the machine after it. The tally has to be right about the slots whose intervals the step compares
(`Tally.Ready`).
-/

namespace TimedTasks

open Except (map_ok)

variable {k : UInt32} {T : Tally} {d i n : Nat} {w : World} {δ : Device}

/-- The slot whose interval is compared with others, whether it is armed or not. -/
def Act.compares : Act → Option Nat
  | .locked (.noteArmed i _) => some i
  | .locked (.adopt best _) => best
  | _ => none

namespace Tally

/-- The slots that an act of device `d` compares were started. -/
structure Ready (T : Tally) (d : Nat) (σ : Scheduler) (act : Act) : Prop where
  armed : ∀ i, (σ.life i).state.armed → T.started d i
  compared : ∀ i, act.compares = some i → T.started d i

/-- A slot that was started is on the clock of its board. -/
theorem offset_of_started (h : T.started d i) : T.offset k d i = k := by simp [offset, ahead, h]

/-- What an act compares was started, since armed slots are. -/
theorem Ready.dated {σ : Scheduler} {act : Act} (h : T.Ready d σ act) : σ.arena.Dated (T.offset k d) k :=
  fun i armed => offset_of_started (h.armed i armed)

/-- A stamp changes the tally of its device only. -/
theorem beside_stamped : T.Beside (T.stamped d i) d := ⟨fun _ other => Function.update_of_ne other _ _, rfl⟩

/-- So does a reset. -/
theorem beside_reset {l : List Nat} : T.Beside (T.reset d l) d := ⟨fun _ other => Function.update_of_ne other _ _, rfl⟩

/-- A stamp puts its slot on the clock of the board. -/
theorem offset_stamped : (T.stamped d i).offset k d i = k := offset_of_started (by simp [stamped])

theorem offset_stamped_ne {j : Nat} (other : j ≠ i) : (T.stamped d i).offset k d j = T.offset k d j := by
  simp [offset, stamped, other]

/-- A reset leaves its slots with no reading of a clock. -/
theorem offset_reset {l : List Nat} (j : Nat) :
    (T.reset d l).offset k d j = if j ∈ l then 0 else T.offset k d j := by
  by_cases m : j ∈ l <;> simp [offset, ahead, reset, m]

/-- The acts that take tasks out of the queue reset their slots. -/
theorem offset_after_reset {σ : Scheduler} (act : Act) (resets : act.resets) (l : List Nat) (queued : σ.queued = .ok l)
    (j : Nat) : (T.after σ d n act).offset k d j = if j ∈ l then 0 else T.offset k d j := by
  cases act with
  | locked s => cases s <;> first | (simp only [after, queued]; exact offset_reset j) | cases resets
  | _ => cases resets

/-- The two ends of a session change the tally of their device only. -/
theorem beside_after_reset {σ : Scheduler} (act : Act) (resets : act.resets) : T.Beside (T.after σ d n act) d := by
  cases act with
  | locked s =>
    cases s <;> first | cases resets; done | skip
    all_goals
      simp only [after]
      cases σ.queued with
      | error e => exact .refl T d
      | ok l => exact beside_reset
  | _ => cases resets

end Tally

namespace TaskRow

variable {row : TaskRow} {u : Bool}

/-- The age of a slot that was not started depends on where the clock began. -/
theorem elapsed_shift {timing : Interval} {now : UInt32} :
    { row with elapsed := (timing.shift (ahead k u)).elapsed (now + k) } =
      TaskRow.shift k u { row with elapsed := timing.elapsed now } := by
  cases u with
  | true => simp [ahead, shift, Interval.elapsed_add]
  | false => simp [ahead, shift]

theorem remaining_shift {left : UInt32} :
    { row.shift k u with remaining := left } = TaskRow.shift k u { row with remaining := left } := by
  cases u <;> rfl

theorem expired_shift {b : Bool} :
    { row.shift k u with expired := b } = TaskRow.shift k u { row with expired := b } := by
  cases u <;> rfl

end TaskRow

namespace World

/-! ## Rounds -/

/-- A task is dispatched if it still waits, on whatever clock. -/
theorem dispatch_shift :
    (w.shift k T).dispatch d (δ.shift k (T.offset k d)) i = (·.shift k T n) <$> w.dispatch d δ i := by
  unfold dispatch
  show ((δ.scheduler.arena.shift (T.offset k d)).slot i >>= _) = _
  rw [Arena.slot_shift]
  refine bind_of_map fun t _ => ?_
  simp only [Task.state_shift, Task.repeats_shift]
  by_cases active : t.state = .active
  · by_cases repeats : t.repeats = true
    · simp only [active, repeats, if_true, map_ok, calling_shift (.refl T d)]
      rfl
    · simp only [active, repeats, Bool.false_eq_true, if_true, if_false]
      show ((δ.scheduler.shift (T.offset k d)).alter i _ >>= _) = _
      rw [Scheduler.alter_shift_same (f := fun t => { t with state := .stopping }) fun t c => rfl]
      refine bind_of_map fun σ _ => ?_
      simp only [map_ok, calling_shift (.refl T d)]
      rfl
  · simp only [active, if_false, map_ok, leaving_shift (.refl T d)]
    rfl

/-- What a round does with the task of its cache is settled by the time that is left. -/
theorem resumeCached_shift {left : UInt32} :
    (w.shift k T).resumeCached d (δ.shift k (T.offset k d)) i left = (w.resumeCached d δ i left).shift k T n := by
  unfold resumeCached
  show (if 0 < left then if δ.scheduler.cache.soonest = some i then _ else _ else _) = _
  by_cases early : 0 < left
  · by_cases same : δ.scheduler.cache.soonest = some i
    · simp only [early, same, if_true, leaving_shift (.refl T d)]
      rfl
    · simp only [early, same, if_true, if_false, leaving_shift (.refl T d)]
      rfl
  · simp only [early, if_false, leaving_shift (.refl T d)]
    rfl

/-- A start stamps its slot with the clock, whatever the slot bore before. -/
theorem stamp_shift {next : TaskState} {now : UInt32} {acts acts' : List Act}
    (same : acts' = shiftActs k T.asked n acts) :
    ((δ.shift k (T.offset k d)).scheduler.start i next (now + k) >>= fun σ =>
      (.ok ((w.shift k T).calling d ((δ.shift k (T.offset k d)).withScheduler σ) .lock acts') : Except Fault Move)) =
    (·.shift k (T.stamped d i) n) <$> (δ.scheduler.start i next now >>= fun σ =>
      .ok (w.calling d (δ.withScheduler σ) .lock acts)) := by
  show ((δ.scheduler.shift (T.offset k d)).start i next (now + k) >>= _) = _
  rw [Scheduler.start_shift (ψ := (T.stamped d i).offset k d) Tally.offset_stamped fun j => Tally.offset_stamped_ne]
  refine bind_of_map fun σ _ => ?_
  simp only [map_ok, calling_shift Tally.beside_stamped, same]
  rfl

/-! ## Readings of the clock -/

/-- What becomes of a reading that is `k` ahead is the shifted move, with the tally after the reading. -/
theorem resume_shift {r : Reading} {now : UInt32} (ready : T.Ready d δ.scheduler (.reading r)) :
    (w.shift k T).resume d (δ.shift k (T.offset k d)) (now + k) (r.shift k (T.asked n)) =
      (·.shift k (T.after δ.scheduler d n (.reading r)) n) <$> w.resume d δ now r := by
  cases r with
  | start i next => exact stamp_shift rfl
  | cached i timing =>
    show Except.ok (resumeCached _ _ _ i ((timing.shift k).remaining (now + k))) = _
    rw [Interval.remaining_shift]
    exact congrArg Except.ok resumeCached_shift
  | due i timing =>
    show Except.ok (leaving _ _ _ (if (timing.shift k).expired (now + k) then _ else _)) =
      (·.shift k T n) <$> Except.ok (w.leaving d δ _)
    rw [Interval.expired_shift, map_ok, leaving_shift (.refl T d)]
    cases timing.expired now <;> rfl
  | scan =>
    show ((δ.scheduler.shift (T.offset k d)).scan (now + k) >>= _) = Move.shift k T n <$> (_ >>= _)
    rw [Scheduler.scan_shift ready.dated]
    refine bind_of_same fun best _ => ?_
    simp only [map_ok, calling_shift (.refl T d)]
    rfl
  | renew i => exact stamp_shift rfl
  | elapsed i timing row =>
    show askRemaining _ _ _ i { row with elapsed := (timing.shift (ahead k (T.asked n))).elapsed (now + k) } = _
    rw [TaskRow.elapsed_shift]
    exact askRemaining_shift ready.dated
  | remaining i timing row =>
    show askExpired _ _ _ i { row.shift k (T.asked n) with remaining := (timing.shift k).remaining (now + k) } = _
    rw [Interval.remaining_shift, TaskRow.remaining_shift]
    exact askExpired_shift ready.dated
  | expired i timing row =>
    show Except.ok (answering _ _ _ (.query
        { row.shift k (T.asked n) with expired := (timing.shift k).expired (now + k) })) =
      (·.shift k T n) <$> Except.ok (w.answering d δ _)
    rw [Interval.expired_shift, TaskRow.expired_shift, map_ok, answering_shift (.refl T d)]
    rfl
  | info runState =>
    show ((δ.scheduler.shift (T.offset k d)).row runState (now + k) >>= _) = Move.shift k T n <$> (_ >>= _)
    rw [Scheduler.row_shift]
    refine bind_of_map fun row _ => ?_
    simp only [map_ok, answering_shift (.refl T d)]
    rfl

/-! ## Work under the lock -/

/-- A handler is called with the same bytes; its operations are the shifted ones. -/
theorem callHandler_shift :
    (w.shift k T).callHandler d (δ.shift k (T.offset k d)) i = (·.shift k T n) <$> w.callHandler d δ i := by
  unfold callHandler
  show ((δ.scheduler.arena.shift (T.offset k d)).slot i >>= _) = _
  rw [Arena.slot_shift]
  refine bind_of_map fun t _ => ?_
  simp only [Task.handler_shift, Task.payload_shift, ← log_shift]
  cases t.handler with
  | none =>
    simp only [map_ok, leaving_shift (.refl T d)]
    rfl
  | some j =>
    simp only
    show (t.payload.bytes w.pools >>= _) = _ <$> (t.payload.bytes w.pools >>= _)
    refine bind_of_same fun bytes _ => ?_
    have ran : ∀ w : World, (w.shift k T).emit (.ran d ⟨i⟩ j (δ.shift k (T.offset k d)).board.clock bytes) =
        (w.emit (.ran d ⟨i⟩ j δ.board.clock bytes)).shift k T := fun w =>
      (emit_shift (e := .ran d ⟨i⟩ j δ.board.clock bytes)).symm
    simp only [ran, invoke_shift, map_ok, leaving_shift (.refl T d)]
    rfl

/-- The board is told of the end of a session as here. -/
theorem closeSession_shift {T' : Tally} {tasks : Nat} (h : T.Beside T' d) :
    (w.shift k T).closeSession d (δ.shift k (T'.offset k d)) tasks = (w.closeSession d δ tasks).shift k T' n := by
  unfold closeSession
  rw [calling_shift h]
  by_cases serves : δ.board.serves .deinit = true
  · simp only [show (δ.shift k (T'.offset k d)).board = δ.board.shift k from rfl, Board.serves_shift, serves, if_true,
      emit_shift]
    rfl
  · simp only [show (δ.shift k (T'.offset k d)).board = δ.board.shift k from rfl, Board.serves_shift, serves]
    rfl

/-- A slot of a pool is taken, and wiped, as here. -/
theorem claim_shift {left : Nat} :
    (w.shift k T).claim d (δ.shift k (T.offset k d)) i left = (·.shift k T n) <$> w.claim d δ i left := by
  unfold claim
  show ((δ.scheduler.arena.shift (T.offset k d)).slot i >>= _) = _
  rw [Arena.slot_shift]
  refine bind_of_map fun t _ => ?_
  simp only [Task.allocated_shift]
  by_cases taken : t.allocated = true
  · simp only [taken, if_true, map_ok, leaving_shift (.refl T d)]
    rfl
  · simp only [taken, Bool.false_eq_true, if_false]
    show ((δ.scheduler.shift (T.offset k d)).alter i _ >>= _) = _
    rw [Scheduler.alter_shift_same (f := Task.handOut) fun t c => rfl]
    refine bind_of_map fun σ _ => ?_
    show (w.wiped t.payload >>= _) = _ <$> (w.wiped t.payload >>= _)
    refine bind_of_same fun ps _ => ?_
    simp only [map_ok, answering_shift (.refl T d)]
    rfl

/-- A pool without slots is bound to the same ones. -/
theorem enroll_shift {j : Nat} :
    (w.shift k T).enroll d (δ.shift k (T.offset k d)) j = (·.shift k T n) <$> w.enroll d δ j := by
  unfold enroll
  show (w.pools.pool j >>= fun p => (δ.scheduler.shift (T.offset k d)).enrollPool w.pools j >>= _) = _
  refine bind_of_same fun p _ => ?_
  simp only [Scheduler.enrollPool_shift]
  refine bind_of_map fun r _ => ?_
  cases r with
  | none =>
    simp only [map_ok, Option.map_none, answering_shift (.refl T d), log_shift]
    rfl
  | some found =>
    rcases found with ⟨first, σ, ps⟩
    simp only [map_ok, Option.map_some, Prod.map, leaving_shift (.refl T d)]
    rfl

/-- What is done under the lock is the shifted move, with the tally after the section. -/
theorem work_shift {s : Section} (ready : T.Ready d δ.scheduler (.locked s)) :
    (w.shift k T).work d (δ.shift k (T.offset k d)) (s.shift k) =
      (·.shift k (T.after δ.scheduler d n (.locked s)) n) <$> w.work d δ s := by
  cases s with
  | declare =>
    show work _ _ _ .declare = Move.shift k T n <$> _
    rw [work, work, show (δ.shift k (T.offset k d)).scheduler.takeSlots 1 = _ from Scheduler.takeSlots_shift]
    cases δ.scheduler.takeSlots 1 with
    | none =>
      simp only [Option.map_none, map_ok, answering_shift (.refl T d)]
      rfl
    | some found =>
      simp only [Option.map_some, map_ok, answering_shift (.refl T d)]
      rfl
  | configure i handler ms repeats =>
    show ((δ.scheduler.shift (T.offset k d)).configure i handler ms repeats >>= _) = Move.shift k T n <$> (_ >>= _)
    rw [Scheduler.configure_shift]
    refine bind_of_map fun r _ => ?_
    cases r <;> simp only [map_ok, Except.map, answering_shift (.refl T d)] <;> rfl
  | noteArmed i now =>
    show ((δ.scheduler.shift (T.offset k d)).noteArmed i (now + k) >>= _) = Move.shift k T n <$> (_ >>= _)
    rw [Scheduler.noteArmed_shift ready.dated (Tally.offset_of_started (ready.compared i rfl))]
    refine bind_of_map fun σ _ => ?_
    simp only [map_ok, answering_shift (.refl T d)]
    rfl
  | forget i =>
    show _ = Move.shift k T n <$> Except.ok _
    rw [map_ok, answering_shift (.refl T d)]
    rfl
  | attach i data =>
    show ((δ.scheduler.shift (T.offset k d)).attach w.pools i data >>= _) = Move.shift k T n <$> (_ >>= _)
    rw [Scheduler.attach_shift]
    refine bind_of_map fun r _ => ?_
    cases r <;> simp only [map_ok, Except.map, answering_shift (.refl T d)] <;> rfl
  | write i data =>
    show ((δ.scheduler.shift (T.offset k d)).write w.pools i data >>= _) = Move.shift k T n <$> (_ >>= _)
    rw [Scheduler.write_shift]
    refine bind_of_map fun r _ => ?_
    cases r <;> simp only [map_ok, Except.map, answering_shift (.refl T d)] <;> rfl
  | dataLength i row =>
    show ((δ.scheduler.arena.shift (T.offset k d)).slot i >>= _) = _ <$> (_ >>= _)
    rw [Arena.slot_shift]
    exact bind_of_map fun t _ =>
      askElapsed_shift (T := T.after δ.scheduler d n (.locked (.dataLength i row))) ready.dated
        (Function.update_self _ _ _)
  | beginSession =>
    show ((δ.scheduler.shift (T.offset k d)).beginSession >>= _) = _ <$> (_ >>= _)
    rw [Scheduler.beginSession_shift (ψ := (T.after δ.scheduler d n (.locked .beginSession)).offset k d)
      (Tally.offset_after_reset (.locked .beginSession) rfl)]
    refine bind_of_map fun σ _ => ?_
    have room : (σ.shift ((T.after δ.scheduler d n (.locked .beginSession)).offset k d)).arena.size = σ.arena.size :=
      Arena.size_shift
    simp only [Scheduler.capacity, room, map_ok,
      answering_shift (Tally.beside_after_reset (.locked .beginSession) rfl), log_shift]
    rfl
  | shutdown =>
    show Except.ok (answering _ _
        ((δ.shift k (T.offset k d)).withScheduler (δ.scheduler.shift (T.offset k d)).shutdown) _) =
      Move.shift k T n <$> Except.ok _
    rw [Scheduler.shutdown_shift, map_ok, answering_shift (.refl T d)]
    rfl
  | adopt best now =>
    show ((δ.scheduler.shift (T.offset k d)).adopt best (now + k) >>= _) = Move.shift k T n <$> (_ >>= _)
    have dated : ∀ i, best = some i → T.offset k d i = k := fun i same => Tally.offset_of_started (ready.compared i same)
    rw [Scheduler.adopt_shift ready.dated dated]
    refine bind_of_map fun adopted _ => ?_
    simp only [map_ok, Prod.map, leaving_shift (.refl T d)]
    rfl
  | fetch i => exact callHandler_shift
  | endSession =>
    show ((δ.scheduler.shift (T.offset k d)).endSession >>= _) = _ <$> (_ >>= _)
    rw [Scheduler.endSession_shift (ψ := (T.after δ.scheduler d n (.locked .endSession)).offset k d)
      (Tally.offset_after_reset (.locked .endSession) rfl)]
    exact bind_of_map fun ended _ => congrArg Except.ok
      (closeSession_shift (δ := δ.withScheduler ended.2) (Tally.beside_after_reset (.locked .endSession) rfl))
  | sessionOver tasks =>
    show _ = Move.shift k T n <$> Except.ok _
    rw [map_ok, answering_shift (.refl T d), log_shift]
    rfl
  | enroll j => exact enroll_shift
  | claim i left => exact claim_shift

/-! ## Single frames -/

/-- A run sleeps as long. -/
theorem sleep_shift {ms : UInt32} :
    (w.shift k T).sleep d (δ.shift k (T.offset k d)) ms = (w.sleep d δ ms).shift k T n := by
  unfold sleep
  show (if δ.board.serves .sleep = true then _ else _) = _
  by_cases serves : δ.board.serves .sleep = true
  · simp only [serves, if_true, calling_shift (.refl T d), emit_shift]
    rfl
  · simp only [serves, Bool.false_eq_true, if_false, leaving_shift (.refl T d)]
    rfl

/-- A sleep ends as here, with a shutdown when there were too many. -/
theorem wake_shift {ms : UInt32} :
    (w.shift k T).wake d (δ.shift k (T.offset k d)) ms = (w.wake d δ ms).shift k T n := by
  unfold wake
  dsimp only
  rw [leaving_shift (.refl T d)]
  show leaving _ d ((δ.shift k (T.offset k d)).withBoard ((δ.board.shift k).slept ms))
    (if w.limit ≤ w.sleeps + 1 then _ else _) = _
  rw [Board.slept_shift]
  split <;> rfl

/-- So does a handler. -/
theorem countRun_shift : (w.shift k T).countRun d (δ.shift k (T.offset k d)) = (w.countRun d δ).shift k T n := by
  unfold countRun
  dsimp only
  show (if w.limit ≤ w.runs + 1 then _ else _) = Move.shift k T n (if w.limit ≤ w.runs + 1 then _ else _)
  split
  · rw [calling_shift (.refl T d)]
    rfl
  · rw [leaving_shift (.refl T d)]
    rfl

/-- The loop of a run goes on or ends by the run state. -/
theorem loop_shift : (w.shift k T).loop d (δ.shift k (T.offset k d)) = (w.loop d δ).shift k T n := by
  unfold loop
  show (if δ.scheduler.runState = .active then _ else _) = _
  by_cases active : δ.scheduler.runState = .active
  · simp only [active, if_true]
    exact beginRound_shift fun _ => rfl
  · simp only [active, if_false, calling_shift (.refl T d)]
    rfl

/-- A round begins with the same task of the cache, whose stamp is ahead as the clock is. -/
theorem checkCache_shift (h : δ.scheduler.arena.Dated (T.offset k d) k) :
    (w.shift k T).checkCache d (δ.shift k (T.offset k d)) = (·.shift k T n) <$> w.checkCache d δ := by
  have cache : (δ.shift k (T.offset k d)).scheduler.cache = δ.scheduler.cache := rfl
  unfold checkCache
  rw [cache]
  cases δ.scheduler.cache.soonest with
  | none =>
    simp only [map_ok, leaving_shift (.refl T d)]
    rfl
  | some i =>
    show ((δ.scheduler.arena.shift (T.offset k d)).slot i >>= _) = _ <$> (_ >>= _)
    rw [Arena.slot_shift]
    refine bind_of_map fun t found => ?_
    by_cases active : t.state = .active
    · simp only [map_ok, Task.state_shift, active, if_true, Task.timing_shift,
        h.slot found (by rw [active]; rfl), calling_shift (.refl T d)]
      rfl
    · simp only [map_ok, Task.state_shift, active, if_false, leaving_shift (.refl T d)]
      rfl

/-- A step along the queue looks at the same slot. -/
theorem walk_shift {skip cursor : Option Nat} (h : δ.scheduler.arena.Dated (T.offset k d) k) :
    (w.shift k T).walk d (δ.shift k (T.offset k d)) skip cursor = (·.shift k T n) <$> w.walk d δ skip cursor := by
  cases cursor with
  | none =>
    rw [walk, walk, map_ok, calling_shift (.refl T d)]
    rfl
  | some i =>
    show ((δ.scheduler.arena.shift (T.offset k d)).slot i >>= _) = _ <$> (_ >>= _)
    rw [Arena.slot_shift]
    refine bind_of_map fun t found => ?_
    show (if skip ≠ some i ∧ t.state = .active then _ else _) =
      _ <$> (if skip ≠ some i ∧ t.state = .active then _ else _)
    by_cases look : skip ≠ some i ∧ t.state = .active
    · have started : T.offset k d i = k := h.slot found (by rw [look.2]; rfl)
      rw [if_pos look, if_pos look, map_ok, calling_shift (.refl T d), Task.timing_shift, started]
      rfl
    · rw [if_neg look, if_neg look, map_ok, leaving_shift (.refl T d)]
      rfl

/-- A frame does the same on clocks that are ahead. -/
theorem step_shift {act : Act} (ready : T.Ready d δ.scheduler act) :
    (w.shift k T).step d (δ.shift k (T.offset k d)) (act.shift k (T.asked n)) =
      (·.shift k (T.after δ.scheduler d n act) n) <$> w.step d δ act := by
  have leaves : ∀ acts : List Act,
      (.ok ((w.shift k T).leaving d (δ.shift k (T.offset k d)) (shiftActs k T.asked n acts)) : Except Fault Move) =
        Move.shift k T n <$> .ok (w.leaving d δ acts) := fun acts => by rw [map_ok, leaving_shift (.refl T d)]
  have locks : ∀ s : Section,
      (.ok ((w.shift k T).calling d (δ.shift k (T.offset k d)) .lock [.locked (s.shift k)]) : Except Fault Move) =
        Move.shift k T n <$> .ok (w.calling d δ .lock [.locked s]) := fun s => by
    rw [map_ok, calling_shift (.refl T d)]
    rfl
  cases act with
  | perform self op =>
    exact perform_shift (T := T.after δ.scheduler d n (.perform self op)) (Function.update_self _ _ _)
  | block self ops =>
    cases ops with
    | nil => exact leaves []
    | cons op ops =>
      show Except.ok (leaving _ _ _ [.perform self (op.shift k), .report (op.shift k).name,
        .block self (ops.map (Op.shift k))]) = _
      rw [Op.name_shift]
      exact leaves [.perform self op, .report op.name, .block self ops]
  | interrupts call bodies =>
    cases bodies with
    | nil => exact leaves []
    | cons body rest =>
      show _ = Move.shift k T n <$> Except.ok _
      rw [map_ok, leaving_shift (.refl T d), emit_shift]
      rfl
  | reading r =>
    show (w.shift k T).resume d ((δ.shift k (T.offset k d)).withBoard (δ.board.shift k).readClock.2)
      (δ.board.shift k).readClock.1 _ = _
    rw [Board.readClock_shift]
    exact resume_shift (δ := δ.withBoard δ.board.readClock.2) ready
  | locked s => exact work_shift ready
  | opening => exact locks .beginSession
  | closing tasks => exact locks (.sessionOver tasks)
  | sleeping ms => exact congrArg Except.ok wake_shift
  | running => exact congrArg Except.ok loop_shift
  | checkCache => exact checkCache_shift ready.dated
  | survey skip => exact leaves [.walking skip δ.scheduler.queue.head]
  | walking skip cursor => exact walk_shift ready.dated
  | dispatch i => exact dispatch_shift
  | handling i j p => exact congrArg Except.ok countRun_shift
  | settle i =>
    show ((δ.scheduler.shift (T.offset k d)).alter i Task.settle >>= _) = Move.shift k T n <$> (_ >>= _)
    rw [Scheduler.alter_shift_same fun t c => Task.settle_shift]
    refine bind_of_map fun σ _ => ?_
    simp only [map_ok, leaving_shift (.refl T d)]
    rfl
  | claiming i left => exact congrArg Except.ok claiming_shift
  | report op => rfl
  | discard => rfl
  | ticking => rfl
  | round => rfl
  | answered a => rfl
  | deadline ms => rfl

/-! ## Results -/

/-- An answer that is recorded carries over what it is about. -/
theorem takeAnswer_shift {a : Answer} {act : Act} {u v : Bool} :
    (w.shift k T).takeAnswer d (δ.shift k (T.offset k d)) (a.shift k u) (act.shift k v) =
      (·.shift k (T.heard w.trace.size u act) n) <$> w.takeAnswer d δ a act := by
  cases act with
  | report op =>
    show Except.ok (((w.shift k T).emit (Event.shift k u (.performed op a))).leaving d _ []) =
      Move.shift k _ n <$> Except.ok _
    rw [← record_shift, map_ok, leaving_shift (.refl _ d)]
    rfl
  | discard =>
    show _ = Move.shift k T n <$> Except.ok _
    rw [map_ok, leaving_shift (.refl T d)]
    rfl
  | _ => rfl

/-- The deadline of a round is a number of milliseconds, which is the same on every clock. -/
theorem takeDeadline_shift {ms : Option UInt32} {act : Act} {u : Bool} :
    (w.shift k T).takeDeadline d (δ.shift k (T.offset k d)) ms (act.shift k u) =
      (·.shift k T n) <$> w.takeDeadline d δ ms act := by
  cases act with
  | round =>
    show _ = Move.shift k T n <$> Except.ok _
    rw [map_ok, leaving_shift (.refl T d)]
    rfl
  | ticking =>
    show _ = Move.shift k T n <$> Except.ok _
    rw [map_ok, answering_shift (.refl T d)]
    rfl
  | running =>
    show (if δ.scheduler.runState = .active ∧ ms.getD Interval.longest ≠ 0 then _ else _) =
      _ <$> (if δ.scheduler.runState = .active ∧ ms.getD Interval.longest ≠ 0 then _ else _)
    split
    · exact congrArg Except.ok sleep_shift
    · rw [map_ok, leaving_shift (.refl T d)]
      rfl
  | _ => rfl

end World

/-! ## Machines -/

/-- A stack is shifted by what the tally says of its own heights. -/
theorem shiftStack_congr {asked asked' : Nat → Bool} {stack : List Frame}
    (same : ∀ j < stack.length, asked' j = asked j) : shiftStack k asked' stack = shiftStack k asked stack := by
  induction stack with
  | nil => rfl
  | cons f rest ih =>
    rw [shiftStack, shiftStack, same _ (by simp), ih fun j below => same j (Nat.lt_succ_of_lt below)]

namespace Tally

/-- The tally is right about all slots that can be compared: the armed ones, and those that frames will compare. -/
structure Fits (T : Tally) (m : Machine) : Prop where
  armed : ∀ d δ, m.world.devices[d]? = some δ → ∀ i, (δ.scheduler.life i).state.armed → T.started d i
  compared : ∀ f ∈ m.stack, ∀ i, f.act.compares = some i → T.started f.device i

/-- A tally that fits a machine is right about what the act on top compares. -/
theorem Fits.ready {m : Machine} {act : Act} {rest : List Frame} (h : T.Fits m) (top : m.stack = ⟨d, act⟩ :: rest)
    (found : m.world.devices[d]? = some δ) : T.Ready d δ.scheduler act :=
  ⟨h.armed d δ found, h.compared ⟨d, act⟩ (by rw [top]; exact List.mem_cons_self)⟩

/-- What a frame does is known of no frame below it. -/
theorem asked_after {σ : Scheduler} {act : Act} {j : Nat} (below : j < n) : (T.after σ d n act).asked j = T.asked j := by
  have other : j ≠ n := Nat.ne_of_lt below
  cases act with
  | perform => exact Function.update_of_ne other _ _
  | reading r => cases r <;> rfl
  | locked s =>
    cases s with
    | dataLength => exact Function.update_of_ne other _ _
    | beginSession | endSession => simp only [after]; cases σ.queued <;> rfl
    | _ => rfl
  | _ => rfl

theorem asked_heard {u : Bool} {act : Act} : (T.heard n u act).asked = T.asked := by
  cases act <;> rfl

end Tally

namespace Machine

/-- The shifted move on the shifted rest of a stack is the shifted machine. -/
theorem onto_shift {T' : Tally} {rest : List Frame} {x : Except Fault Move}
    (below : ∀ j < rest.length, T'.asked j = T.asked j) :
    onto (shiftStack k T.asked rest) ((·.shift k T' rest.length) <$> x) = (onto rest x).shift k T' := by
  cases x with
  | error f => rfl
  | ok move =>
    show Outcome.next ⟨_, _⟩ = Outcome.next ⟨_, _⟩
    rw [shiftStack_append, shiftStack_congr below]
    rfl

/-- A step of the act on top leads the shifted machine to the shifted one. -/
theorem works_shift {m : Machine} {act : Act} {rest : List Frame} (fits : T.Fits m) (top : m.stack = ⟨d, act⟩ :: rest) :
    onto (shiftStack k T.asked rest)
        ((m.world.shift k T).device d >>= fun δ => (m.world.shift k T).step d δ (act.shift k (T.asked rest.length))) =
      (onto rest (m.world.device d >>= fun δ => m.world.step d δ act)).shift k
        (match m.world.devices[d]? with
          | some δ => T.after δ.scheduler d rest.length act
          | none => T) := by
  rw [World.device_shift, World.device]
  cases found : m.world.devices[d]? with
  | none => rfl
  | some δ =>
    simp only [map_ok, ok_bind, World.step_shift (fits.ready top found)]
    exact onto_shift fun j => Tally.asked_after

/-- A machine does the same on clocks that are ahead. -/
theorem step_shift {m : Machine} (fits : T.Fits m) : (m.shift k T).step = m.step.shift k (m.tally T) := by
  rcases m with ⟨w, stack⟩
  match stack with
  | [] => rfl
  | ⟨d, act⟩ :: rest =>
    -- An answer, or the word of a round, goes to the frame below, on the device of that frame.
    cases act with
    | answered a =>
      match rest with
      | [] => rfl
      | ⟨e, act⟩ :: rest =>
        show onto (shiftStack k T.asked rest)
          ((w.shift k T).device e >>= fun δ => (w.shift k T).takeAnswer e δ (a.shift k (T.asked (rest.length + 1)))
            (act.shift k (T.asked rest.length))) =
          Outcome.shift k (T.heard w.trace.size (T.asked (rest.length + 1)) act) (onto rest (w.device e >>= _))
        rw [World.device_shift]
        cases w.device e with
        | error f => rfl
        | ok δ =>
          simp only [map_ok, ok_bind]
          rw [World.takeAnswer_shift (n := rest.length)]
          exact onto_shift fun j _ => by rw [Tally.asked_heard]
    | deadline ms =>
      match rest with
      | [] =>
        show onto [] ((w.shift k T).device d >>= _) = Outcome.shift k T (onto [] (w.device d >>= _))
        rw [World.device_shift]
        cases w.device d <;> rfl
      | ⟨e, act⟩ :: rest =>
        show onto (shiftStack k T.asked rest)
          ((w.shift k T).device e >>= fun δ => (w.shift k T).takeDeadline e δ ms (act.shift k (T.asked rest.length))) =
          Outcome.shift k T (onto rest (w.device e >>= _))
        rw [World.device_shift]
        cases w.device e with
        | error f => rfl
        | ok δ =>
          simp only [map_ok, ok_bind]
          rw [World.takeDeadline_shift (n := rest.length)]
          exact onto_shift fun j _ => rfl
    | _ => exact works_shift fits rfl

end Machine

end TimedTasks
