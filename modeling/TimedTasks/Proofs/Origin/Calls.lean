import TimedTasks.Proofs.Origin.Moves

/-!
# Operations on other clocks

What an operation does before its first point of interruption is the same on clocks that are ahead
(`World.perform_shift`). Only the queries about a task look at intervals there, to find the time that an armed task has
left, so they need to know that armed slots were started.
-/

namespace TimedTasks

open Except (map_ok)

variable {k : UInt32} {T : Tally} {d i n : Nat} {w : World} {δ : Device}

namespace World

/-! ## Queries about a task -/

/-- Whether a waiting task is due is asked at a reading that is ahead as its stamp is; of any other the clock is not
asked. -/
theorem askExpired_shift {row : TaskRow} (h : δ.scheduler.arena.Dated (T.offset k d) k) :
    (w.shift k T).askExpired d (δ.shift k (T.offset k d)) i (row.shift k (T.asked n)) =
      (·.shift k T n) <$> w.askExpired d δ i row := by
  unfold askExpired
  show ((δ.scheduler.shift (T.offset k d)).lookup i >>= _) = _
  rw [Scheduler.lookup_shift]
  refine bind_of_map fun r found => ?_
  cases r with
  | none =>
    simp only [map_ok, Option.map_none, answering_shift (.refl T d)]
    rfl
  | some t =>
    by_cases active : t.state = .active
    · have here : T.offset k d i = k := h.slot (Scheduler.lookup_eq_ok_some found).2 (by rw [active]; rfl)
      simp only [map_ok, Option.map_some, Task.state_shift, active, if_true, Task.timing_shift, here,
        calling_shift (.refl T d), shiftActs, List.length_nil, Nat.zero_add]
      rfl
    · simp only [map_ok, Option.map_some, Task.state_shift, active, if_false, answering_shift (.refl T d)]
      rfl

/-- The time that an armed task has left is the same, since its stamp is ahead by as much as the clock. -/
theorem askRemaining_shift {row : TaskRow} (h : δ.scheduler.arena.Dated (T.offset k d) k) :
    (w.shift k T).askRemaining d (δ.shift k (T.offset k d)) i (row.shift k (T.asked n)) =
      (·.shift k T n) <$> w.askRemaining d δ i row := by
  unfold askRemaining
  show ((δ.scheduler.shift (T.offset k d)).lookup i >>= _) = _
  rw [Scheduler.lookup_shift]
  refine bind_of_map fun r found => ?_
  cases r with
  | none =>
    simp only [Option.map_none]
    exact askExpired_shift h
  | some t =>
    by_cases armed : t.state.armed = true
    · have here : T.offset k d i = k := h.slot (Scheduler.lookup_eq_ok_some found).2 armed
      simp only [map_ok, Option.map_some, Task.state_shift, armed, if_true, Task.timing_shift, here,
        calling_shift (.refl T d), shiftActs, List.length_nil, Nat.zero_add]
      rfl
    · simp only [Option.map_some, Task.state_shift, armed]
      exact askExpired_shift h

/-- The first question about a task, at which it is decided whether its age tells where the clock began. -/
theorem askElapsed_shift {row : TaskRow} (h : δ.scheduler.arena.Dated (T.offset k d) k)
    (asked : T.asked n = T.unstarted δ.scheduler d i) :
    (w.shift k T).askElapsed d (δ.shift k (T.offset k d)) i row = (·.shift k T n) <$> w.askElapsed d δ i row := by
  unfold askElapsed
  show ((δ.scheduler.shift (T.offset k d)).lookup i >>= _) = _
  rw [Scheduler.lookup_shift]
  unfold Tally.unstarted at asked
  refine bind_of_map fun r found => ?_
  rw [found] at asked
  have same : T.asked n = false → row.shift k (T.asked n) = row := fun e => by rw [e]; rfl
  cases r with
  | none =>
    simp only [Option.map_none]
    have later : _ = (·.shift k T n) <$> w.askRemaining d δ i row := askRemaining_shift h
    rwa [same asked] at later
  | some t =>
    by_cases fresh : t.state = .uninit
    · simp only [Option.map_some, Task.state_shift, fresh, if_true]
      have later : _ = (·.shift k T n) <$> w.askRemaining d δ i row := askRemaining_shift h
      rwa [same (by rw [asked]; simp [fresh])] at later
    · have here : T.offset k d i = ahead k (T.asked n) := by simp [Tally.offset, asked, fresh]
      simp only [map_ok, Option.map_some, Task.state_shift, fresh, if_false, Task.timing_shift, here,
        calling_shift (.refl T d), shiftActs, List.length_nil, Nat.zero_add]
      rfl

/-- What is said of a task without the clock does not tell how far ahead it is. -/
theorem untimed_shift {found : Option Task} {φ : UInt32} :
    TaskRow.untimed (found.map (·.shift φ)) = TaskRow.untimed found := by
  cases found <;> rfl

/-- A query takes the same lock, and asks about the same slot. -/
theorem query_shift (asked : T.asked n = false) :
    (w.shift k T).query d (δ.shift k (T.offset k d)) i = (·.shift k T n) <$> w.query d δ i := by
  unfold query
  show ((δ.scheduler.shift (T.offset k d)).lookup i >>= _) = _
  rw [Scheduler.lookup_shift]
  refine bind_of_map fun r found => ?_
  simp only [untimed_shift]
  cases r with
  | none =>
    simp only [map_ok, Option.map_none, answering_shift (.refl T d), asked]
    rfl
  | some t =>
    simp only [map_ok, Option.map_some, calling_shift (.refl T d)]
    rfl

/-! ## Operations on a task -/

/-- A slot is refused on the shifted device when it is refused here. -/
theorem lockedOn_shift {s : Section} (same : s.shift k = s) :
    (w.shift k T).lockedOn d (δ.shift k (T.offset k d)) i s = (·.shift k T n) <$> w.lockedOn d δ i s := by
  unfold lockedOn
  show ((δ.scheduler.shift (T.offset k d)).lookup i >>= _) = _
  rw [Scheduler.lookup_shift]
  refine bind_of_map fun r _ => ?_
  cases r with
  | none =>
    simp only [map_ok, Option.map_none, answering_shift (.refl T d)]
    rfl
  | some t =>
    simp only [map_ok, Option.map_some, calling_shift (.refl T d), shiftActs, Act.shift, same]

/-- The state that a start leads to does not depend on stamps. -/
theorem start_shift : (w.shift k T).start d (δ.shift k (T.offset k d)) i = (·.shift k T n) <$> w.start d δ i := by
  unfold start
  show ((δ.scheduler.shift (T.offset k d)).startState i >>= _) = _
  rw [Scheduler.startState_shift]
  refine bind_of_same fun r _ => ?_
  cases r with
  | error e =>
    simp only [map_ok, answering_shift (.refl T d)]
    rfl
  | ok next =>
    simp only [map_ok, calling_shift (.refl T d)]
    rfl

/-- A new interval is the same number of milliseconds on every clock. -/
theorem update_shift {ms : UInt32} :
    (w.shift k T).update d (δ.shift k (T.offset k d)) i ms = (·.shift k T n) <$> w.update d δ i ms := by
  unfold update
  show ((δ.scheduler.shift (T.offset k d)).relength i ms >>= _) = _
  rw [Scheduler.relength_shift]
  refine bind_of_map fun r _ => ?_
  cases r with
  | error e =>
    simp only [map_ok, Except.map, answering_shift (.refl T d)]
    rfl
  | ok σ => exact start_shift (δ := δ.withScheduler σ)

/-- A stop leaves the stamp of its task as it is. -/
theorem stop_shift : (w.shift k T).stop d (δ.shift k (T.offset k d)) i = (·.shift k T n) <$> w.stop d δ i := by
  unfold stop
  show ((δ.scheduler.shift (T.offset k d)).stop i >>= _) = _
  rw [Scheduler.stop_shift]
  refine bind_of_map fun r _ => ?_
  cases r with
  | error e =>
    simp only [map_ok, Except.map, answering_shift (.refl T d)]
    rfl
  | ok σ =>
    simp only [map_ok, Except.map, calling_shift (.refl T d)]
    rfl

/-! ## Operations on a pool -/

/-- Which slots a pool has does not depend on the clock. -/
theorem alloc_shift {j : Nat} :
    (w.shift k T).alloc d (δ.shift k (T.offset k d)) j = (·.shift k T n) <$> w.alloc d δ j := by
  unfold alloc
  show (w.pools.pool j >>= _) = _
  refine bind_of_same fun p _ => ?_
  cases p.first with
  | none =>
    simp only [map_ok, calling_shift (.refl T d)]
    rfl
  | some first =>
    simp only [map_ok, leaving_shift (.refl T d)]
    rfl

/-- Nor does which of them are free. -/
theorem claiming_shift {left : Nat} : (w.shift k T).claiming d (δ.shift k (T.offset k d)) i left =
    (w.claiming d δ i left).shift k T n := by
  cases left with
  | zero =>
    rw [claiming, claiming, answering_shift (.refl T d)]
    rfl
  | succ left =>
    rw [claiming, claiming,
      show (δ.shift k (T.offset k d)).scheduler.arena[i]? = _ from Arena.getElem?_shift (a := δ.scheduler.arena)]
    cases δ.scheduler.arena[i]? with
    | none =>
      simp only [Option.map_none, answering_shift (.refl T d)]
      rfl
    | some t =>
      simp only [Option.map_some, Task.allocated_shift]
      by_cases taken : t.allocated = true
      · simp only [taken, if_true, leaving_shift (.refl T d)]
        rfl
      · simp only [taken, Bool.false_eq_true, if_false, calling_shift (.refl T d)]
        rfl

theorem countPool_shift {j : Nat} :
    (w.shift k T).countPool d (δ.shift k (T.offset k d)) j = (·.shift k T n) <$> w.countPool d δ j := by
  unfold countPool
  show (w.pools.pool j >>= _) = _
  refine bind_of_same fun p _ => ?_
  rw [show (δ.shift k (T.offset k d)).scheduler.arena = δ.scheduler.arena.shift (T.offset k d) from rfl,
    Pool.row?_shift]
  cases p.row? δ.scheduler.arena <;> simp only [map_ok, answering_shift (.refl T d)] <;> rfl

/-! ## Sessions and rounds -/

/-- A session is refused or begun by the run state alone. -/
theorem openSession_shift :
    (w.shift k T).openSession d (δ.shift k (T.offset k d)) = (w.openSession d δ).shift k T n := by
  unfold openSession
  show (if δ.scheduler.runState = .stopped then _ else _) = _
  by_cases stopped : δ.scheduler.runState = .stopped
  · simp only [stopped, if_true, calling_shift (.refl T d)]
    by_cases serves : δ.board.serves .init = true
    · simp only [show (δ.shift k (T.offset k d)).board = δ.board.shift k from rfl, Board.serves_shift, serves, if_true,
        emit_shift]
      rfl
    · simp only [show (δ.shift k (T.offset k d)).board = δ.board.shift k from rfl, Board.serves_shift, serves]
      rfl
  · simp only [stopped, if_false, answering_shift (.refl T d)]
    rfl

theorem beginRound_shift {below : Act} (same : ∀ u, below.shift k u = below) :
    (w.shift k T).beginRound d (δ.shift k (T.offset k d)) below = (w.beginRound d δ below).shift k T n := by
  rw [beginRound, beginRound, leaving_shift (.refl T d), shiftActs, shiftActs, shiftActs, shiftActs, same]
  rfl

/-- So is the loop of a run. -/
theorem run_shift : (w.shift k T).run d (δ.shift k (T.offset k d)) = (w.run d δ).shift k T n := by
  unfold run
  show (if δ.scheduler.runState = .stopped then _ else if δ.scheduler.inRound then _ else _) = _
  by_cases stopped : δ.scheduler.runState = .stopped
  · simp only [stopped, if_true, answering_shift (.refl T d)]
    rfl
  · by_cases busy : δ.scheduler.inRound = true
    · simp only [stopped, busy, if_true, if_false, answering_shift (.refl T d)]
      rfl
    · simp only [stopped, busy, Bool.false_eq_true, if_false, leaving_shift (.refl T d), log_shift]
      rfl

theorem tick_shift : (w.shift k T).tick d (δ.shift k (T.offset k d)) = (w.tick d δ).shift k T n := by
  unfold tick
  show (if δ.scheduler.runState ≠ .active then _ else if δ.scheduler.inRound then _ else _) = _
  by_cases active : δ.scheduler.runState = .active
  · by_cases busy : δ.scheduler.inRound = true
    · simp only [active, busy, ne_eq, not_true, if_true, if_false, answering_shift (.refl T d)]
      rfl
    · simp only [active, busy, ne_eq, not_true, Bool.false_eq_true, if_false]
      exact beginRound_shift fun _ => rfl
  · simp only [active, ne_eq, not_false_eq_true, if_true, answering_shift (.refl T d)]
    rfl

/-! ## All operations -/

/-- The slot itself shows the clock reading with which it was started. -/
theorem task_shift {ref : TaskRef} {self : Option Nat}
    (asked : ∀ i, ref.resolve self = .ok i → T.asked n = !T.started d i) :
    (w.shift k T).perform d (δ.shift k (T.offset k d)) self (.task ref) =
      (·.shift k T n) <$> w.perform d δ self (.task ref) := by
  refine bind_of_same fun i found => ?_
  rw [show (δ.shift k (T.offset k d)).scheduler.arena[i]? = _ from Arena.getElem?_shift (a := δ.scheduler.arena)]
  cases δ.scheduler.arena[i]? with
  | none =>
    simp only [Option.map_none, map_ok, answering_shift (.refl T d)]
    rfl
  | some t =>
    have here : T.offset k d i = ahead k (T.asked n) := by rw [Tally.offset, asked i found]
    simp only [Option.map_some, map_ok, answering_shift (.refl T d), here]
    rfl

/-- The first step of every operation is the shifted one; what it answers about time is put back by `T`. -/
theorem perform_shift {self : Option Nat} {op : Op} (asked : T.asked n = T.shows d self op) :
    (w.shift k T).perform d (δ.shift k (T.offset k d)) self (op.shift k) =
      (·.shift k T n) <$> w.perform d δ self op := by
  have locks : ∀ s : Section, (.ok ((w.shift k T).calling d (δ.shift k (T.offset k d)) .lock [.locked (s.shift k)]) :
      Except Fault Move) = (·.shift k T n) <$> .ok (w.calling d δ .lock [.locked s]) := fun s => by
    rw [map_ok, calling_shift (.refl T d)]
    rfl
  have answers : ∀ {δ : Device} (a : Answer),
      (.ok ((w.shift k T).answering d (δ.shift k (T.offset k d)) (a.shift k (T.asked n))) : Except Fault Move) =
        (·.shift k T n) <$> .ok (w.answering d δ a) := fun a => by rw [map_ok, answering_shift (.refl T d)]
  cases op with
  | declare => exact locks .declare
  | configure task handler ms repeats => exact bind_of_same fun i _ => lockedOn_shift rfl
  | start task => exact bind_of_same fun i _ => start_shift
  | stop task => exact bind_of_same fun i _ => stop_shift
  | update task ms => exact bind_of_same fun i _ => update_shift
  | attach task data => exact bind_of_same fun i _ => lockedOn_shift rfl
  | write task data => exact bind_of_same fun i _ => lockedOn_shift rfl
  | alloc j => exact alloc_shift
  | pool j => exact countPool_shift
  | init => exact congrArg Except.ok openSession_shift
  | run => exact congrArg Except.ok run_shift
  | tick => exact congrArg Except.ok tick_shift
  | shutdown => exact locks .shutdown
  | query task => exact bind_of_same fun i _ => query_shift asked
  | info =>
    show Except.ok _ = _ <$> Except.ok _
    rw [map_ok, calling_shift (.refl T d)]
    rfl
  | capacity =>
    have capacity : (δ.scheduler.shift (T.offset k d)).capacity = δ.scheduler.capacity := Arena.size_shift
    show Except.ok (answering _ _ _ (.capacity (δ.scheduler.shift (T.offset k d)).capacity)) = _
    rw [capacity]
    exact answers (.capacity δ.scheduler.capacity)
  | task ref => exact task_shift fun i found => by rw [asked, Tally.shows, found]
  | advance ms =>
    show Except.ok (answering _ _ ((δ.shift k (T.offset k d)).withBoard ((δ.board.shift k).advance ms))
      (.clock ((δ.board.shift k).advance ms).clock)) = _
    rw [Board.advance_shift]
    exact answers (δ := δ.withBoard (δ.board.advance ms)) (.clock (δ.board.advance ms).clock)
  | setNow ms =>
    simp only [Op.shift]
    exact answers (δ := δ.withBoard (δ.board.setNow ms)) (.clock ms)
  | hook call after body =>
    simp only [Op.shift, Op.shiftAll_eq_map]
    show Except.ok (answering _ _ ((δ.shift k (T.offset k d)).withBoard
      ((δ.board.shift k).arm (Interrupt.shift k ⟨call, after, body⟩))) .done) = _
    rw [Board.arm_shift]
    exact answers (δ := δ.withBoard (δ.board.arm ⟨call, after, body⟩)) .done
  | on e op =>
    simp only [Op.shift]
    rfl

end World

end TimedTasks
