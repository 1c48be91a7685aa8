import TimedTasks.Proofs.Origin.Runs

/-!
# Reports do not tell where the clock began

A script whose hooks begin no session and no round has the same reports wherever the clocks of its boards began
(`Script.same_on_other_clocks`). What differs is known exactly (`Report.shift`): the clock values themselves, the
stamps that a slot shows, and the ages of tasks that were not started since their slots were last reset. The `Marks` of
a report say which these tasks are. They come from the tally that is kept along the script (`Script.marked`).
-/

namespace TimedTasks

open Except (map_ok)

variable {k : UInt32} {T : Tally} {w before after : World} {d : Nat} {δ : Device}

/-! ## What reports show on other clocks -/

/-- What in a report is about tasks that are configured and were not started: the answer, each of the events, each of
the slots of every scheduler. -/
structure Marks where
  answer : Bool
  events : List Bool
  slots : List (List Bool)

def Snapshot.shift (k : UInt32) (unstarted : List Bool) (s : Snapshot) : Snapshot :=
  ⟨{ s.scheduler with now := s.scheduler.now + k }, List.zipWith (TaskRow.shift k) unstarted s.tasks⟩

/-- The report on clocks that are `k` ahead. -/
def Report.shift (k : UInt32) (marks : Marks) (r : Report) : Report where
  answer := r.answer.shift k marks.answer
  events := List.zipWith (Event.shift k) marks.events r.events
  states := List.zipWith (Snapshot.shift k) marks.slots r.states

namespace Script

/-- The marks of the report of an operation that led from one world to another. -/
def marks (s : Script) (before after : World) (T : Tally) : Marks where
  answer := T.asked 0
  events := ((after.trace.toList.zipIdx.drop before.trace.size).filter fun p => s.shows p.1).map fun p => T.told p.2
  slots := after.devices.toList.zipIdx.map fun p =>
    (List.range p.1.scheduler.capacity).map (T.unstarted p.1.scheduler p.2)

/-- The reports of a list of operations with their marks. -/
def markedFrom (s : Script) (fuel : Nat) (w : World) (T : Tally) : List Op → Except Stall (List (Report × Marks))
  | [] => .ok []
  | op :: rest =>
    match (Machine.call w 0 op).run fuel with
    | .fault f => .error (.fault f)
    | .unfinished _ => .error .unfinished
    | .answered a after =>
      let T := (Machine.call w 0 op).lastTally fuel T
      match s.report w after a with
      | .error f => .error (.fault f)
      | .ok r => ((r, s.marks w after T) :: ·) <$> s.markedFrom fuel after T rest

/-- The reports of a script with their marks. -/
def marked (s : Script) (fuel : Nat) : Except Stall (List (Report × Marks)) :=
  s.markedFrom fuel s.setup.world .empty s.ops

end Script

/-! ## Looking at a scheduler -/

/-- Computations along a list whose results change in a known way. -/
theorem mapM_change {ε α β μ : Type} {l : List α} {f g : α → Except ε β} {change : μ → β → β} {mark : α → μ}
    (h : ∀ a ∈ l, g a = change (mark a) <$> f a) :
    l.mapM g = List.zipWith change (l.map mark) <$> l.mapM f := by
  induction l with
  | nil => rfl
  | cons a l ih =>
    rw [List.mapM_cons, List.mapM_cons, h a List.mem_cons_self, ih fun b mem => h b (List.mem_cons_of_mem _ mem)]
    cases f a with
    | error e => rfl
    | ok b => cases l.mapM f <;> rfl

/-- What is said of a task: the time it has left, and whether that is over, count only while it is armed. -/
theorem timed_shift {now : UInt32} {i : Nat} {found : Option Task} (look : δ.scheduler.lookup i = .ok found)
    (armed : ∀ i, (δ.scheduler.life i).state.armed → T.started d i) :
    TaskRow.timed (now + k) (found.map (·.shift (T.offset k d i))) =
      TaskRow.shift k (T.unstarted δ.scheduler d i) (TaskRow.timed now found) := by
  rw [Tally.unstarted, look]
  cases found with
  | none => rfl
  | some t =>
    have started : t.state.armed → T.started d i := fun h => armed i (by rwa [Scheduler.life_of_lookup look])
    cases known : T.started d i with
    | true =>
      simp only [Tally.offset_of_started known, Option.map_some, TaskRow.timed, TaskRow.untimed, Task.state_shift,
        Task.timing_shift, Interval.elapsed_shift, Interval.remaining_shift, Interval.expired_shift, Bool.not_true,
        Bool.and_false]
      rfl
    | false =>
      -- The slot is not armed then, so nothing but its age is told by its interval.
      have here : T.offset k d i = 0 := by simp [Tally.offset, ahead, known]
      rw [known] at started
      cases state : t.state with
      | uninit | stopped | stopping =>
        simp [here, TaskRow.timed, TaskRow.untimed, TaskRow.shift, state, TaskState.armed, Interval.elapsed_add]
      | active | executing => exact absurd (started (by rw [state]; rfl)) Bool.false_ne_true

theorem Device.snapshot_shift (armed : ∀ i, (δ.scheduler.life i).state.armed → T.started d i) :
    (δ.shift k (T.offset k d)).snapshot =
      Snapshot.shift k ((List.range δ.scheduler.capacity).map (T.unstarted δ.scheduler d)) <$> δ.snapshot := by
  have room : (δ.scheduler.shift (T.offset k d)).capacity = δ.scheduler.capacity := Arena.size_shift
  have rows : ((List.range δ.scheduler.capacity).mapM fun i =>
        (δ.shift k (T.offset k d)).scheduler.lookup i >>= fun found =>
          Except.ok (TaskRow.timed (δ.shift k (T.offset k d)).board.clock found)) =
      List.zipWith (TaskRow.shift k) ((List.range δ.scheduler.capacity).map (T.unstarted δ.scheduler d)) <$>
        (List.range δ.scheduler.capacity).mapM fun i =>
          δ.scheduler.lookup i >>= fun found => Except.ok (TaskRow.timed δ.board.clock found) := by
    refine mapM_change fun i _ => ?_
    show ((δ.scheduler.shift (T.offset k d)).lookup i >>= _) = _
    rw [Scheduler.lookup_shift]
    cases look : δ.scheduler.lookup i with
    | error e => rfl
    | ok found => exact congrArg Except.ok (timed_shift look armed)
  unfold snapshot
  show ((δ.scheduler.shift (T.offset k d)).row δ.scheduler.runState (δ.board.clock + k) >>= fun row =>
    (List.range (δ.scheduler.shift (T.offset k d)).capacity).mapM _ >>= _) = _
  rw [Scheduler.row_shift, room]
  cases δ.scheduler.row δ.scheduler.runState δ.board.clock with
  | error e => rfl
  | ok row =>
    simp only [map_ok, ok_bind]
    rw [rows]
    cases (List.range δ.scheduler.capacity).mapM fun i =>
      δ.scheduler.lookup i >>= fun found => Except.ok (TaskRow.timed δ.board.clock found) <;> rfl

namespace Script

variable {s : Script}

theorem events_shift : ((after.shift k T).trace.toList.drop before.trace.size).filter (s.shift k).shows =
    List.zipWith (Event.shift k) (s.marks before after T).events
      ((after.trace.toList.drop before.trace.size).filter s.shows) := by
  have shows : (s.shift k).shows ∘ (fun p : Event × Nat => p.1.shift k (T.told p.2)) = fun p => s.shows p.1 := by
    funext p
    rcases p with ⟨e, n⟩
    cases e <;> rfl
  have trace : (after.shift k T).trace.toList = after.trace.toList.zipIdx.map fun p => p.1.shift k (T.told p.2) := by
    simp [World.shift, List.mapIdx_eq_zipIdx_map]
  have events : (after.trace.toList.drop before.trace.size).filter s.shows =
      ((after.trace.toList.zipIdx.drop before.trace.size).filter fun p => s.shows p.1).map Prod.fst := by
    conv => lhs; rw [← List.zipIdx_map_fst 0 after.trace.toList, ← List.map_drop, List.filter_map]
    rfl
  rw [trace, ← List.map_drop, List.filter_map, shows, events, marks, List.zipWith_map, List.zipWith_self]

theorem report_shift {T₀ : Tally} {a : Answer} (fits : T.Fits ⟨after, []⟩) :
    (s.shift k).report (before.shift k T₀) (after.shift k T) (a.shift k (T.asked 0)) =
      Report.shift k (s.marks before after T) <$> s.report before after a := by
  have size : (before.shift k T₀).trace.size = before.trace.size := by simp [World.shift]
  have devices : (after.shift k T).devices.toList =
      after.devices.toList.zipIdx.map fun p => p.1.shift k (T.offset k p.2) := by
    simp [World.shift, List.mapIdx_eq_zipIdx_map]
  have states : (after.shift k T).devices.toList.mapM Device.snapshot =
      List.zipWith (Snapshot.shift k) (s.marks before after T).slots <$> after.devices.toList.mapM Device.snapshot := by
    have plain : after.devices.toList.mapM Device.snapshot =
        after.devices.toList.zipIdx.mapM fun p => p.1.snapshot := by
      conv => lhs; rw [← List.zipIdx_map_fst 0 after.devices.toList, List.mapM_map]
      rfl
    rw [devices, List.mapM_map, plain]
    refine mapM_change fun p mem => Device.snapshot_shift fun i => fits.armed p.2 p.1 ?_ i
    rw [← Array.getElem?_toList]
    exact List.mk_mem_zipIdx_iff_getElem?.1 mem
  unfold report
  rw [states, size, events_shift]
  cases after.devices.toList.mapM Device.snapshot <;> rfl

/-! ## Scripts -/

/-- The marks are kept beside the reports, which do not depend on them. -/
theorem runFrom_eq {fuel : Nat} {ops : List Op} :
    s.runFrom fuel w ops = List.map Prod.fst <$> s.markedFrom fuel w T ops := by
  induction ops generalizing w T with
  | nil => rfl
  | cons op ops ih =>
    rw [runFrom, markedFrom]
    cases (Machine.call w 0 op).run fuel with
    | fault f => rfl
    | unfinished m => rfl
    | answered a after =>
      simp only
      cases s.report w after a with
      | error f => rfl
      | ok r =>
        simp only
        rw [ih (T := (Machine.call w 0 op).lastTally fuel T)]
        cases s.markedFrom fuel after _ ops <;> rfl

theorem runFrom_shift {fuel : Nat} {ops : List Op} (tidy : Machine.Tidy ⟨w, []⟩) (fits : T.Fits ⟨w, []⟩)
    (arms : ops.all Op.armsCalm) :
    (s.shift k).runFrom fuel (w.shift k T) (ops.map (Op.shift k)) =
      List.map (fun p => p.1.shift k p.2) <$> s.markedFrom fuel w T ops := by
  induction ops generalizing w T with
  | nil => rfl
  | cons op ops ih =>
    rw [List.all_cons, Bool.and_eq_true] at arms
    obtain ⟨tidy', fits'⟩ := Machine.call_tidy (d := 0) tidy fits arms.1
    have run : (Machine.call (w.shift k T) 0 (op.shift k)).run fuel =
        ((Machine.call w 0 op).run fuel).shift k ((Machine.call w 0 op).lastTally fuel T) :=
      Machine.run_shift tidy' fits'
    rw [List.map_cons, runFrom, markedFrom, run]
    cases ended : (Machine.call w 0 op).run fuel with
    | fault f => rfl
    | unfinished m => rfl
    | answered a after =>
      obtain ⟨tidy, fits⟩ := Machine.run_tidy tidy' fits' ended
      simp only [Ending.shift]
      rw [report_shift fits]
      cases s.report w after a with
      | error f => rfl
      | ok r =>
        simp only [map_ok]
        rw [ih tidy fits arms.2]
        cases s.markedFrom fuel after _ ops <;> rfl

/-- Wherever the clocks of its boards began, a script whose hooks begin no session and no round gives the same reports,
up to the clock values and the ages of tasks that were not started. It goes through the same states as well: each
machine that it comes to is on other clocks the shifted one. -/
theorem same_on_other_clocks (s : Script) (arms : s.armsCalm) (k : UInt32) :
    (∀ fuel, s.run fuel = List.map Prod.fst <$> s.marked fuel ∧
      (s.shift k).run fuel = List.map (fun p => p.1.shift k p.2) <$> s.marked fuel) ∧
    ∀ ops m T, s.Passes ops m T → ∃ T', (s.shift k).Passes (ops.map (Op.shift k)) (m.shift k T) T' := by
  refine ⟨fun fuel => ⟨runFrom_eq, ?_⟩, fun ops m T p => p.shift arms⟩
  have shifted : (s.shift k).runFrom fuel (s.setup.world.shift k .empty) (s.ops.map (Op.shift k)) =
      List.map (fun p => p.1.shift k p.2) <$> s.marked fuel :=
    runFrom_shift (world_tidy arms) Setup.fits (List.all_eq_true.2 (ops_armsCalm arms))
  rwa [← Setup.world_shift] at shifted

/-- A device whose clock is ten milliseconds before the wrap of its counter. It asks for the time that a task has left,
and a hook changes the interval of the task while it runs over the wrap. -/
def overWrap : Script where
  setup := {
    clockOnly := false
    devices := [⟨1, 4294967286, [], []⟩]
    pools := []
    handlers := [[[.advance 3]]]
    limit := 100 }
  verbose := true
  ops := [.declare, .init, .configure (.slot 0) 0 20 true, .query (.slot 0), .start (.slot 0), .advance 20,
    .hook .now 1 [.update (.slot 0) 7], .tick, .query (.slot 0), .task (.slot 0)]

/-- With ten milliseconds more the counter begins at zero and does not wrap. Only the age that was asked for before the
task was started is the same on both clocks. -/
theorem same_on_other_clocks_over_wrap : overWrap.armsCalm ∧ ∃ rs : List (Report × Marks),
    overWrap.run 60 = .ok (rs.map Prod.fst) ∧ (overWrap.shift 10).run 60 = .ok (rs.map fun p => p.1.shift 10 p.2) ∧
    rs.map (·.2.answer) = [false, false, false, true, false, false, false, false, false, false] := by
  obtain ⟨same, -⟩ := same_on_other_clocks overWrap rfl 10
  obtain ⟨here, there⟩ := same 60
  have shown : (overWrap.marked 60).toOption.map (List.map (·.2.answer)) =
      some [false, false, false, true, false, false, false, false, false, false] := by decide +kernel
  cases reports : overWrap.marked 60 with
  | error e => rw [reports] at shown; cases shown
  | ok rs =>
    rw [reports] at here there shown
    exact ⟨rfl, rs, here, there, Option.some.inj shown⟩

end Script

end TimedTasks
