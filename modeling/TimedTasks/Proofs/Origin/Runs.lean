import TimedTasks.Proofs.Calm
import TimedTasks.Proofs.Origin.Fits

/-!
# Runs on other clocks

A run on clocks that are ahead goes through the shifted machines, one by one. `Machine.run_shift` says so of the run of
one operation, whose tally at the end is `Machine.lastTally`, and `Script.Passes.shift` of the operations of a script,
one after the other. Both are inductions along the run: `Machine.step_shift` is one step, and the tally is right at each
of them as long as the hooks of the script begin no session and no round.
-/

namespace TimedTasks

variable {k : UInt32} {T : Tally} {m m' : Machine} {w : World} {d : Nat}

/-! ## The world at the beginning -/

namespace Setup

/-- The setup with all clocks `k` ahead. -/
def shift (k : UInt32) (s : Setup) : Setup :=
  { s with
    devices := s.devices.map fun d => { d with clock := d.clock + k }
    handlers := s.handlers.map fun bodies => bodies.map fun body => body.map (Op.shift k) }

variable {s : Setup}

theorem fresh_shift {capacity : Nat} : (Scheduler.fresh capacity).shift (Tally.empty.offset k d) = .fresh capacity := by
  unfold Scheduler.shift Scheduler.fresh
  congr 1
  apply Array.ext_getElem?
  intro i
  rw [Arena.getElem?_shift]
  simp [Tally.offset, ahead, Tally.empty]

theorem world_shift : (s.shift k).world = s.world.shift k .empty := by
  unfold world World.shift
  congr 1
  · apply Array.ext_getElem?
    intro d
    simp only [shift, List.map_map, List.getElem?_toArray, List.getElem?_map, Array.getElem?_mapIdx, Option.map_map]
    congr 1
    funext setup
    simp only [Function.comp_apply, device, Device.shift, fresh_shift]
    rfl
  · simp only [shift, List.map_map, List.map_toArray]
    rfl

/-- Nothing was started yet, and nothing is armed. -/
theorem fits : Tally.empty.Fits ⟨s.world, []⟩ := by
  refine ⟨fun d δ found i armed => ?_, by simp⟩
  simp only [world, List.getElem?_toArray, List.getElem?_map, Option.map_eq_some_iff] at found
  obtain ⟨setup, -, rfl⟩ := found
  have blank : ((s.device setup).scheduler.life i) = .blank := by
    show (Arena.fresh setup.capacity).life i = .blank
    by_cases bound : i < setup.capacity
    · simp only [Arena.life, Arena.fresh, Array.getElem?_replicate, bound, if_true]
      rfl
    · simp [Arena.life, Arena.fresh, bound]
  rw [blank] at armed
  cases armed

end Setup

/-! ## The run of an operation -/

namespace Ending

/-- The ending on clocks that are `k` ahead. -/
def shift (k : UInt32) (T : Tally) : Ending → Ending
  | .answered a w => .answered (a.shift k (T.asked 0)) (w.shift k T)
  | .fault f => .fault f
  | .unfinished m => .unfinished (m.shift k T)

end Ending

namespace Machine

/-- A machine whose frames lie as they can, and in which nothing but calm operations comes of interrupts. -/
structure Tidy (m : Machine) : Prop extends m.ArmsCalm where
  stacked : Stacked m.stack
  guarded : Guarded Act.minor m.stack

/-- As long as the operations that are called arm calm interrupts only, a machine stays tidy. -/
theorem Turn.tidy (turn : m.Turn m') (h : m.Tidy)
    (called : ∀ d op, m.stack = [] → m'.stack = [⟨d, .perform none op⟩] → op.armsCalm) : m'.Tidy :=
  { turn.armsCalm h.toArmsCalm called with
    stacked := turn.stacked h.stacked
    guarded := turn.guarded tame_calm h.confined h.guarded }

/-- The tally at the end of a run of at most `fuel` steps. -/
def lastTally : (fuel : Nat) → Machine → Tally → Tally
  | 0, _, T => T
  | fuel + 1, m, T =>
    match m.step with
    | .next m' => lastTally fuel m' (m.tally T)
    | _ => m.tally T

theorem stack_ne_nil_of_step (h : m.step = .next m') : m.stack ≠ [] := by
  intro empty
  rw [step, empty] at h
  cases h

/-- The next machine is as tidy, and the tally right about it. -/
theorem next_tidy (tidy : m.Tidy) (fits : T.Fits m) (h : m.step = .next m') : m'.Tidy ∧ (m.tally T).Fits m' :=
  have turn := (Next.step h).turn
  ⟨turn.tidy tidy fun _ _ empty => absurd empty (stack_ne_nil_of_step h), turn.fits tidy.stacked tidy.guarded fits⟩

/-- So is the world that the answer of a call leaves. -/
theorem finish_tidy {a : Answer} (tidy : m.Tidy) (fits : T.Fits m) (h : m.step = .done a w) :
    Tidy ⟨w, []⟩ ∧ (m.tally T).Fits ⟨w, []⟩ :=
  have turn := (Next.finish h).turn
  ⟨turn.tidy tidy (fun _ _ _ called => nomatch called), turn.fits tidy.stacked tidy.guarded fits⟩

theorem run_shift {fuel : Nat} (tidy : m.Tidy) (fits : T.Fits m) :
    (m.shift k T).run fuel = (m.run fuel).shift k (m.lastTally fuel T) := by
  induction fuel generalizing m T with
  | zero => rfl
  | succ fuel ih =>
    rw [run, run, lastTally, step_shift fits]
    cases step : m.step with
    | next m' =>
      obtain ⟨tidy', fits'⟩ := next_tidy tidy fits step
      exact ih tidy' fits'
    | done a w => rfl
    | fault f => rfl

theorem run_tidy {fuel : Nat} {a : Answer} (tidy : m.Tidy) (fits : T.Fits m) (h : m.run fuel = .answered a w) :
    Tidy ⟨w, []⟩ ∧ (m.lastTally fuel T).Fits ⟨w, []⟩ := by
  induction fuel generalizing m T with
  | zero => cases h
  | succ fuel ih =>
    rw [run] at h
    rw [lastTally]
    cases step : m.step with
    | next m' =>
      rw [step] at h
      obtain ⟨tidy', fits'⟩ := next_tidy tidy fits step
      exact ih tidy' fits' h
    | done b w' =>
      rw [step] at h
      cases h
      exact finish_tidy tidy fits step
    | fault f =>
      rw [step] at h
      cases h

/-- An operation that arms calm interrupts only is called when nothing is in progress. -/
theorem call_tidy {op : Op} (tidy : Tidy ⟨w, []⟩) (fits : T.Fits ⟨w, []⟩) (arms : op.armsCalm) :
    (call w d op).Tidy ∧ T.Fits (call w d op) := by
  have turn : Turn ⟨w, []⟩ (call w d op) := (Next.call (m := ⟨w, []⟩) d op rfl).turn
  refine ⟨turn.tidy tidy fun e op' _ called => ?_, turn.fits tidy.stacked tidy.guarded fits⟩
  cases called
  exact arms

end Machine

/-! ## The states of a script -/

namespace Script

/-- The script with all clocks `k` ahead, and all clock values that it names. -/
def shift (k : UInt32) (s : Script) : Script := { s with setup := s.setup.shift k, ops := s.ops.map (Op.shift k) }

/-- No hook of the script, and no hook that a hook arms, calls an operation that begins a session or a round. -/
def armsCalm (s : Script) : Bool :=
  s.setup.handlers.all (fun bodies => bodies.all fun body => body.all Op.armsCalm) && s.ops.all Op.armsCalm

/-- The machines that a script goes through, each with its tally, when the operations of a list are still to be
called. -/
inductive Passes (s : Script) : List Op → Machine → Tally → Prop
  | start : Passes s s.ops ⟨s.setup.world, []⟩ .empty
  | call {op ops w T} : Passes s (op :: ops) ⟨w, []⟩ T → Passes s ops (.call w 0 op) T
  | step {ops m m' T} : Passes s ops m T → m.step = .next m' → Passes s ops m' (m.tally T)
  | finish {ops m a w T} : Passes s ops m T → m.step = .done a w → Passes s ops ⟨w, []⟩ (m.tally T)

variable {s : Script} {ops : List Op}

theorem ops_armsCalm (arms : s.armsCalm) : ∀ op ∈ s.ops, op.armsCalm := by
  rw [armsCalm, Bool.and_eq_true] at arms
  exact List.all_eq_true.1 arms.2

/-- Nothing is in progress yet, and no interrupts are armed. -/
theorem world_tidy (arms : s.armsCalm) : Machine.Tidy ⟨s.setup.world, []⟩ := by
  rw [armsCalm, Bool.and_eq_true] at arms
  refine ⟨⟨by simp, fun d δ found => ?_, fun bodies mem body mb => ?_⟩, trivial, List.Pairwise.nil⟩
  · simp only [Setup.world, List.getElem?_toArray, List.getElem?_map, Option.map_eq_some_iff] at found
    obtain ⟨setup, -, rfl⟩ := found
    intro i mi
    cases mi
  · have program : bodies ∈ s.setup.handlers := by simpa [World.programs, Setup.world] using mem
    exact List.all_eq_true.1 (List.all_eq_true.1 arms.1 bodies program) body mb

/-- The machines of a script whose hooks begin no session and no round are tidy, and their tallies are right. -/
theorem Passes.tidy (p : s.Passes ops m T) (arms : s.armsCalm) :
    m.Tidy ∧ T.Fits m ∧ ∀ op ∈ ops, op.armsCalm := by
  induction p with
  | start => exact ⟨world_tidy arms, Setup.fits, ops_armsCalm arms⟩
  | call _ ih =>
    obtain ⟨tidy, fits, rest⟩ := ih
    obtain ⟨tidy', fits'⟩ := Machine.call_tidy (d := 0) tidy fits (rest _ List.mem_cons_self)
    exact ⟨tidy', fits', fun op mem => rest op (List.mem_cons_of_mem _ mem)⟩
  | step _ h ih =>
    obtain ⟨tidy', fits'⟩ := Machine.next_tidy ih.1 ih.2.1 h
    exact ⟨tidy', fits', ih.2.2⟩
  | finish _ h ih =>
    obtain ⟨tidy', fits'⟩ := Machine.finish_tidy ih.1 ih.2.1 h
    exact ⟨tidy', fits', ih.2.2⟩

/-- On other clocks the script goes through the shifted machines. -/
theorem Passes.shift (p : s.Passes ops m T) (arms : s.armsCalm) :
    ∃ T', (s.shift k).Passes (ops.map (Op.shift k)) (m.shift k T) T' := by
  induction p with
  | start =>
    have world : (⟨(s.shift k).setup.world, []⟩ : Machine) = Machine.shift k .empty ⟨s.setup.world, []⟩ := by
      rw [show (s.shift k).setup = s.setup.shift k from rfl, Setup.world_shift]
      rfl
    exact ⟨.empty, world ▸ .start⟩
  | call _ ih =>
    obtain ⟨T', p'⟩ := ih
    exact ⟨T', .call p'⟩
  | step p h ih =>
    -- The tally of the other run is of no interest: the machines are shifted by the tally of this one.
    obtain ⟨T', p'⟩ := ih
    have next := Machine.step_shift (k := k) (p.tidy arms).2.1
    rw [h] at next
    exact ⟨_, .step p' next⟩
  | finish p h ih =>
    obtain ⟨T', p'⟩ := ih
    have done := Machine.step_shift (k := k) (p.tidy arms).2.1
    rw [h] at done
    exact ⟨_, .finish p' done⟩

end Script

end TimedTasks
