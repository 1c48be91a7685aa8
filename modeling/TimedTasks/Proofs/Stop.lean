import TimedTasks.Proofs.Tame
import TimedTasks.Proofs.Record

/-!
# What a stop is good for

A stop that finds its task waiting leaves it `stopped` at once. `Parked` is what keeps it so: none of the frames in
progress is about to arm the task or to run its handler. Without such a frame only a new start or update can bring the
task back (`View.Rests.turn`), whatever the interrupts do.

There is one frame for which a stop comes too late. A round that dispatches a repeating task has seen it `active`
before it reads the clock, and when the reading is there it makes the task `executing` without another look. A stop
that an interrupt of that reading calls is undone.
-/

namespace TimedTasks

namespace Act

/-- The act is about to arm task `i` or to run its handler. -/
def arms (i : Nat) : Act → Bool
  | reading (.start j _) | reading (.renew j) | locked (.fetch j) => j = i
  | _ => false

/-- The act is the call of a start or an update of task `i`. -/
def restarts (i : Nat) : Act → Bool
  | perform self (.start task) | perform self (.update task _) => task.resolve self = .ok i
  | _ => false

theorem arms_of_asks {r : Reading} {i : Nat} (h : r.asks) : (reading r).arms i = false := by
  cases r <;> first | rfl | cases h

theorem arms_of_op {σ : Scheduler} {self : Option Nat} {op : Op} {s : Section} {i : Nat} (h : op.Asks σ self s) :
    (locked s).arms i = false := by
  cases h <;> rfl

end Act

/-- The state of a task that neither waits nor runs. -/
def TaskState.parked : TaskState → Bool
  | uninit | stopped => true
  | _ => false

/-- Task `i` neither waits nor runs, and nothing in progress is about to change that. -/
structure Parked (i : Nat) (σ : Scheduler) (acts : List Act) : Prop where
  state : (σ.life i).state.parked
  quiet : ∀ a ∈ acts, a.arms i = false

namespace Parked

variable {i : Nat} {σ σ' : Scheduler} {act : Act} {acts rest : List Act}

/-- A step that leaves task `i` parked and brings nothing that arms it. -/
theorem step (h : Parked i σ (act :: rest)) (state : (σ'.life i).state.parked)
    (quiet : ∀ a ∈ acts, a.arms i = false) : Parked i σ' (acts ++ rest) :=
  ⟨state, fun a m => (List.mem_append.1 m).elim (quiet a) fun m => h.quiet a (List.mem_cons_of_mem _ m)⟩

/-- A step that leaves all lives alone. -/
theorem same (h : Parked i σ (act :: rest)) (life : σ'.life = σ.life) (quiet : ∀ a ∈ acts, a.arms i = false) :
    Parked i σ' (acts ++ rest) :=
  h.step (by rw [life]; exact h.state) quiet

/-- A step that changes the life of one task, and parks it if it is task `i`. -/
theorem update (h : Parked i σ (act :: rest)) {j : Nat} {ℓ : Life} (life : σ'.life = Function.update σ.life j ℓ)
    (parks : j = i → ℓ.state.parked) (quiet : ∀ a ∈ acts, a.arms i = false) : Parked i σ' (acts ++ rest) := by
  refine h.step ?_ quiet
  rw [life]
  by_cases e : i = j
  · subst e; rw [Function.update_self]; exact parks rfl
  · rw [Function.update_of_ne e]; exact h.state

/-- Either end of a session parks all tasks that it finds, and leaves the others as they are. -/
theorem dismissed (h : Parked i σ (act :: rest)) (d : Scheduler.Dismissed σ σ')
    (quiet : ∀ a ∈ acts, a.arms i = false) : Parked i σ' (acts ++ rest) := by
  obtain ⟨l, -, life⟩ := d.life
  refine h.step ?_ quiet
  rw [life i]
  split
  · rfl
  · exact h.state

theorem parked_stop {ℓ : Life} (h : ℓ.state.parked) : ℓ.stop.state.parked := by
  rcases ℓ with ⟨state, timing, repeats, handler⟩
  cases state <;> first | rfl | cases h

theorem parked_settle {ℓ : Life} (h : ℓ.state.parked) : ℓ.settle.state.parked := by
  rcases ℓ with ⟨state, timing, repeats, handler⟩
  cases state <;> first | rfl | cases h

/-- A task that waits is not parked. -/
theorem not_active (h : Parked i σ acts) {t : Task} {j : Nat} (found : σ.arena.slot j = .ok t)
    (active : t.state = .active) : j ≠ i := by
  rintro rfl
  have state := h.state
  rw [Scheduler.life, Arena.life_of_slot found, Task.life, active] at state
  cases state

open Scheduler in
/-- Unless the step is the call of a start or an update, it leaves a parked task parked. -/
theorem leads {w : World} {δ : Device} {s : Stride} (h : Parked i δ.scheduler (act :: rest)) (l : Leads w δ act s)
    (no : ¬act.restarts i) : Parked i s.scheduler (s.frames ++ rest) ∧ s.invoked ≠ some i := by
  have away : act.arms i = false := h.quiet act List.mem_cons_self
  cases l with
  | answer | alloc | info | advance | setNow | hook | blockEnd | blockNext | interruptsEnd | interruptsNext | wait
  | retarget | dueFirst | due | notDue | scan | lengthTold | unhandled | claimedMeanwhile | woken | wokenLast
  | remembered | nothingRemembered | surveyed | walked | looked | passed | notDispatched | handled | handledLast
  | unclaimed | occupied | claiming | init | run | tick | anotherRound | opened | closed | lastRound | sessionOver
  | forgotten | refused | told =>
    exact ⟨h.same rfl (by simp [Stride.frames, Act.arms]), by simp [Stride.invoked]⟩
  | ask ask => exact ⟨h.same rfl (by simp [Stride.frames, Act.arms_of_op ask]; rfl), by simp [Stride.invoked]⟩
  | asked _ r => exact ⟨h.same rfl (by simp [Stride.frames, Act.arms_of_asks r]; rfl), by simp [Stride.invoked]⟩
  | lengthAsked r => exact ⟨h.same rfl (by simp [Stride.frames, Act.arms_of_asks r]; rfl), by simp [Stride.invoked]⟩
  | declared t => exact ⟨h.same (takeSlots_changes t).life (by simp [Stride.frames, Act.arms]), by simp [Stride.invoked]⟩
  | noted n => exact ⟨h.same (noteArmed_changes n).2.life (by simp [Stride.frames, Act.arms]), by simp [Stride.invoked]⟩
  | attached a => exact ⟨h.same (attach_changes a).life (by simp [Stride.frames, Act.arms]), by simp [Stride.invoked]⟩
  | written a => exact ⟨h.same (write_changes a).life (by simp [Stride.frames, Act.arms]), by simp [Stride.invoked]⟩
  | adopted a => exact ⟨h.same (adopt_changes a).2.life (by simp [Stride.frames, Act.arms]), by simp [Stride.invoked]⟩
  | enrolled e => exact ⟨h.same (enrollPool_changes e).life (by simp [Stride.frames, Act.arms]), by simp [Stride.invoked]⟩
  | claimed c => exact ⟨h.same (handOut_changes c).life (by simp [Stride.frames, Act.arms]), by simp [Stride.invoked]⟩
  | shutdown =>
    refine ⟨h.same ?_ (by simp [Stride.frames, Act.arms]), by simp [Stride.invoked]⟩
    show δ.scheduler.shutdown.life = _
    unfold Scheduler.shutdown
    split <;> rfl
  | @start _ _ j _ ref =>
    have other : j ≠ i := by rintro rfl; exact no (decide_eq_true ref)
    exact ⟨h.same rfl (by simp [Stride.frames, Act.arms, other]), by simp [Stride.invoked]⟩
  | @update _ _ _ j _ _ ref re =>
    have other : j ≠ i := by rintro rfl; exact no (decide_eq_true ref)
    have c := (relength_changes re).2.2
    exact ⟨h.update c.life (fun e => absurd e other) (by simp [Stride.frames, Act.arms, other]), by simp [Stride.invoked]⟩
  | stop _ st =>
    have c := (stop_changes st).2
    refine ⟨h.update c.life ?_ (by simp [Stride.frames, Act.arms]), by simp [Stride.invoked]⟩
    rintro rfl
    exact parked_stop h.state
  | configured conf =>
    have c := Scheduler.configured conf
    exact ⟨h.update c.life (fun _ => rfl) (by simp [Stride.frames, Act.arms]), by simp [Stride.invoked]⟩
  | @stamp j next _ st =>
    have other : j ≠ i := by simpa [Act.arms] using away
    have c := start_changes st
    exact ⟨h.update c.life (fun e => absurd e other) (by simp [Stride.frames, Act.arms]), by simp [Stride.invoked]⟩
  | @renew j _ st =>
    have other : j ≠ i := by simpa [Act.arms] using away
    have c := start_changes st
    exact ⟨h.update c.life (fun e => absurd e other) (by simp [Stride.frames, Act.arms, other]), by simp [Stride.invoked]⟩
  | renewing found active =>
    have other := h.not_active found active
    exact ⟨h.same rfl (by simp [Stride.frames, Act.arms, other]), by simp [Stride.invoked]⟩
  | dispatched found active _ st =>
    have other := h.not_active found active
    have c := stopping_changes st
    exact ⟨h.update c.life (fun e => absurd e other) (by simp [Stride.frames, Act.arms, other]), by simp [Stride.invoked]⟩
  | @fetched j =>
    have other : j ≠ i := by simpa [Act.arms] using away
    exact ⟨h.same rfl (by simp [Stride.frames, Act.arms]), by simpa [Stride.invoked] using other⟩
  | settled st =>
    have c := settle_changes st
    refine ⟨h.update c.life ?_ (by simp [Stride.frames]), by simp [Stride.invoked]⟩
    rintro rfl
    exact parked_settle h.state
  | begun b =>
    have left : Parked i _ ([] ++ rest) := h.dismissed (beginSession_dismissed b).1 (by simp)
    exact ⟨h.step left.state (by simp [Stride.frames, Act.arms]), by simp [Stride.invoked]⟩
  | ended e =>
    exact ⟨h.dismissed (endSession_dismissed e).1 (by simp [Stride.frames, Act.arms]), by simp [Stride.invoked]⟩

/-- The frame that takes a deadline arms nothing. -/
theorem delivers {δ : Device} {ms : Option UInt32} {s : Stride} (h : Parked i δ.scheduler (.deadline ms :: act :: rest))
    (l : Delivers δ ms act s) : Parked i s.scheduler (s.frames ++ rest) := by
  have below : Parked i δ.scheduler (act :: rest) := ⟨h.state, fun a m => h.quiet a (List.mem_cons_of_mem _ m)⟩
  cases l <;> exact below.same rfl (by simp [Stride.frames, Act.arms])

end Parked

namespace View

variable {v v' : View} {i : Nat}

/-- A start or an update of task `i` is called. -/
def Restarts (v : View) (i : Nat) : Prop := ∃ act ∈ v.acts.head?, act.restarts i

instance (v : View) (i : Nat) : Decidable (v.Restarts i) :=
  inferInstanceAs (Decidable (∃ act ∈ v.acts.head?, act.restarts i))

/-- Task `i` is parked, and its handler ran at the times of a list. -/
def Rests (v : View) (i : Nat) (fired : List Nat) : Prop :=
  Parked i v.scheduler v.acts ∧ v.past.fired i = fired

theorem Rests.turn {fired : List Nat} (h : v.Rests i fired) (no : ¬v.Restarts i) (t : Turn v v') :
    v'.Rests i fired := by
  obtain ⟨parked, ran⟩ := h
  cases t with
  | @works w act s _ rest acts l =>
    rw [acts] at parked
    obtain ⟨parked, quiet⟩ := parked.leads l fun restarts => no ⟨act, by simp [acts], restarts⟩
    exact ⟨by simpa [take, scheduler] using parked, by simp [take, Chronicle.after, quiet, ran]⟩
  | delivers acts l =>
    rw [acts] at parked
    exact ⟨by simpa [take, scheduler] using parked.delivers l, ran⟩

theorem Rests.shift {fired : List Nat} (h : v.Rests i fired) (t : Shift v v') : v'.Rests i fired := by
  obtain ⟨parked, ran⟩ := h
  cases t with
  | drops acts _ =>
    rw [acts] at parked
    exact ⟨⟨parked.state, fun a m => parked.quiet a (List.mem_cons_of_mem _ m)⟩, ran⟩
  | arrives self op =>
    refine ⟨⟨parked.state, fun a m => ?_⟩, ran⟩
    rcases List.mem_cons.1 m with rfl | m
    · rfl
    · exact parked.quiet a m

/-- A call that has just begun stays as it is until its device works. -/
theorem Later.of_perform {self : Option Nat} {op : Op} {rest : List Act} (l : v.Later v')
    (here : ∀ e op', op ≠ .on e op') (acts : v.acts = .perform self op :: rest) : Turn v v' ∨ v' = v := by
  rcases l with turned | shifted
  · exact .inl turned
  · refine .inr ?_
    induction shifted with
    | refl => rfl
    | tail _ t same =>
      subst same
      cases t with
      | @drops act _ _ acts' drops =>
        rw [acts] at acts'
        cases acts'
        cases op <;> first | cases drops; done | exact absurd rfl (here _ _)
      | arrives self' op' takes =>
        have := takes _ (by rw [acts]; rfl)
        cases this

end View

namespace Moment

variable {P : Moment → Prop} {s : Setup} {x x₁ y : Moment} {d i : Nat} {v v₁ v' : View} {self : Option Nat}
  {task : TaskRef} {rest : List Act} {bodies : List (List Op)}

/-- A stop that finds its task waiting parks it, if the task is not about to be armed or renewed. -/
theorem rests_of_stop (sound : v.Sound) (later : v.Later v₁) (call : v.acts = .perform self (.stop task) :: rest)
    (ref : task.resolve self = .ok i) (waits : (v.scheduler.life i).state = .active)
    (noStart : ∀ next, .reading (.start i next) ∉ rest) (noRenewal : .reading (.renew i) ∉ rest)
    (done : v₁.acts = .interrupts .lock bodies :: .locked (.forget i) :: rest) : v₁.Rests i (v.past.fired i) := by
  rcases later.of_perform (fun _ _ => Op.noConfusion) call with turned | same
  · rw [View.Sound, call] at sound
    cases turned with
    | works acts l =>
      rw [call] at acts
      cases acts
      cases l with
      | answer => simp [View.take, Stride.frames] at done
      | ask ask => cases ask
      | stop ref' st =>
        cases ref.symm.trans ref'
        have c := (Scheduler.stop_changes st).2
        refine ⟨⟨?_, ?_⟩, by simp [View.take, Chronicle.after, Stride.invoked]⟩
        · show ((Stride.device _).scheduler.life i).state.parked
          rw [Stride.scheduler_device, c.life, Function.update_self]
          show (Life.stop (v.scheduler.life i)).state.parked
          simp [Life.stop, waits, TaskState.parked]
        · rw [done]
          intro a m
          simp only [List.mem_cons] at m
          rcases m with rfl | rfl | m
          · rfl
          · rfl
          by_contra armed
          cases a with
          | reading r =>
            cases r <;> simp only [Act.arms, decide_eq_false_iff_not, not_not, not_true_eq_false] at armed
            · subst armed; exact noStart _ m
            · subst armed; exact noRenewal m
          | locked t =>
            cases t <;> simp only [Act.arms, decide_eq_false_iff_not, not_not, not_true_eq_false] at armed
            subst armed
            have settle := sound.column.settle_of_fetch (List.mem_cons_of_mem _ m)
            have busy := (sound.handling _).2 settle
            rw [waits] at busy
            cases busy
          | _ => simp [Act.arms] at armed
    | delivers acts l => rw [call] at acts; cases acts
  · rw [same, call] at done
    cases done

/-- A renewal makes its task `executing`, whatever became of the task since the round looked at it. -/
theorem executing_of_renewal {z : Moment} {below : List Frame} (top : y.machine.stack = ⟨d, .reading (.renew i)⟩ :: below)
    (next : y.Next z) (h : z.view d = some v') : (v'.scheduler.life i).state = .executing := by
  obtain ⟨δ, s, found, l, takes⟩ := next.leads_of_top top rfl
  obtain ⟨found', -, -⟩ := view_eq_some h
  rw [takes.device_same found, Option.some.injEq] at found'
  rw [View.scheduler, ← found', Stride.scheduler_device]
  cases l with
  | renew st => rw [(Scheduler.start_changes st).life, Function.update_self]; rfl
  | asked asks => cases asks
  | told asks => cases asks

/-- A stop that finds its task waiting and is not refused holds until a start or an update of the task is called: the
task stays `stopped`, or `uninit` once its session is over, and its handler is not invoked. Starts of the task that are
in progress have to be past their reading of the clock. The one exception is a renewal that waits for its reading of the
clock when the stop is called: when that reading is made, the task is `executing`, stopped or not. -/
theorem stop_holds_unless_renewed (r : Run P (initial s) x) (hx : x.view d = some v)
    (call : v.acts = .perform self (.stop task) :: rest) (ref : task.resolve self = .ok i)
    (waits : (v.scheduler.life i).state = .active) (noStart : ∀ next, .reading (.start i next) ∉ rest)
    (next : x.Next x₁) (h₁ : x₁.view d = some v₁)
    (done : v₁.acts = .interrupts .lock bodies :: .locked (.forget i) :: rest)
    (r₁ : Run (fun z => ∀ v, z.view d = some v → ¬v.Restarts i) x₁ y) (hy : y.view d = some v') :
    (.reading (.renew i) ∉ rest →
      ((v'.scheduler.life i).state = .stopped ∨ (v'.scheduler.life i).state = .uninit) ∧
        y.machine.world.invocations d i = x.machine.world.invocations d i) ∧
    ∀ z v₂ below, y.machine.stack = ⟨d, .reading (.renew i)⟩ :: below → y.Next z → z.view d = some v₂ →
      (v₂.scheduler.life i).state = .executing := by
  constructor
  · intro noRenewal
    obtain ⟨v₀, hv₀, later⟩ := next.view_later (stacked_of_run r) h₁
    cases hx.symm.trans hv₀
    have first := rests_of_stop (sound r hx) later call ref waits noStart noRenewal done
    have stacked := next.machine.turn.stacked (stacked_of_run r)
    have rests : v'.Rests i (v.past.fired i) := by
      refine view_of_run_from (I := fun u => u.Rests i (v.past.fired i)) r₁ stacked (fun z v p => p v) ?_
        (fun _ _ h no t _ => h.turn no t) (fun _ _ h t => h.shift t) hy
      intro u hu
      cases h₁.symm.trans hu
      exact first
    have whole : Run (fun _ => True) (initial s) y :=
      ((r.mono fun _ _ => trivial).more next trivial).trans (r₁.mono fun _ _ => trivial)
    refine ⟨?_, ?_⟩
    · have state := rests.1.state
      cases h : (v'.scheduler.life i).state <;> rw [h] at state <;> first | cases state; done | simp
    · rw [← length_fired whole, ← length_fired r, ← (view_eq_some hy).2.2, ← (view_eq_some hx).2.2, rests.2]
  · intro z v₂ below top last h₂
    exact executing_of_renewal top last h₂

/-- A session with one repeating task that is due, and a round at whose clock reading number `after` an interrupt stops
the task. -/
def stopAt (after : Nat) : List (Nat × Op) :=
  [(0, .declare), (0, .init), (0, .configure (.slot 0) 0 10 true), (0, .start (.slot 0)), (0, .advance 10),
    (0, .hook .now after [.stop (.slot 0)]), (0, .tick)]

/-- One scheduler with one slot, and a handler that does nothing. -/
def oneSlot : Setup := ⟨[⟨1, 0, [], []⟩], false, [], [[]], 5, false⟩

/-- What is in progress when an interrupt stops a task that a round looks at. -/
def stopInRound : List Act :=
  [.report "stop", .block none [], .interrupts .now [], .reading (.due 0 ⟨0, 10⟩), .walking none none, .round, .ticking]

/-- An interrupt stops the task while a round looks at the clock for it. The round does not dispatch it any more. -/
theorem stop_holds_in_round : ∃ (x y : Moment) (v v' : View), x.view 0 = some v ∧
    v.acts.head? = some (.perform none (.stop (.slot 0))) ∧ (v.scheduler.life 0).state = .active ∧
    y.view 0 = some v' ∧ v'.acts = [] ∧
    ((v'.scheduler.life 0).state = .stopped ∨ (v'.scheduler.life 0).state = .uninit) ∧
    y.machine.world.invocations 0 0 = x.machine.world.invocations 0 0 := by
  let at' := fun n => ((initial oneSlot).steps n (stopAt 0)).1
  have called : ((at' 37).view 0).map (·.acts) = some (.perform none (.stop (.slot 0)) :: stopInRound) := by rfl
  have stopped : ((at' 38).view 0).map (·.acts) = some (.interrupts .lock [] :: .locked (.forget 0) :: stopInRound) := by
    rfl
  have ended : ((at' 53).view 0).map (·.acts) = some [] := by rfl
  have waits : ((at' 37).view 0).map (fun v => (v.scheduler.life 0).state) = some .active := by decide +kernel
  obtain ⟨v, hv, acts⟩ := Option.map_eq_some_iff.1 called
  obtain ⟨v₁, hv₁, acts₁⟩ := Option.map_eq_some_iff.1 stopped
  obtain ⟨v', hv', idle⟩ := Option.map_eq_some_iff.1 ended
  rw [hv, Option.map_some, Option.some.injEq] at waits
  have first : Run (fun _ => True) (initial oneSlot) (at' 37) := run_steps (by decide +kernel)
  have later : Run (fun z => ∀ v, z.view 0 = some v → ¬v.Restarts 0) (at' 38) (at' (38 + 15)) :=
    run_steps_add (P := fun z => ∀ v ∈ z.view 0, ¬v.Restarts 0) (by decide +kernel) (by decide +kernel)
  have holds := (stop_holds_unless_renewed first hv acts rfl waits (by simp [stopInRound])
    (next_steps (by decide +kernel)) hv₁ acts₁ later hv').1 (by simp [stopInRound])
  exact ⟨_, _, v, v', hv, by rw [acts]; rfl, waits, hv', idle, holds⟩

/-- An interrupt stops the task while a round reads the clock for its next interval. The handler is invoked all the same,
and the task waits for its next interval afterwards. -/
theorem stop_lost_of_renewal : ∃ (x x₁ y : Moment) (v v' : View),
    Run (fun z => Confined Op.calm z.machine.stack) (initial oneSlot) x ∧ x.view 0 = some v ∧
    v.acts.head? = some (.perform none (.stop (.slot 0))) ∧ (v.scheduler.life 0).state = .active ∧ x.Next x₁ ∧
    Run (fun z => Confined Op.calm z.machine.stack ∧ ∀ v ∈ z.view 0, ¬v.Restarts 0) x₁ y ∧ y.view 0 = some v' ∧
    v'.acts = [] ∧ (v'.scheduler.life 0).state = .active ∧
    y.machine.world.invocations 0 0 = x.machine.world.invocations 0 0 + 1 := by
  let at' := fun n => ((initial oneSlot).steps n (stopAt 1)).1
  have called : ((at' 40).view 0).map (·.acts.head?) = some (some (.perform none (.stop (.slot 0)))) := by rfl
  have waits : ((at' 40).view 0).map (fun v => (v.scheduler.life 0).state) = some .active := by decide +kernel
  have ended : ((at' 60).view 0).map (·.acts) = some [] := by rfl
  have again : ((at' 60).view 0).map (fun v => (v.scheduler.life 0).state) = some .active := by decide +kernel
  obtain ⟨v, hv, act⟩ := Option.map_eq_some_iff.1 called
  obtain ⟨v', hv', idle⟩ := Option.map_eq_some_iff.1 ended
  rw [hv, Option.map_some, Option.some.injEq] at waits
  rw [hv', Option.map_some, Option.some.injEq] at again
  have first : Run (fun z => Confined Op.calm z.machine.stack) (initial oneSlot) (at' 40) := run_steps (by decide +kernel)
  have later : Run (fun z => Confined Op.calm z.machine.stack ∧ ∀ v ∈ z.view 0, ¬v.Restarts 0) (at' 41)
      (at' (41 + 19)) := run_steps_add (by decide +kernel) (by decide +kernel)
  exact ⟨_, _, _, v, v', first, hv, act, waits, next_steps (by decide +kernel), later, hv', idle, again, by decide +kernel⟩

end Moment

end TimedTasks
