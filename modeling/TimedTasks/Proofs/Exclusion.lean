import TimedTasks.Proofs.Record

/-!
# One round at a time

A handler may call its own scheduler, and an interrupt may come in the middle of a round and call it too. What keeps
them apart is that every round of a scheduler lies on the one loop that asked for it, and that a new loop is refused
while a round is in progress. So of one scheduler at most one round, one dispatch and one handler are ever in progress,
the states of the tasks say which, and whoever calls for another round, for a new session or for a change of the task
whose handler runs is refused (`Moment.dispatch_exclusive`). Interrupts of every kind are allowed.
-/

namespace TimedTasks

namespace Act

/-- The act is a round in progress. -/
def isRound : Act → Bool
  | round => true
  | _ => false

/-- The act ends the dispatch of a task: the state of the task says that its handler is to run, runs or ran. -/
def settles : Act → Bool
  | settle _ => true
  | _ => false

/-- The act is a handler in progress. -/
def handles : Act → Bool
  | handling .. => true
  | _ => false

end Act

namespace Column

variable {p q : Act → Bool} {a : Act} {acts : List Act}

/-- If every act of one kind lies right above one of another kind, there are no more of the first. -/
theorem countP_le_countP (sits : ∀ a b : Act, p a → a.Sits b → q b) (calls : ∀ a : Act, p a → a.calls = false)
    (h : Column acts) : acts.countP p ≤ acts.countP q := by
  -- An act is counted with the one below it, so the topmost of the second kind is never needed.
  have shifted : ∀ {a rest}, Column (a :: rest) → (a :: rest).countP p ≤ rest.countP q := by
    intro a rest col
    induction rest generalizing a with
    | nil =>
      have bottom : p a = false := Bool.eq_false_iff.2 fun pa => by
        have calls := calls a pa
        rw [show a.calls = true from col] at calls
        cases calls
      simp [bottom]
    | cons b rest ih =>
      have counted := ih col.2
      rw [List.countP_cons, List.countP_cons (p := q)]
      by_cases pa : p a = true
      · rw [if_pos pa, if_pos (sits a b pa col.1)]
        omega
      · rw [if_neg pa]
        omega
  cases acts with
  | nil => simp
  | cons a rest =>
    have counted := shifted h
    rw [List.countP_cons (p := q)]
    omega

theorem handles_le_settles (h : Column acts) : acts.countP Act.handles ≤ acts.countP Act.settles := by
  refine h.countP_le_countP (fun a b handles sits => ?_) fun a handles => ?_
  · cases a <;> first | cases handles; done | (cases sits; rfl)
  · cases a <;> first | cases handles; done | rfl

theorem settles_le_rounds (h : Column acts) : acts.countP Act.settles ≤ acts.countP Act.isRound := by
  have settles : acts.countP Act.settles ≤ acts.countP Act.walks := by
    refine h.countP_le_countP (fun a b settles sits => ?_) fun a settles => ?_
    · cases a <;> first | cases settles; done | exact sits
    · cases a <;> first | cases settles; done | rfl
  have walks : acts.countP Act.walks ≤ acts.countP Act.isRound := by
    refine h.countP_le_countP (fun a b walks sits => ?_) fun a walks => ?_
    · cases a <;> first | cases walks; done | (cases sits; rfl)
    · cases a <;> first | cases walks; done | rfl
  exact Nat.le_trans settles walks

/-- The loop that asked for a round has no other round below it. -/
theorem rounds_le_one (h : Column acts) (lay : Layered acts) : acts.countP Act.isRound ≤ 1 := by
  induction acts with
  | nil => simp
  | cons a rest ih =>
    have below := ih h.tail lay.2
    cases top : a.isRound with
    | false => simpa [top] using below
    | true =>
      have round : a = .round := by cases a <;> first | rfl | cases top
      subst round
      match rest, h, lay with
      | [], h, _ => cases h
      | b :: rest, h, lay =>
        have loops : b.loops := h.1
        have alone : Act.round ∉ b :: rest := by
          have rests := lay.2.1
          cases b <;> first | cases loops; done | simpa using (show Act.round ∉ rest from rests)
        have none : (b :: rest).countP Act.isRound = 0 := by
          rw [List.countP_eq_zero]
          intro c m isRound
          have round : c = .round := by cases c <;> first | rfl | cases isRound
          exact alone (round ▸ m)
        rw [List.countP_cons, none, Act.isRound]
        simp

end Column

/-! ## What is in progress, and what the states say -/

theorem TaskState.inHandler_iff {s : TaskState} : s.inHandler = true ↔ s = .executing ∨ s = .stopping := by
  cases s <;> simp [inHandler]

/-- Of the scheduler of a device, at most one round and one handler are in progress, and the states of its tasks say
whose. -/
structure View.Exclusive (v : View) : Prop where
  rounds : v.acts.countP Act.isRound ≤ 1
  dispatches : v.acts.countP Act.settles ≤ 1
  handlers : v.acts.countP Act.handles ≤ 1
  /-- A task is `executing` or `stopping` just while a dispatch of it is past its first change of state and has the last
  one before it. -/
  busy : ∀ i, (v.scheduler.life i).state = .executing ∨ (v.scheduler.life i).state = .stopping ↔ .settle i ∈ v.acts
  handling : ∀ i k p, .handling i k p ∈ v.acts →
    (v.scheduler.life i).state = .executing ∨ (v.scheduler.life i).state = .stopping
  /-- When the handler is back, its task is in one of the two states that the end of a dispatch is made for. -/
  settled : ∀ i rest, v.acts = .settle i :: rest →
    (v.scheduler.life i).state = .executing ∨ (v.scheduler.life i).state = .stopping
  /-- Neither the beginning nor the end of a session finds a task whose handler is in progress. -/
  reset : ∀ act rest, v.acts = act :: rest → act.resets → ∀ i, .settle i ∉ v.acts
  /-- While nothing is in progress, no task is in the middle of a dispatch. -/
  idle : v.acts = [] → ∀ i, (v.scheduler.life i).state = .uninit ∨ (v.scheduler.life i).state = .stopped ∨
    (v.scheduler.life i).state = .active

theorem Column.settle_of_handling {acts : List Act} {i k : Nat} {p : Payload} (h : Column acts)
    (m : Act.handling i k p ∈ acts) : Act.settle i ∈ acts := by
  induction acts with
  | nil => cases m
  | cons a acts ih =>
    rcases List.mem_cons.1 m with rfl | m
    · match acts, h with
      | [], h => cases h
      | b :: acts, h =>
        have settle : b = .settle i := h.1
        simp [settle]
    · exact List.mem_cons_of_mem _ (ih h.tail m)

theorem View.Sound.exclusive {v : View} (h : v.Sound) : v.Exclusive := by
  have busy : ∀ i, (v.scheduler.life i).state = .executing ∨ (v.scheduler.life i).state = .stopping ↔
      .settle i ∈ v.acts := fun i => TaskState.inHandler_iff.symm.trans (h.handling i)
  have rounds := h.column.rounds_le_one h.layered
  have dispatches := Nat.le_trans h.column.settles_le_rounds rounds
  refine ⟨rounds, dispatches, Nat.le_trans h.column.handles_le_settles dispatches, busy, fun i k p m => ?_,
    fun i rest acts => ?_, fun act rest acts resets i m => ?_, fun acts i => ?_⟩
  · exact (busy i).2 (h.column.settle_of_handling m)
  · exact (busy i).2 (acts ▸ List.mem_cons_self)
  · have sound : TimedTasks.Sound v.scheduler (act :: rest) := acts ▸ h
    have none : Act.round ∉ act :: rest := by
      have rests := sound.layered.1
      cases act with
      | locked s => cases s <;> first | cases resets; done | simpa using (show Act.round ∉ rest from rests)
      | _ => cases resets
    exact none (sound.column.round_of_settle (acts ▸ m))
  · have none : (v.scheduler.life i).state.inHandler = false :=
      Bool.eq_false_iff.2 fun b => by
        have m := (h.handling i).1 b
        rw [acts] at m
        cases m
    cases state : (v.scheduler.life i).state <;> rw [state] at none <;> first | cases none; done | simp

/-! ## What is refused -/

/-- The act calls for something that the round or the dispatch in progress does not allow, and is to be refused with an
error. -/
inductive Unwelcome (σ : Scheduler) (acts : List Act) : Act → Error → Prop
  | run {self} : .round ∈ acts → Unwelcome σ acts (.perform self .run) .busy
  | tick {self} : .round ∈ acts → σ.runState = .active → Unwelcome σ acts (.perform self .tick) .busy
  /-- The round in progress is the last one of its session. -/
  | tickLate {self} : .round ∈ acts → σ.runState ≠ .active →
      Unwelcome σ acts (.perform self .tick) .notInitialized
  | init {self} : .round ∈ acts → Unwelcome σ acts (.perform self .init) .alreadyRunning
  | configure {i handler ms repeats} : .settle i ∈ acts →
      Unwelcome σ acts (.locked (.configure i handler ms repeats)) (.invalidState (σ.life i).state)
  | attach {i data} : .settle i ∈ acts →
      Unwelcome σ acts (.locked (.attach i data)) (.invalidState (σ.life i).state)
  | write {i data} : .settle i ∈ acts →
      Unwelcome σ acts (.locked (.write i data)) (.invalidState (σ.life i).state)

theorem Arena.slot_of_configured {a : Arena} {i : Nat} (h : (a.life i).state ≠ .uninit) :
    ∃ t, a.slot i = .ok t ∧ a.life i = t.life := by
  cases found : a[i]? with
  | none => simp [life, found, Life.blank] at h
  | some t =>
    have slot : a.slot i = .ok t := slot_eq_ok_iff.2 found
    exact ⟨t, slot, life_of_slot slot⟩

/-- The refusal of an unwelcome act leaves the device as it is. -/
theorem Unwelcome.refused {w : World} {δ : Device} {d : Nat} {act : Act} {e : Error} {acts : List Act}
    (h : Unwelcome δ.scheduler acts act e) (sound : Sound δ.scheduler acts) :
    w.step d δ act = .ok (w.answering d δ (.failed e)) := by
  have inRound : Act.round ∈ acts → δ.scheduler.inRound = true := sound.inRound.2
  have slot : ∀ i, .settle i ∈ acts → ∃ t, δ.scheduler.arena.slot i = .ok t ∧
      (δ.scheduler.life i).state = t.state ∧ t.state.inHandler = true := by
    intro i m
    have busy := (sound.handling i).2 m
    obtain ⟨t, slot, life⟩ := Arena.slot_of_configured (a := δ.scheduler.arena) (i := i) fun u => by
      rw [Scheduler.life, u] at busy
      cases busy
    have state : (δ.scheduler.life i).state = t.state := congrArg Life.state life
    exact ⟨t, slot, state, state ▸ busy⟩
  cases h with
  | run m => simp [World.step, World.perform, World.run, sound.session m, inRound m]
  | tick m active => simp [World.step, World.perform, World.tick, active, inRound m]
  | tickLate m late => simp [World.step, World.perform, World.tick, late]
  | init m => simp [World.step, World.perform, World.openSession, sound.session m]
  | @configure i _ _ _ m =>
    obtain ⟨t, found, state, busy⟩ := slot i m
    simp [World.step, World.work, Scheduler.configure, found, bind, Except.bind, busy, state]
  | @attach i _ m =>
    obtain ⟨t, found, state, busy⟩ := slot i m
    have running : t.state ≠ .stopped := fun s => by rw [s] at busy; cases busy
    simp [World.step, World.work, Scheduler.attach, found, bind, Except.bind, running, state]
  | @write i _ m =>
    obtain ⟨t, found, state, busy⟩ := slot i m
    have running : t.state ≠ .stopped := fun s => by rw [s] at busy; cases busy
    simp [World.step, World.work, Scheduler.write, found, bind, Except.bind, running, state]

/-- A step whose frame answers and leaves its device as it is. -/
theorem Machine.step_of_answering {m : Machine} {d : Nat} {δ : Device} {act : Act} {rest : List Frame} {a : Answer}
    (top : m.stack = ⟨d, act⟩ :: rest) (found : m.world.devices[d]? = some δ)
    (h : m.world.step d δ act = .ok (m.world.answering d δ a)) :
    m.step = .next ⟨m.world, ⟨d, .answered a⟩ :: rest⟩ := by
  have same : m.world.put d δ = m.world := by rw [World.put, show m.world.devices.setIfInBounds d δ = _ from put_same found]
  have works : onto rest (m.world.device d >>= fun δ => m.world.step d δ act) =
      .next ⟨m.world, ⟨d, .answered a⟩ :: rest⟩ := by
    rw [World.device_eq_ok_iff.2 found]
    show onto rest (m.world.step d δ act) = _
    rw [h, onto, World.answering, World.leaving, same]
    rfl
  unfold Machine.step
  rw [top]
  cases act with
  | answered b => cases h
  | deadline ms => cases h
  | _ => exact works

namespace Moment

variable {P : Moment → Prop} {s : Setup} {y : Moment} {d : Nat} {v : View}

/-- In every run, whatever handlers and interrupts call: of each scheduler at most one round and one handler are in
progress at any moment, tasks are `executing` or `stopping` just while they are dispatched, no session begins or ends
meanwhile, and whatever is called against this is refused at once. -/
theorem dispatch_exclusive (r : Run P (initial s) y) (h : y.view d = some v) :
    v.Exclusive ∧ ∀ act rest e, y.machine.stack = ⟨d, act⟩ :: rest → Unwelcome v.scheduler v.acts act e →
      y.machine.step = .next ⟨y.machine.world, ⟨d, .answered (.failed e)⟩ :: rest⟩ := by
  have sound := sound r h
  refine ⟨sound.exclusive, fun act rest e top unwelcome => ?_⟩
  exact Machine.step_of_answering top (view_eq_some h).1 (unwelcome.refused sound)

/-- The handler of a task asks its own scheduler for another run of rounds. -/
def asksForRun (v : View) : Bool :=
  match v.acts with
  | .perform (some _) .run :: rest => rest.any Act.isRound
  | _ => false

/-- A handler that asks for another run of rounds is refused. -/
theorem dispatch_exclusive_of_handler : ∃ (y : Moment) (v : View) (i : Nat) (rest : List Frame), y.view 0 = some v ∧
    v.Exclusive ∧ y.machine.stack = ⟨0, .perform (some i) .run⟩ :: rest ∧
    y.machine.step = .next ⟨y.machine.world, ⟨0, .answered (.failed .busy)⟩ :: rest⟩ := by
  obtain ⟨y, v, r, h, asks⟩ := exists_of_walk (initial ⟨[⟨1, 0, [], []⟩], false, [], [[[.run]]], 5, false⟩)
    [(0, .declare), (0, .init), (0, .configure (.slot 0) 0 10 true), (0, .start (.slot 0)), (0, .advance 10), (0, .tick)]
    40 0 asksForRun (P := fun _ => True) (by decide +kernel)
  unfold asksForRun at asks
  split at asks
  · rename_i i rest acts
    obtain ⟨below, top, -⟩ := (stacked_of_run r).top ((view_eq_some h).2.1.symm.trans acts) rfl
    have round : Act.round ∈ v.acts := by
      obtain ⟨a, m, isRound⟩ := List.any_eq_true.1 asks
      have same : a = .round := by cases a <;> first | rfl | cases isRound
      exact acts ▸ List.mem_cons_of_mem _ (same ▸ m)
    obtain ⟨exclusive, refused⟩ := dispatch_exclusive r h
    exact ⟨y, v, i, below, h, exclusive, top, refused _ _ _ top (.run round)⟩
  · cases asks

end Moment

end TimedTasks
