import TimedTasks.Proofs.Within

/-!
# What lies beside the schedulers

Most frames look at their device and at nothing else of the world. `World.step_beside` says so once and for all: when
other pools and another record are put beside the devices, the step of such a frame (`Act.silent`) is the same. So it
neither depends on the bytes that lie in pools, nor changes them, nor records anything.

The frames that do look further are few: those that begin and end sessions, invoke handlers, take interrupts, record
answers, sleep, or work on the slots and the bytes of pools.
-/

namespace TimedTasks

/-- The world with other pools and another record. -/
def World.beside (w : World) (ps : Pools) (t : Array Event) : World := { w with pools := ps, trace := t }

/-- The move with other pools and another record. -/
def Move.beside (m : Move) (ps : Pools) (t : Array Event) : Move := ⟨m.world.beside ps t, m.frames⟩

/-- The operation begins with looks at its scheduler and its board only, and is not recorded. -/
def Op.silent : Op → Bool
  | init | run | alloc _ | pool _ => false
  | _ => true

namespace Act

/-- The act looks at its device only, and is not recorded. -/
def silent : Act → Bool
  | perform _ op => op.silent
  | interrupts _ (_ :: _) => false
  | locked (.attach ..) | locked (.write ..) | locked .beginSession | locked (.fetch _) | locked .endSession
  | locked (.sessionOver _) | locked (.enroll _) | locked (.claim ..) => false
  | _ => true

end Act

namespace World

variable {w : World} {d i : Nat} {δ : Device} {ps : Pools} {t : Array Event} {row : TaskRow}

/-- The last question of a query looks at the task and at the board. -/
theorem askExpired_beside : (w.beside ps t).askExpired d δ i row = (·.beside ps t) <$> w.askExpired d δ i row := by
  unfold askExpired
  rcases δ.scheduler.lookup i with e | _ | u
  · rfl
  · rfl
  · show (if u.state = .active then _ else _) = _ <$> (if u.state = .active then _ else _)
    split <;> rfl

/-- So does the one before it. -/
theorem askRemaining_beside :
    (w.beside ps t).askRemaining d δ i row = (·.beside ps t) <$> w.askRemaining d δ i row := by
  unfold askRemaining
  rcases δ.scheduler.lookup i with e | _ | u
  · rfl
  · exact askExpired_beside
  · show (if u.state.armed = true then _ else _) = _ <$> (if u.state.armed = true then _ else _)
    split
    · rfl
    · exact askExpired_beside

/-- And the first one, of which the other two are the continuation. -/
theorem askElapsed_beside : (w.beside ps t).askElapsed d δ i row = (·.beside ps t) <$> w.askElapsed d δ i row := by
  unfold askElapsed
  rcases δ.scheduler.lookup i with e | _ | u
  · rfl
  · exact askRemaining_beside
  · show (if u.state = .uninit then _ else _) = _ <$> (if u.state = .uninit then _ else _)
    split
    · exact askRemaining_beside
    · rfl

/-- Whether a slot was handed out is known to its scheduler. -/
theorem lockedOn_beside {s : Section} :
    (w.beside ps t).lockedOn d δ i s = (·.beside ps t) <$> w.lockedOn d δ i s := by
  unfold lockedOn
  rcases δ.scheduler.lookup i with e | _ | u <;> rfl

/-- A start is settled by the state of its task. -/
theorem start_beside : (w.beside ps t).start d δ i = (·.beside ps t) <$> w.start d δ i := by
  unfold start
  rcases δ.scheduler.startState i with e | e | next <;> rfl

/-- A stop disarms its task in the scheduler. -/
theorem stop_beside : (w.beside ps t).stop d δ i = (·.beside ps t) <$> w.stop d δ i := by
  unfold stop
  rcases δ.scheduler.stop i with e | e | σ <;> rfl

theorem update_beside {ms : UInt32} : (w.beside ps t).update d δ i ms = (·.beside ps t) <$> w.update d δ i ms := by
  unfold update
  rcases δ.scheduler.relength i ms with e | e | σ
  · rfl
  · rfl
  · exact start_beside

/-- A query up to its lock is about the scheduler only; the bytes are looked at under the lock. -/
theorem query_beside : (w.beside ps t).query d δ i = (·.beside ps t) <$> w.query d δ i := by
  unfold query
  rcases δ.scheduler.lookup i with e | _ | u <;> rfl

theorem tick_beside : (w.beside ps t).tick d δ = (w.tick d δ).beside ps t := by
  unfold tick
  split
  · rfl
  · split <;> rfl

/-- An operation that is not recorded begins with a look at its device alone. -/
theorem perform_beside {self : Option Nat} {op : Op} (h : op.silent) :
    (w.beside ps t).perform d δ self op = (·.beside ps t) <$> w.perform d δ self op := by
  cases op with
  | init | run | alloc | pool => cases h
  | declare | shutdown | info | capacity | advance | setNow | hook | on => rfl
  | configure | attach | write => exact bind_of_same fun i _ => lockedOn_beside
  | start task => exact bind_of_same fun i _ => start_beside
  | stop task => exact bind_of_same fun i _ => stop_beside
  | update task ms => exact bind_of_same fun i _ => update_beside
  | query task => exact bind_of_same fun i _ => query_beside
  | task task =>
    refine bind_of_same fun i _ => ?_
    rcases δ.scheduler.arena[i]? with _ | u <;> rfl
  | tick => exact congrArg Except.ok tick_beside

/-- What a round does with the task of its cache is decided by the time that is left. -/
theorem resumeCached_beside {left : UInt32} :
    (w.beside ps t).resumeCached d δ i left = (w.resumeCached d δ i left).beside ps t := by
  unfold resumeCached
  split
  · split <;> rfl
  · rfl

/-- What becomes of a clock reading does not depend on pools, for every kind of reading. -/
theorem resume_beside {now : UInt32} {r : Reading} :
    (w.beside ps t).resume d δ now r = (·.beside ps t) <$> w.resume d δ now r := by
  cases r with
  | start i next => exact bind_of_same fun σ _ => rfl
  | cached i timing => exact congrArg Except.ok resumeCached_beside
  | due i timing => rfl
  | scan => exact bind_of_same fun best _ => rfl
  | renew i => exact bind_of_same fun σ _ => rfl
  | elapsed i timing row => exact askRemaining_beside
  | remaining i timing row => exact askExpired_beside
  | expired i timing row => rfl
  | info runState => exact bind_of_same fun row _ => rfl

/-- Nor does the work under the lock, but for the sections on bytes, slots of pools, sessions and handlers. -/
theorem work_beside {s : Section} (h : (Act.locked s).silent) :
    (w.beside ps t).work d δ s = (·.beside ps t) <$> w.work d δ s := by
  cases s with
  | declare =>
    unfold work
    rcases δ.scheduler.takeSlots 1 with _ | ⟨i, σ⟩ <;> rfl
  | configure i handler ms repeats =>
    refine bind_of_same fun r _ => ?_
    rcases r with e | σ <;> rfl
  | noteArmed i now => exact bind_of_same fun σ _ => rfl
  | forget | shutdown => rfl
  | dataLength i row => exact bind_of_same fun u _ => askElapsed_beside
  | adopt best now => exact bind_of_same fun r _ => rfl
  | attach | write | beginSession | fetch | endSession | sessionOver | enroll | claim => cases h

theorem checkCache_beside : (w.beside ps t).checkCache d δ = (·.beside ps t) <$> w.checkCache d δ := by
  unfold checkCache
  rcases δ.scheduler.cache.soonest with _ | i
  · rfl
  · refine bind_of_same fun u _ => ?_
    split <;> rfl

/-- The walk along the queue follows the links of the arena. -/
theorem walk_beside {skip cursor : Option Nat} :
    (w.beside ps t).walk d δ skip cursor = (·.beside ps t) <$> w.walk d δ skip cursor := by
  cases cursor with
  | none => rfl
  | some i =>
    refine bind_of_same fun u _ => ?_
    split <;> rfl

theorem dispatch_beside : (w.beside ps t).dispatch d δ i = (·.beside ps t) <$> w.dispatch d δ i := by
  refine bind_of_same fun u _ => ?_
  split
  · split
    · rfl
    · exact bind_of_same fun σ _ => rfl
  · rfl

/-- The look at a slot of a pool, before the lock, is a look at the arena. -/
theorem claiming_beside {left : Nat} : (w.beside ps t).claiming d δ i left = (w.claiming d δ i left).beside ps t := by
  cases left with
  | zero => rfl
  | succ left =>
    rw [claiming, claiming]
    rcases δ.scheduler.arena[i]? with _ | u
    · rfl
    · by_cases allocated : u.allocated = true
      · simp only [allocated, if_true]; rfl
      · simp only [allocated]; rfl

/-- How often handlers ran is neither in the pools nor in the record. -/
theorem countRun_beside : (w.beside ps t).countRun d δ = (w.countRun d δ).beside ps t := by
  by_cases last : w.limit ≤ w.runs + 1
  · simp only [countRun, beside, last, if_true]; rfl
  · simp only [countRun, beside, last, if_false]; rfl

/-- With other things beside the devices, a frame that looks at its device only does the same. -/
theorem step_beside {act : Act} (h : act.silent) :
    (w.beside ps t).step d δ act = (·.beside ps t) <$> w.step d δ act := by
  cases act with
  | perform self op => exact perform_beside h
  | block self ops => cases ops <;> rfl
  | interrupts call bodies =>
    cases bodies with
    | nil => rfl
    | cons => cases h
  | reading r => exact resume_beside
  | locked s => exact work_beside h
  | opening | closing | sleeping | survey | report | discard | ticking | round | answered | deadline => rfl
  | running =>
    refine congrArg Except.ok ?_
    show World.loop _ d δ = (World.loop w d δ).beside ps t
    unfold loop
    split <;> rfl
  | checkCache => exact checkCache_beside
  | walking skip cursor => exact walk_beside
  | dispatch i => exact dispatch_beside
  | handling i k p => exact congrArg Except.ok countRun_beside
  | settle i => exact bind_of_same fun σ _ => rfl
  | claiming i left => exact congrArg Except.ok claiming_beside

/-- Such a frame records nothing, and leaves the pools as they are. -/
theorem step_leaves_beside {act : Act} {move : Move} (h : act.silent) (step : w.step d δ act = .ok move) :
    move.world.pools = w.pools ∧ move.world.trace = w.trace := by
  have same : w.step d δ act = (·.beside w.pools w.trace) <$> w.step d δ act := step_beside h
  rw [step] at same
  have moved : move = move.beside w.pools w.trace := Except.ok.inj same
  constructor
  · exact congrArg (·.world.pools) moved
  · exact congrArg (·.world.trace) moved

end World

end TimedTasks
