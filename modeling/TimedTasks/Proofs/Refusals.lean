import TimedTasks.Proofs.Search

/-!
# Operations that are refused

What an operation is refused with can be said of the moment at which it begins (`Moment.refusal`): it is about a slot that
was never handed out, or the state of its task, of the session or of the round does not allow it. The checks lie at
different places of the operations, before the lock and under it. Followed step by step (`Machine.Concludes`), each of them
comes down to this, and a refusal leaves everything as it was.
-/

namespace TimedTasks

/-! ## The specification -/

/-- What an operation on a task is refused with: the task was never handed out, or something is wrong with it. -/
def Scheduler.refusal (σ : Scheduler) (self : Option Nat) (ref : TaskRef) (wrong : Nat → Task → Option Error) :
    Option Error :=
  match ref.resolve self with
  | .ok i => if i < σ.declared then σ.arena[i]?.bind (wrong i) else some (.invalidTask ⟨i⟩)
  | .error _ => none

/-- The slot is one of a pool. -/
def Holding.pooled (l : List Holding) (d i : Nat) : Bool :=
  l.any fun h => h.device = d && h.first ≤ i && i < h.first + h.count && h.pool.isSome

namespace Moment

/-- A round of the device is in progress. -/
def rounds (x : Moment) (d : Nat) : Bool :=
  x.machine.stack.any fun f => f.device = d && match f.act with | .round => true | _ => false

/-- What an operation on device `d`, with scheduler `σ`, is refused with. -/
def refusal (x : Moment) (l : List Holding) (d : Nat) (σ : Scheduler) (self : Option Nat) : Op → Option Error
  | .configure ref .. => σ.refusal self ref fun _ t =>
    if t.state = .executing ∨ t.state = .stopping then some (.invalidState t.state) else none
  | .start ref | .update ref _ | .stop ref => σ.refusal self ref fun _ t =>
    if t.state = .uninit then some (.invalidState t.state) else none
  | .attach ref _ => σ.refusal self ref fun _ t => if t.state = .stopped then none else some (.invalidState t.state)
  | .write ref _ => σ.refusal self ref fun i t =>
    if t.state = .stopped then if Holding.pooled l d i then none else some .notBuffered
    else some (.invalidState t.state)
  | .init => if σ.runState = .stopped then none else some .alreadyRunning
  | .run => if σ.runState = .stopped then some .notInitialized else if x.rounds d then some .busy else none
  | .tick => if σ.runState = .active then if x.rounds d then some .busy else none else some .notInitialized
  | _ => none

end Moment

/-- The operation can be refused. -/
def Op.refusable : Op → Bool
  | configure .. | start _ | update .. | stop _ | attach .. | write .. | init | run | tick => true
  | _ => false

/-- The task that such an operation is about. -/
def Op.ref? : Op → Option TaskRef
  | configure ref .. | start ref | update ref _ | stop ref | attach ref _ | write ref _ => some ref
  | _ => none

/-- The operation is answered as it is to be: with the refusal, and the world is as it was but for interrupts that have
come closer, or, without one, with anything else. -/
def Answer.Heeds (refusal : Option Error) (w : World) (a : Answer) (w' : World) : Prop :=
  match refusal with
  | some e => a = .failed e ∧ w'.disarmed = w.disarmed
  | none => ∀ e, a ≠ .failed e

namespace Answer.Heeds

variable {w w' : World} {o : Option Error} {a : Answer}

/-- An operation fails just when it is to be refused, with just that error. -/
theorem failed_iff (h : Heeds o w a w') (e : Error) : a = .failed e ↔ o = some e := by
  cases o with
  | none => exact ⟨fun failed => absurd failed (h e), fun none => nomatch none⟩
  | some e' =>
    obtain ⟨rfl, -⟩ := h
    exact ⟨fun same => congrArg some (Answer.failed.inj same), fun same => congrArg Answer.failed (Option.some.inj same)⟩

/-- A refusal leaves the world as it was, but for interrupts that were armed. -/
theorem spares {e : Error} (h : Heeds o w (.failed e) w') : w'.disarmed = w.disarmed := by
  cases o with
  | none => exact absurd rfl (h e)
  | some => exact h.2

end Answer.Heeds

/-! ## Operations on a task -/

namespace Scheduler

variable {σ : Scheduler} {self : Option Nat} {ref : TaskRef} {i : Nat} {wrong : Nat → Task → Option Error}

/-- A slot that was handed out is found. -/
theorem lookup_of_lt {t : Task} (bound : i < σ.declared) (slot : σ.arena[i]? = some t) : σ.lookup i = .ok (some t) := by
  rw [lookup, if_pos bound, Arena.slot_eq_ok_iff.2 slot]
  rfl

/-- One that was not is missing. -/
theorem lookup_of_le (beyond : σ.declared ≤ i) : σ.lookup i = .ok none := by
  rw [lookup, if_neg (Nat.not_lt.2 beyond)]

/-- An operation on a slot that was not handed out is refused as being about no task. -/
theorem refusal_of_le (meant : ref.resolve self = .ok i) (beyond : σ.declared ≤ i) :
    σ.refusal self ref wrong = some (.invalidTask ⟨i⟩) := by
  rw [refusal, meant]
  exact if_neg (Nat.not_lt.2 beyond)

theorem refusal_of_lt {t : Task} (meant : ref.resolve self = .ok i) (bound : i < σ.declared) (slot : σ.arena[i]? = some t) :
    σ.refusal self ref wrong = wrong i t := by
  rw [refusal, meant]
  dsimp only
  rw [if_pos bound, slot, Option.bind_some]

end Scheduler

section

variable {w : World} {d i : Nat} {δ : Device} {self : Option Nat} {ref : TaskRef} {below : List Frame}
  {o : Option Error}

/-- The call concludes as the refusal says, if there is one, and with something else if there is none. -/
abbrev World.Decides (w : World) (d : Nat) (δ : Device) (self : Option Nat) (op : Op) (below : List Frame)
    (refusal : Option Error) : Prop :=
  Machine.Concludes d below (δ.board.interrupts ≠ []) (Answer.Heeds refusal w) ⟨w, ⟨d, .perform self op⟩ :: below⟩

namespace World

/-- What is refused at once leaves everything as it is. -/
theorem decides_refusal {op : Op} {e : Error} (found : w.devices[d]? = some δ)
    (does : w.perform d δ self op = .ok (w.answering d δ (.failed e))) (spec : o = some e) : w.Decides d δ self op below o := by
  subst spec
  refine .answer rfl found does ⟨rfl, ?_⟩
  rw [put_self found]

/-- Work under the lock on a task is refused there or done there, if the task was handed out. -/
theorem decides_lockedOn {op : Op} {s : Section} {wrong : Nat → Task → Option Error} (found : w.devices[d]? = some δ)
    (steady : δ.scheduler.declared ≤ δ.scheduler.arena.size) (meant : ref.resolve self = .ok i)
    (does : w.perform d δ self op = w.lockedOn d δ i s) (spec : o = δ.scheduler.refusal self ref wrong)
    (works : ∀ (b : Board) t, i < δ.scheduler.declared → δ.scheduler.arena[i]? = some t →
      match wrong i t with
      | some e => (w.put d (δ.withBoard b)).work d (δ.withBoard b) s =
          .ok ((w.put d (δ.withBoard b)).answering d (δ.withBoard b) (.failed e))
      | none => ∃ w' δ' a, (w.put d (δ.withBoard b)).work d (δ.withBoard b) s = .ok (World.answering w' d δ' a) ∧
          ∀ e, a ≠ .failed e) : w.Decides d δ self op below o := by
  rcases Nat.lt_or_ge i δ.scheduler.declared with bound | beyond
  · have slot : δ.scheduler.arena[i]? = some δ.scheduler.arena[i] := Array.getElem?_eq_getElem (by omega)
    have locked := works (δ.board.called .lock).1 _ bound slot
    have there := device_put (ε := δ.withBoard (δ.board.called .lock).1) found
    refine .call (ε := δ) (v := w) (a := .locked s) (b := .lock) rfl found found ?_ (fun armed => armed) ?_
    · show w.perform d δ self op = _
      rw [does, lockedOn, Scheduler.lookup_of_lt bound slot]
      rfl
    · rw [spec, Scheduler.refusal_of_lt meant bound slot]
      cases refused : wrong i δ.scheduler.arena[i] with
      | none =>
        rw [refused] at locked
        obtain ⟨w', δ', a, locked, right⟩ := locked
        exact .answer rfl there locked right
      | some e =>
        rw [refused] at locked
        refine .answer rfl there locked ⟨rfl, ?_⟩
        rw [put_self there, disarmed_put_called found]
  · refine decides_refusal found ?_ (spec.trans (Scheduler.refusal_of_le meant beyond))
    rw [does, lockedOn, Scheduler.lookup_of_le beyond]
    rfl

end World

/-! ## What is done under the lock -/

namespace Scheduler

variable {σ : Scheduler} {ps : Pools} {t : Task}

/-- A configuration is refused while the handler of the task is on the stack, and only then. -/
theorem configure_of_slot (handler : Nat) (ms : UInt32) (repeats : Bool) (steady : σ.Steady) (slot : σ.arena[i]? = some t) :
    if t.state = .executing ∨ t.state = .stopping then
      σ.configure i handler ms repeats = .ok (.error (.invalidState t.state))
    else ∃ σ', σ.configure i handler ms repeats = .ok (.ok σ') := by
  obtain ⟨r, hr⟩ : Succeeds (σ.configure i handler ms repeats) := configure_succeeds steady
    (Array.getElem?_eq_some_iff.1 slot).1
  have inHandler : t.state.inHandler = true ↔ t.state = .executing ∨ t.state = .stopping := by
    cases t.state <;> simp [TaskState.inHandler]
  have unfolded := hr
  rw [configure, Arena.slot_eq_ok_iff.2 slot] at unfolded
  simp only [bind, Except.bind, inHandler] at unfolded
  split
  · rename_i busy
    rw [if_pos busy] at unfolded
    rw [hr, ← unfolded]
  · rename_i idle
    cases r with
    | ok σ' => exact ⟨σ', hr⟩
    | error e =>
      have busy := World.inHandler_of_configure hr
      rw [life, Arena.life_of_slot (Arena.slot_eq_ok_iff.2 slot)] at busy
      exact absurd (inHandler.1 busy) idle

/-- Bytes can be attached to a stopped task only. -/
theorem attach_of_slot (data : List UInt8) (stored : σ.Stored ps) (slot : σ.arena[i]? = some t) :
    if t.state = .stopped then ∃ σ' ps', σ.attach ps i data = .ok (.ok (σ', ps'))
    else σ.attach ps i data = .ok (.error (.invalidState t.state)) := by
  obtain ⟨r, hr⟩ : Succeeds (σ.attach ps i data) := attach_succeeds stored (Array.getElem?_eq_some_iff.1 slot).1
  have unfolded := hr
  rw [attach, Arena.slot_eq_ok_iff.2 slot] at unfolded
  simp only [bind, Except.bind] at unfolded
  split
  · rename_i stopped
    rw [if_pos stopped] at unfolded
    cases r with
    | ok r => exact ⟨r.1, r.2, hr⟩
    | error e =>
      split at unfolded
      · split at unfolded <;> cases unfolded
      · split at unfolded
        · cases unfolded
        · split at unfolded <;> cases unfolded
  · rename_i other
    rw [if_neg other] at unfolded
    rw [hr, ← unfolded]

/-- And written only where there is a segment for them; the state is checked first. -/
theorem write_of_slot (data : List UInt8) (stored : σ.Stored ps) (slot : σ.arena[i]? = some t) :
    if t.state = .stopped then
      if t.payload.segment?.isSome then ∃ kept σ' ps', σ.write ps i data = .ok (.ok (kept, σ', ps'))
      else σ.write ps i data = .ok (.error .notBuffered)
    else σ.write ps i data = .ok (.error (.invalidState t.state)) := by
  obtain ⟨r, hr⟩ : Succeeds (σ.write ps i data) := write_succeeds stored (Array.getElem?_eq_some_iff.1 slot).1
  have unfolded := hr
  rw [write, Arena.slot_eq_ok_iff.2 slot] at unfolded
  simp only [bind, Except.bind] at unfolded
  split
  · rename_i stopped
    rw [if_pos stopped] at unfolded
    cases payload : t.payload with
    | attached bytes =>
      rw [payload] at unfolded
      rw [hr, ← unfolded]
      rfl
    | copied segment length =>
      rw [payload] at unfolded
      cases r with
      | ok r => exact ⟨r.1, r.2.1, r.2.2, hr⟩
      | error e =>
        dsimp only at unfolded
        split at unfolded
        · cases unfolded
        · split at unfolded <;> cases unfolded
  · rename_i other
    rw [if_neg other] at unfolded
    rw [hr, ← unfolded]

end Scheduler

namespace World

/-- Configurations are decided under the lock, on the slot as it is there. -/
theorem decides_configure {handler : Nat} {ms : UInt32} {repeats : Bool} (found : w.devices[d]? = some δ)
    (steady : δ.scheduler.Steady) (meant : ref.resolve self = .ok i)
    (spec : o = δ.scheduler.refusal self ref fun _ t =>
      if t.state = .executing ∨ t.state = .stopping then some (.invalidState t.state) else none) :
    w.Decides d δ self (.configure ref handler ms repeats) below o := by
  refine decides_lockedOn (s := .configure i handler ms repeats) found steady.declared meant (by rw [perform, meant]; rfl)
    spec fun b t bound slot => ?_
  have outcome := Scheduler.configure_of_slot handler ms repeats steady slot
  split at outcome
  · rename_i busy
    rw [if_pos busy]
    dsimp only
    rw [work, show (δ.withBoard b).scheduler.configure i handler ms repeats = _ from outcome]
    rfl
  · rename_i idle
    obtain ⟨σ, outcome⟩ := outcome
    rw [if_neg idle]
    refine ⟨w.put d (δ.withBoard b), (δ.withBoard b).withScheduler σ, .done, ?_, fun e => Answer.noConfusion⟩
    rw [work, show (δ.withBoard b).scheduler.configure i handler ms repeats = _ from outcome]
    rfl

/-- So are bytes that are attached. -/
theorem decides_attach {data : Option (List UInt8)} (found : w.devices[d]? = some δ) (steady : δ.scheduler.Steady)
    (stored : δ.scheduler.Stored w.pools) (meant : ref.resolve self = .ok i)
    (spec : o = δ.scheduler.refusal self ref fun _ t => if t.state = .stopped then none else some (.invalidState t.state)) :
    w.Decides d δ self (.attach ref data) below o := by
  refine decides_lockedOn (s := .attach i (data.getD [])) found steady.declared meant (by rw [perform, meant]; rfl) spec
    fun b t bound slot => ?_
  have outcome := Scheduler.attach_of_slot (data.getD []) stored slot
  split at outcome
  · rename_i stopped
    obtain ⟨σ, ps, outcome⟩ := outcome
    rw [if_pos stopped]
    refine ⟨{ w.put d (δ.withBoard b) with pools := ps }, (δ.withBoard b).withScheduler σ, .done, ?_,
      fun e => Answer.noConfusion⟩
    rw [work, show (δ.withBoard b).scheduler.attach (w.put d _).pools i (data.getD []) = _ from outcome]
    rfl
  · rename_i other
    rw [if_neg other]
    dsimp only
    rw [work, show (δ.withBoard b).scheduler.attach (w.put d _).pools i (data.getD []) = _ from outcome]
    rfl

/-- And bytes that are written. -/
theorem decides_write {data : List UInt8} {pooled : Nat → Bool} (found : w.devices[d]? = some δ)
    (steady : δ.scheduler.Steady) (stored : δ.scheduler.Stored w.pools) (meant : ref.resolve self = .ok i)
    (place : ∀ (i : Nat) (t : Task), δ.scheduler.arena[i]? = some t → t.payload.segment?.isSome = pooled i)
    (spec : o = δ.scheduler.refusal self ref fun i t =>
      if t.state = .stopped then if pooled i then none else some .notBuffered else some (.invalidState t.state)) :
    w.Decides d δ self (.write ref data) below o := by
  refine decides_lockedOn (s := .write i data) found steady.declared meant (by rw [perform, meant]; rfl) spec
    fun b t bound slot => ?_
  have outcome := Scheduler.write_of_slot data stored slot
  rw [place i t slot] at outcome
  split at outcome
  · rename_i stopped
    rw [if_pos stopped]
    split at outcome
    · rename_i own
      obtain ⟨kept, σ, ps, outcome⟩ := outcome
      rw [if_pos own]
      refine ⟨{ w.put d (δ.withBoard b) with pools := ps }, (δ.withBoard b).withScheduler σ, .kept kept, ?_,
        fun e => Answer.noConfusion⟩
      rw [work, show (δ.withBoard b).scheduler.write (w.put d _).pools i data = _ from outcome]
      rfl
    · rename_i none
      rw [if_neg none]
      dsimp only
      rw [work, show (δ.withBoard b).scheduler.write (w.put d _).pools i data = _ from outcome]
      rfl
  · rename_i other
    rw [if_neg other]
    dsimp only
    rw [work, show (δ.withBoard b).scheduler.write (w.put d _).pools i data = _ from outcome]
    rfl

/-! ## Starting and stopping -/

/-- What is not refused under the lock is answered with something else. -/
theorem answers_under_lock {armed : Prop} {w₀ : World} {s : Section} (found : w.devices[d]? = some δ)
    (works : ∃ w' δ' a, w.work d δ s = .ok (World.answering w' d δ' a) ∧ ∀ e, a ≠ .failed e) :
    Machine.Concludes d below armed (Answer.Heeds none w₀) ⟨w, ⟨d, .locked s⟩ :: below⟩ := by
  obtain ⟨w', δ', a, locked, right⟩ := works
  exact .answer rfl found locked right

/-- The word of a start to the cache ends in success. -/
theorem answers_noteArmed {armed : Prop} {w₀ : World} {now : UInt32} (found : w.devices[d]? = some δ)
    (noted : Succeeds (δ.scheduler.noteArmed i now)) :
    Machine.Concludes d below armed (Answer.Heeds none w₀) ⟨w, ⟨d, .locked (.noteArmed i now)⟩ :: below⟩ := by
  obtain ⟨σ, noted⟩ := noted
  exact answers_under_lock found ⟨w, δ.withScheduler σ, .done, by rw [work, noted]; rfl, fun e => Answer.noConfusion⟩

/-- So does the begin of a session under the lock. -/
theorem answers_beginSession {armed : Prop} {w₀ : World} (found : w.devices[d]? = some δ)
    (begun : Succeeds δ.scheduler.beginSession) :
    Machine.Concludes d below armed (Answer.Heeds none w₀) ⟨w, ⟨d, .locked .beginSession⟩ :: below⟩ := by
  obtain ⟨σ, begun⟩ := begun
  exact answers_under_lock found ⟨w.log (.initialized σ.capacity), δ.withScheduler { σ with runState := .active }, .done,
    by rw [work, begun]; rfl, fun e => Answer.noConfusion⟩

/-- A configured task is started. -/
theorem decides_start_of_slot {op : Op} {σ : Scheduler} {t : Task} (found : w.devices[d]? = some δ)
    (size : σ.arena.size = δ.scheduler.arena.size) (cache : σ.cache = δ.scheduler.cache) (steady : δ.scheduler.Steady)
    (bound : i < σ.declared) (slot : σ.arena[i]? = some t) (configured : t.state ≠ .uninit)
    (does : w.perform d δ self op = w.start d (δ.withScheduler σ) i) : w.Decides d δ self op below none := by
  have inside : i < σ.arena.size := (Array.getElem?_eq_some_iff.1 slot).1
  obtain ⟨next, started⟩ : ∃ next, t.state.started = some next := by
    cases state : t.state <;> first | exact absurd state configured | exact ⟨_, rfl⟩
  obtain ⟨b₁, calm₁, begins⟩ : ∃ b₁ : Board, (b₁.interrupts ≠ [] → δ.board.interrupts ≠ []) ∧
      (δ.board.called .now).1 = b₁ := ⟨_, fun armed none => armed (Board.interrupts_called none _), rfl⟩
  refine .call (ε := δ.withScheduler σ) (v := w) (b := .now) (a := .reading (.start i next)) rfl found found ?_
    (fun armed => armed) ?_
  · show w.perform d δ self op = _
    rw [does, start, Scheduler.startState, show (δ.withScheduler σ).scheduler = σ from rfl, Scheduler.lookup_of_lt bound slot]
    simp only [bind, Except.bind, started]
  rw [show (δ.withScheduler σ).board.called .now = δ.board.called .now from rfl, begins]
  have there₁ := device_put (ε := (δ.withScheduler σ).withBoard b₁) found
  obtain ⟨σ', stamped⟩ := Scheduler.alter_succeeds (f := fun t => t.start next b₁.clock) inside
  have resumes : (w.put d ((δ.withScheduler σ).withBoard b₁)).step d ((δ.withScheduler σ).withBoard b₁)
      (.reading (.start i next)) = .ok (World.calling (w.put d ((δ.withScheduler σ).withBoard b₁)) d
        (((δ.withScheduler σ).withBoard b₁.readClock.2).withScheduler σ') .lock [.locked (.noteArmed i b₁.clock)]) := by
    show (Scheduler.alter σ i fun t => t.start next b₁.clock) >>= _ = _
    rw [stamped]
    rfl
  refine .call rfl there₁ there₁ resumes calm₁ ?_
  obtain ⟨a, altered, rfl⟩ := Scheduler.alter_eq_ok stamped
  have same : a.size = δ.scheduler.arena.size := (Arena.size_alter altered).trans size
  have noted : Succeeds (Scheduler.noteArmed { σ with arena := a } i b₁.clock) :=
    (DueCache.noteArmed_succeeds (by show i < a.size; omega) (fun j m => same ▸ steady.soonest j (cache ▸ m))
      fun j m => same ▸ steady.latecomer j (cache ▸ m)).bind fun _ _ => .ok _
  exact answers_noteArmed (device_put there₁) noted

/-- An operation on configured tasks is refused at once if it is refused. -/
theorem decides_configured {op : Op} (found : w.devices[d]? = some δ) (steady : δ.scheduler.Steady)
    (meant : ref.resolve self = .ok i) (spec : o = δ.scheduler.refusal self ref fun _ t =>
      if t.state = .uninit then some (.invalidState t.state) else none)
    (absent : δ.scheduler.lookup i = .ok none →
      w.perform d δ self op = .ok (w.answering d δ (.failed (.invalidTask ⟨i⟩))))
    (uninit : ∀ t, δ.scheduler.lookup i = .ok (some t) → t.state = .uninit →
      w.perform d δ self op = .ok (w.answering d δ (.failed (.invalidState .uninit))))
    (goes : ∀ t, δ.scheduler.lookup i = .ok (some t) → i < δ.scheduler.declared → δ.scheduler.arena[i]? = some t →
      t.state ≠ .uninit → w.Decides d δ self op below none) : w.Decides d δ self op below o := by
  rcases Nat.lt_or_ge i δ.scheduler.declared with bound | beyond
  · have inside := Nat.lt_of_lt_of_le bound steady.declared
    have slot : δ.scheduler.arena[i]? = some δ.scheduler.arena[i] := Array.getElem?_eq_getElem inside
    have looked := Scheduler.lookup_of_lt bound slot
    rw [Scheduler.refusal_of_lt meant bound slot] at spec
    split at spec
    · rename_i state
      rw [state] at spec
      exact decides_refusal found (uninit _ looked state) spec
    · rename_i configured
      subst spec
      exact goes _ looked bound slot configured
  · exact decides_refusal found (absent (Scheduler.lookup_of_le beyond)) (spec.trans (Scheduler.refusal_of_le meant beyond))

/-- Starts are decided before the clock is read. -/
theorem decides_start (found : w.devices[d]? = some δ) (steady : δ.scheduler.Steady) (meant : ref.resolve self = .ok i)
    (spec : o = δ.scheduler.refusal self ref fun _ t =>
      if t.state = .uninit then some (.invalidState t.state) else none) : w.Decides d δ self (.start ref) below o := by
  have begins : w.perform d δ self (.start ref) = w.start d δ i := by rw [perform, meant]; rfl
  refine decides_configured found steady meant spec (fun looked => ?_) (fun t looked uninit => ?_)
    fun t looked bound slot configured => ?_
  · rw [begins, start, Scheduler.startState, looked]
    rfl
  · rw [begins, start, Scheduler.startState, looked]
    simp only [bind, Except.bind, uninit, TaskState.started]
  · exact decides_start_of_slot (σ := δ.scheduler) found rfl rfl steady bound slot configured begins

/-- Updates are decided where they look at the slot, and the start behind them is not refused any more. -/
theorem decides_update {ms : UInt32} (found : w.devices[d]? = some δ) (steady : δ.scheduler.Steady)
    (meant : ref.resolve self = .ok i) (spec : o = δ.scheduler.refusal self ref fun _ t =>
      if t.state = .uninit then some (.invalidState t.state) else none) : w.Decides d δ self (.update ref ms) below o := by
  have begins : w.perform d δ self (.update ref ms) = w.update d δ i ms := by rw [perform, meant]; rfl
  refine decides_configured found steady meant spec (fun looked => ?_) (fun t looked uninit => ?_)
    fun t looked bound slot configured => ?_
  · rw [begins, update, Scheduler.relength, looked]
    rfl
  · rw [begins, update, Scheduler.relength, looked]
    simp only [bind, Except.bind, uninit, if_true]
  · -- The interval is new already when the task is started.
    obtain ⟨σ, altered⟩ := Scheduler.alter_succeeds (f := fun t => t.withLength (Interval.clamp ms t.repeats))
      (Array.getElem?_eq_some_iff.1 slot).1
    obtain ⟨a, changed, rfl⟩ := Scheduler.alter_eq_ok altered
    have after := Arena.getElem?_alter changed i
    rw [if_pos rfl, slot, Option.map_some] at after
    refine decides_start_of_slot (σ := { δ.scheduler with arena := a }) found (Arena.size_alter changed) rfl steady bound
      after configured ?_
    rw [begins, update, Scheduler.relength, looked]
    simp only [bind, Except.bind, if_neg configured, altered]

/-- Stops are decided before the lock. -/
theorem decides_stop (found : w.devices[d]? = some δ) (steady : δ.scheduler.Steady) (meant : ref.resolve self = .ok i)
    (spec : o = δ.scheduler.refusal self ref fun _ t =>
      if t.state = .uninit then some (.invalidState t.state) else none) : w.Decides d δ self (.stop ref) below o := by
  have begins : w.perform d δ self (.stop ref) = w.stop d δ i := by rw [perform, meant]; rfl
  refine decides_configured found steady meant spec (fun looked => ?_) (fun t looked uninit => ?_)
    fun t looked bound slot configured => ?_
  · rw [begins, stop, Scheduler.stop, looked]
    rfl
  · rw [begins, stop, Scheduler.stop, looked]
    simp only [bind, Except.bind, uninit, if_true]
  · obtain ⟨σ, altered⟩ := Scheduler.alter_succeeds (f := Task.stop) (Array.getElem?_eq_some_iff.1 slot).1
    refine .call (ε := δ.withScheduler σ) (v := w) (b := .lock) (a := .locked (.forget i)) rfl found found ?_
      (fun armed => armed) ?_
    · show w.perform d δ self (.stop ref) = _
      rw [begins, stop, Scheduler.stop, looked]
      simp only [bind, Except.bind, if_neg configured, altered]
    · exact .answer rfl (device_put found) (by rfl) fun e => Answer.noConfusion

/-! ## Sessions and rounds -/

/-- A session is refused by the run state, before the board is told of one. -/
theorem decides_init (found : w.devices[d]? = some δ) (steady : δ.scheduler.Steady)
    (spec : o = if δ.scheduler.runState = .stopped then none else some .alreadyRunning) :
    w.Decides d δ self .init below o := by
  by_cases stopped : δ.scheduler.runState = .stopped
  · rw [if_pos stopped] at spec
    subst spec
    obtain ⟨w', same, begins⟩ : ∃ w' : World, w'.devices[d]? = some δ ∧
        w.perform d δ self .init = .ok (w'.calling d δ .init [.opening]) := by
      refine ⟨if δ.board.serves .init then w.emit (.opened d) else w, ?_, ?_⟩
      · split <;> exact found
      · show Except.ok (w.openSession d δ) = _
        rw [openSession, if_pos stopped]
    refine .call rfl found same begins (fun armed => armed) ?_
    have there := device_put (ε := δ.withBoard (δ.board.called .init).1) same
    refine .call rfl there there (by rfl) (fun armed none => armed (Board.interrupts_called none _)) ?_
    exact answers_beginSession (device_put there) (Scheduler.beginSession_succeeds steady)
  · rw [if_neg stopped] at spec
    refine decides_refusal found ?_ spec
    show Except.ok (w.openSession d δ) = _
    rw [openSession, if_neg stopped]

/-! ## Slots that there are none of -/

/-- A declaration is answered with nothing just when no slot is left, and then changes nothing. -/
theorem concludes_declare (below : List Frame) (self : Option Nat) (found : w.devices[d]? = some δ) :
    Machine.Concludes d below (δ.board.interrupts ≠ [])
    (fun a w' => (a = .slot none ↔ δ.scheduler.capacity ≤ δ.scheduler.declared) ∧
      (a = .slot none → w'.disarmed = w.disarmed)) ⟨w, ⟨d, .perform self .declare⟩ :: below⟩ := by
  refine .call rfl found found (b := .lock) (a := .locked .declare) (by rfl) (fun armed => armed) ?_
  have there := device_put (ε := δ.withBoard (δ.board.called .lock).1) found
  by_cases room : δ.scheduler.declared + 1 ≤ δ.scheduler.capacity
  · have given : δ.scheduler.takeSlots 1 =
        some (δ.scheduler.declared, { δ.scheduler with declared := δ.scheduler.declared + 1 }) := if_pos room
    refine .answer rfl there (a := .slot (some ⟨δ.scheduler.declared⟩)) (v := w.put d (δ.withBoard (δ.board.called .lock).1))
      (ε := (δ.withBoard (δ.board.called .lock).1).withScheduler
        { δ.scheduler with declared := δ.scheduler.declared + 1 }) ?_ ⟨⟨fun none => ?_, fun full => by omega⟩, fun none => ?_⟩
    · show work _ d _ .declare = _
      rw [work, show (δ.withBoard (δ.board.called .lock).1).scheduler.takeSlots 1 = _ from given]
    · cases none
    · cases none
  · have none : δ.scheduler.takeSlots 1 = none := if_neg room
    refine .answer rfl there (a := .slot Option.none) (v := w.put d (δ.withBoard (δ.board.called .lock).1))
      (ε := δ.withBoard (δ.board.called .lock).1) ?_
      ⟨⟨fun _ => by omega, fun _ => rfl⟩, fun _ => ?_⟩
    · show work _ d _ .declare = _
      rw [work, show (δ.withBoard (δ.board.called .lock).1).scheduler.takeSlots 1 = _ from none]
    · rw [put_self there, disarmed_put_called found]

end World

end

/-! ## Reachable moments -/

namespace Moment

variable {P : Moment → Prop} {s : Setup} {x : Moment} {l : List Holding} {d : Nat} {δ : Device} {self : Option Nat}
  {op : Op} {below : List Frame}

/-- The flag of the scheduler says whether a round is in progress. -/
theorem rounds_eq (r : Run P (initial s) x) (found : x.machine.world.devices[d]? = some δ) :
    x.rounds d = δ.scheduler.inRound := by
  have shown : x.view d = some ⟨δ, pending d x.machine.stack, x.past d⟩ := by rw [view, found]; rfl
  refine Bool.eq_iff_iff.2 (Iff.trans ?_ (sound r shown).inRound.symm)
  rw [rounds, List.any_eq_true, pending, List.mem_filterMap]
  refine exists_congr fun f => and_congr_right fun _ => ?_
  rcases f with ⟨e, act⟩
  cases act <;> simp [Frame.actOn]

/-- The slots with a segment are those of pools. -/
theorem pooled_eq (t : Traced P handing [] (initial s) x l) (found : x.machine.world.devices[d]? = some δ) {i : Nat}
    {u : Task} (slot : δ.scheduler.arena[i]? = some u) : u.payload.segment?.isSome = Holding.pooled l d i := by
  have placed := placed t
  refine Bool.eq_iff_iff.2 ?_
  rw [Holding.pooled, List.any_eq_true, Option.isSome_iff_exists]
  constructor
  · rintro ⟨segment, place⟩
    obtain ⟨h, m, k, p, device, has, own, -⟩ := placed.owner d δ i u segment found slot place
    exact ⟨h, m, by simp [device, has.1, has.2, own]⟩
  · rintro ⟨h, m, has⟩
    simp only [Bool.and_eq_true, decide_eq_true_eq, Option.isSome_iff_exists] at has
    obtain ⟨⟨⟨rfl, low⟩, high⟩, k, own⟩ := has
    obtain ⟨p, pool, -⟩ := (ledger t).of_pool m own
    obtain ⟨u', slot', place⟩ := placed.held h m k p δ i own pool found ⟨low, high⟩
    cases slot.symm.trans slot'
    exact ⟨_, place⟩

/-- If it is clear which task is meant, the operation concludes as specified, unless it begins something that need not
end. -/
theorem decides (below : List Frame) (t : Traced P handing [] (initial s) x l) (found : x.machine.world.devices[d]? = some δ)
    (kind : op.refusable) (meant : ∀ ref ∈ op.ref?, ∃ i, ref.resolve self = .ok i)
    (ends : op = .run ∨ op = .tick → ∃ e, x.refusal l d δ.scheduler self op = some e) :
    x.machine.world.Decides d δ self op below (x.refusal l d δ.scheduler self op) := by
  have steady := Moment.steady t.run found
  have stored := (Moment.stored t.run).scheduler found
  cases op with
  | configure ref handler ms repeats =>
    obtain ⟨i, meant⟩ := meant ref rfl
    exact World.decides_configure found steady meant rfl
  | start ref =>
    obtain ⟨i, meant⟩ := meant ref rfl
    exact World.decides_start found steady meant rfl
  | update ref ms =>
    obtain ⟨i, meant⟩ := meant ref rfl
    exact World.decides_update found steady meant rfl
  | stop ref =>
    obtain ⟨i, meant⟩ := meant ref rfl
    exact World.decides_stop found steady meant rfl
  | attach ref data =>
    obtain ⟨i, meant⟩ := meant ref rfl
    exact World.decides_attach found steady stored meant rfl
  | write ref data =>
    obtain ⟨i, meant⟩ := meant ref rfl
    exact World.decides_write found steady stored meant (fun i u => pooled_eq t found) rfl
  | init => exact World.decides_init found steady rfl
  | run =>
    obtain ⟨e, refused⟩ := ends (.inl rfl)
    refine World.decides_refusal found ?_ refused
    rw [refusal, rounds_eq t.run found] at refused
    show Except.ok (World.run _ d δ) = _
    rw [World.run]
    split at refused
    · rename_i stopped
      cases refused
      rw [if_pos stopped]
    · rename_i begun
      split at refused
      · rename_i busy
        cases refused
        rw [if_neg begun, if_pos busy]
      · cases refused
  | tick =>
    obtain ⟨e, refused⟩ := ends (.inr rfl)
    refine World.decides_refusal found ?_ refused
    rw [refusal, rounds_eq t.run found] at refused
    show Except.ok (World.tick _ d δ) = _
    rw [World.tick]
    split at refused
    · rename_i active
      split at refused
      · rename_i busy
        cases refused
        rw [if_neg fun other => other active, if_pos busy]
      · cases refused
    · rename_i other
      cases refused
      rw [if_pos other]
  | _ => cases kind

/-- A round that is not refused never fails. -/
theorem not_failed_of_loop {y : Moment} {e : Error} (r : Run (fun z => z.Within below ∧ z.machine.Undisturbed) x y)
    (before : Run P (initial s) x) (top : x.machine.stack = ⟨d, .perform self op⟩ :: below)
    (found : x.machine.world.devices[d]? = some δ) (kind : op = .run ∨ op = .tick)
    (free : x.refusal l d δ.scheduler self op = none) : y.machine.stack ≠ ⟨d, .answered (.failed e)⟩ :: below := by
  intro answered
  obtain ⟨next, -⟩ := Run.refused (P := fun _ => True) (r.mono fun z p => ⟨trivial, p.1⟩) (stacked_of_run before)
    (by rcases kind with rfl | rfl <;> rfl) top answered
  obtain ⟨δ', move, found', done, eq⟩ := next.performs top
  cases found.symm.trans found'
  rw [eq] at answered
  rcases kind with rfl | rfl
  · rw [refusal, rounds_eq before found] at free
    have done : World.run _ d δ = move := Except.ok.inj done
    rw [World.run] at done
    split at free
    · cases free
    · rename_i begun
      split at free
      · cases free
      · rename_i idle
        rw [if_neg begun, if_neg idle] at done
        subst done
        cases answered
  · rw [refusal, rounds_eq before found] at free
    have done : World.tick _ d δ = move := Except.ok.inj done
    rw [World.tick] at done
    split at free
    · rename_i active
      split at free
      · cases free
      · rename_i idle
        rw [if_neg fun other => other active, if_neg idle] at done
        subst done
        cases answered
    · cases free

/-- An operation on a task begins only where it is clear which task is meant. -/
theorem Next.resolves {y : Moment} {ref : TaskRef} (next : x.Next y)
    (top : x.machine.stack = ⟨d, .perform self op⟩ :: below) (about : op.ref? = some ref) : ∃ i, ref.resolve self = .ok i := by
  obtain ⟨δ, move, -, done, -⟩ := next.performs top
  cases op <;> cases about <;> exact (bind_eq_ok.1 done).imp fun i h => h.1

/-- At every moment of a run, also inside handlers, whatever the operation names: an operation that no interrupt disturbs
fails just when its refusal is due, with just the error that is due, and then the world is what it was, but for the
interrupts that are armed. Unless it begins a round, it does come to an answer. The same holds of a declaration for which no
slot is left, and of a pool that the arena has no room for, which is noted in the record. -/
theorem refused_as_specified (t : Traced P handing [] (initial s) x l) :
    (∀ d δ self op below, x.machine.stack = ⟨d, .perform self op⟩ :: below → x.machine.world.devices[d]? = some δ →
      op.refusable →
        (∀ y a, Run (fun z => z.Within below ∧ z.machine.Undisturbed) x y → y.machine.stack = ⟨d, .answered a⟩ :: below →
          (∀ e, a = .failed e ↔ x.refusal l d δ.scheduler self op = some e) ∧
            ((∃ e, a = .failed e) → y.machine.world.disarmed = x.machine.world.disarmed)) ∧
        (δ.board.interrupts = [] → (∀ ref ∈ op.ref?, ref.proper self.isSome) →
          (op = .run ∨ op = .tick → ∃ e, x.refusal l d δ.scheduler self op = some e) →
            ∃ y a, Run (fun z => z.Within below ∧ z.machine.Undisturbed) x y ∧
              y.machine.stack = ⟨d, .answered a⟩ :: below)) ∧
    (∀ d δ self below, x.machine.stack = ⟨d, .perform self .declare⟩ :: below → x.machine.world.devices[d]? = some δ →
      (∀ y a, Run (fun z => z.Within below ∧ z.machine.Undisturbed) x y → y.machine.stack = ⟨d, .answered a⟩ :: below →
        (a = .slot none ↔ δ.scheduler.capacity ≤ δ.scheduler.declared) ∧
          (a = .slot none → y.machine.world.disarmed = x.machine.world.disarmed)) ∧
      (δ.board.interrupts = [] → ∃ y a, Run (fun z => z.Within below ∧ z.machine.Undisturbed) x y ∧
        y.machine.stack = ⟨d, .answered a⟩ :: below)) ∧
    ∀ d δ self k p below, x.machine.stack = ⟨d, .perform self (.alloc k)⟩ :: below →
      x.machine.world.devices[d]? = some δ → x.machine.world.pools[k]? = some p → p.first = none →
      ¬δ.scheduler.declared + p.slots ≤ δ.scheduler.capacity →
        (∀ y a, Run (fun z => z.Within below ∧ z.machine.Undisturbed) x y → y.machine.stack = ⟨d, .answered a⟩ :: below →
          a = .slot none ∧ y.machine.world.disarmed = (x.machine.world.log (.noRoom p.slots)).disarmed) ∧
        (δ.board.interrupts = [] → ∃ y a, Run (fun z => z.Within below ∧ z.machine.Undisturbed) x y ∧
          y.machine.stack = ⟨d, .answered a⟩ :: below) := by
  refine ⟨fun d δ self op below top found kind => ?_, fun d δ self below top found => ?_,
    fun d δ self k p below top found pool unbound full => ?_⟩
  · refine ⟨fun y a r answered => ?_, fun calm proper ends => ?_⟩
    · have meant : ∀ ref ∈ op.ref?, ∃ i, ref.resolve self = .ok i := by
        rcases r.here_or_next with rfl | ⟨z, next, -⟩
        · cases top.symm.trans answered
        · exact fun ref about => next.resolves top about
      by_cases loops : (op = .run ∨ op = .tick) ∧ x.refusal l d δ.scheduler self op = none
      · have never : ∀ e, a ≠ .failed e := by
          rintro e rfl
          exact not_failed_of_loop r t.run top found loops.1 loops.2 answered
        exact ⟨fun e => ⟨fun failed => absurd failed (never e), fun due => by rw [loops.2] at due; cases due⟩,
          fun ⟨e, failed⟩ => absurd failed (never e)⟩
      · have concludes := decides below t found kind meant fun loop =>
          Option.ne_none_iff_exists'.1 fun none => loops ⟨loop, none⟩
        have heeds := concludes.of_run top r answered
        refine ⟨heeds.failed_iff, ?_⟩
        rintro ⟨e, rfl⟩
        exact heeds.spares
    · have concludes := decides below t found kind
        (fun ref about => TaskRef.resolve_succeeds (proper ref about)) ends
      obtain ⟨y, a, r, answered, -⟩ := concludes.reaches top fun armed => armed calm
      exact ⟨y, a, r, answered⟩
  · have concludes := World.concludes_declare below self found
    refine ⟨fun y a r answered => concludes.of_run top r answered, fun calm => ?_⟩
    obtain ⟨y, a, r, answered, -⟩ := concludes.reaches top fun armed => armed calm
    exact ⟨y, a, r, answered⟩
  · have concludes := World.concludes_alloc_full below self found pool unbound full
    refine ⟨fun y a r answered => concludes.of_run top r answered, fun calm => ?_⟩
    obtain ⟨y, a, r, answered, -⟩ := concludes.reaches top fun armed => armed calm
    exact ⟨y, a, r, answered⟩

/-- A task that runs once configures itself again while it runs, and asks for another round. -/
def insistent : Setup := ⟨[⟨1, 0, [], []⟩], false, [], [[[.configure .self 0 20 true, .tick]]], 9, false⟩

def insistentCalls : List (Nat × Op) :=
  [(0, .declare), (0, .init), (0, .configure (.slot 0) 0 10 false), (0, .start (.slot 0)), (0, .advance 10), (0, .tick)]

/-- The handler is told that its task is to stop, and nothing changes. -/
theorem refused_as_specified_of_handler : ∃ (x y : Moment) (l : List Holding) (below : List Frame),
    Traced (fun _ => True) handing [] (initial insistent) x l ∧
    x.machine.stack = ⟨0, .perform (some 0) (.configure .self 0 20 true)⟩ :: below ∧
    Run (fun z => z.Within below ∧ z.machine.Undisturbed) x y ∧
    y.machine.stack = ⟨0, .answered (.failed (.invalidState .stopping))⟩ :: below ∧
    y.machine.world.disarmed = x.machine.world.disarmed := by
  let x := ((initial insistent).steps 38 insistentCalls).1
  let l := (initial insistent).noted handing 38 insistentCalls []
  have t : Traced (fun _ => True) handing [] (initial insistent) x l := traced_steps (by decide +kernel)
  have top : ∃ below, x.machine.stack = ⟨0, .perform (some 0) (.configure .self 0 20 true)⟩ :: below := ⟨_, rfl⟩
  have shown : (x.machine.world.devices[0]?.any fun δ => δ.board.interrupts.isEmpty &&
      x.refusal l 0 δ.scheduler (some 0) (.configure .self 0 20 true) = some (.invalidState .stopping)) = true := by
    decide +kernel
  obtain ⟨below, top⟩ := top
  obtain ⟨δ, found, shown⟩ := (Option.any_eq_true _ _).1 shown
  rw [Bool.and_eq_true, List.isEmpty_iff, decide_eq_true_eq] at shown
  obtain ⟨calm, due⟩ := shown
  obtain ⟨exact, ends⟩ := (refused_as_specified t).1 0 δ (some 0) _ below top found rfl
  obtain ⟨y, a, r, answered⟩ := ends calm (fun ref about => by cases about; rfl) fun loop => by cases loop <;> contradiction
  obtain ⟨spec, spares⟩ := exact y a r answered
  have failed := (spec _).2 due
  exact ⟨x, y, l, below, t, top, r, failed ▸ answered, spares ⟨_, failed⟩⟩

end Moment

end TimedTasks
