import TimedTasks.Proofs.Tame

/-!
# The queue holds what is configured

The queue holds just the slots that are configured, each of them once (`Linked`), as long as no session begins or ends
under a start or a renewal (`Unstamping`): a task that is about to be stamped is configured then, and stays so. When
interrupts begin no session and no round, that is never the case.
-/

namespace TimedTasks

/-- The queue holds the configured slots, those have handlers, and a task that is about to be stamped is one of
them. -/
structure Linked (σ : Scheduler) (acts : List Act) : Prop where
  queue : ∃ l, σ.queue.Holds σ.arena.link l ∧ ∀ i, i ∈ l ↔ (σ.life i).state ≠ .uninit
  stamps : ∀ a ∈ acts, ∀ i, a.stamps = some i → (σ.life i).state ≠ .uninit
  handled : ∀ i, (σ.life i).state ≠ .uninit → (σ.life i).handler.isSome

/-- No slot of a new scheduler is configured. -/
theorem Scheduler.state_fresh (capacity i : Nat) : ((Scheduler.fresh capacity).life i).state = .uninit := by
  by_cases h : i < capacity
  · simp [fresh, life, Arena.life, Arena.fresh, h]; rfl
  · simp [fresh, life, Arena.life, Arena.fresh, h]; rfl

namespace Linked

variable {σ σ' : Scheduler} {act : Act} {acts rest : List Act}

/-- The queue of a new scheduler is empty, and nothing is configured. -/
theorem fresh (capacity : Nat) : Linked (.fresh capacity) [] := by
  have blank := Scheduler.state_fresh capacity
  exact ⟨⟨[], Queue.holds_empty _, fun i => by simp [blank i]⟩, by simp, fun i h => absurd (blank i) h⟩

/-- A step that leaves the links alone and keeps configured what is configured. -/
theorem step (h : Linked σ (act :: rest)) (queue : σ'.queue = σ.queue) (link : σ'.arena.link = σ.arena.link)
    (same : ∀ i, (σ'.life i).state ≠ .uninit ↔ (σ.life i).state ≠ .uninit)
    (handler : ∀ i, (σ'.life i).handler = (σ.life i).handler)
    (new : ∀ a ∈ acts, ∀ i, a.stamps = some i → (σ.life i).state ≠ .uninit) : Linked σ' (acts ++ rest) := by
  obtain ⟨l, holds, mem⟩ := h.queue
  refine ⟨⟨l, queue ▸ link ▸ holds, fun i => (mem i).trans (same i).symm⟩, fun a m i st => ?_, fun i c => ?_⟩
  · rw [same i]
    rcases List.mem_append.1 m with m | m
    · exact new a m i st
    · exact h.stamps a (List.mem_cons_of_mem _ m) i st
  · rw [handler i]
    exact h.handled i ((same i).1 c)

/-- A step that changes no life keeps the queue, when what it is about to stamp is configured. -/
theorem same {cache : DueCache} (h : Linked σ (act :: rest)) (c : Scheduler.Changes σ σ' σ.life cache)
    (new : ∀ a ∈ acts, ∀ i, a.stamps = some i → (σ.life i).state ≠ .uninit) : Linked σ' (acts ++ rest) :=
  h.step c.queue c.link (fun i => by rw [c.life]) (fun i => by rw [c.life]) new

/-- So does one that changes a single life and leaves it configured, or not configured, as it was. -/
theorem update {i : Nat} {ℓ : Life} {cache : DueCache} (h : Linked σ (act :: rest))
    (c : Scheduler.Changes σ σ' (Function.update σ.life i ℓ) cache)
    (kept : ℓ.state ≠ .uninit ↔ (σ.life i).state ≠ .uninit) (handler : ℓ.handler = (σ.life i).handler)
    (new : ∀ a ∈ acts, ∀ i, a.stamps = some i → (σ.life i).state ≠ .uninit) : Linked σ' (acts ++ rest) := by
  refine h.step c.queue c.link ?_ ?_ new
  · rw [c.life]
    exact forall_update (p := fun j ℓ => ℓ.state ≠ .uninit ↔ (σ.life j).state ≠ .uninit) (fun _ => Iff.rfl) kept
  · rw [c.life]
    exact forall_update (p := fun j ℓ => ℓ.handler = (σ.life j).handler) (fun _ => rfl) handler

/-- Either end of a session leaves nothing configured, and nothing is about to be stamped. -/
theorem dismissed (h : Linked σ (act :: rest)) (d : Scheduler.Dismissed σ σ')
    (free : ∀ b ∈ rest, b.stamps = none) (new : ∀ a ∈ acts, a.stamps = none) : Linked σ' (acts ++ rest) := by
  obtain ⟨l, holds, mem⟩ := h.queue
  obtain ⟨l', found, life⟩ := d.life
  cases (Queue.members_of_holds holds).symm.trans found
  have blank : ∀ i, (σ'.life i).state = .uninit := by
    intro i
    rw [life i]
    split
    · rfl
    · rename_i out
      rw [mem i, not_not] at out
      exact out
  refine ⟨⟨[], ?_, fun i => by simp [blank i]⟩, fun a m i st => ?_, fun i c => absurd (blank i) c⟩
  · rw [d.queue]; exact Queue.holds_empty _
  · rcases List.mem_append.1 m with m | m
    · rw [new a m] at st; cases st
    · rw [free a m] at st; cases st

/-- A configuration links its slot, unless it is linked already. -/
theorem configured (h : Linked σ (act :: rest)) {i handler : Nat} {ms : UInt32} {repeats : Bool}
    (c : Scheduler.Configured σ σ' i handler ms repeats) (new : ∀ a ∈ acts, a.stamps = none) :
    Linked σ' (acts ++ rest) := by
  obtain ⟨l, holds, mem⟩ := h.queue
  have now : (σ'.life i).state ≠ .uninit := by
    rw [c.life, Function.update_self]
    exact TaskState.noConfusion
  have other : ∀ j, j ≠ i → σ'.life j = σ.life j := fun j e => by rw [c.life, Function.update_of_ne e]
  refine ⟨?_, fun a m j st => ?_, fun j cj => ?_⟩
  · by_cases first : (σ.life i).state = .uninit
    · have out : i ∉ l := fun m => (mem i).1 m first
      refine ⟨l ++ [i], c.holds_first l holds first out, fun j => ?_⟩
      by_cases e : j = i
      · subst e; simp [now]
      · simp [e, other j e, mem j]
    · refine ⟨l, c.holds_again l holds first, fun j => ?_⟩
      by_cases e : j = i
      · subst e
        exact iff_of_true ((mem j).2 first) now
      · rw [other j e]; exact mem j
  · by_cases e : j = i
    · subst e; exact now
    · rw [other j e]
      rcases List.mem_append.1 m with m | m
      · rw [new a m] at st; cases st
      · exact h.stamps a (List.mem_cons_of_mem _ m) j st
  · by_cases e : j = i
    · subst e; rw [c.life, Function.update_self]; rfl
    · rw [other j e] at cj ⊢
      exact h.handled j cj

/-- A stop configures nothing and resets nothing. -/
theorem uninit_stop {ℓ : Life} : ℓ.stop.state ≠ .uninit ↔ ℓ.state ≠ .uninit := by
  rcases ℓ with ⟨state, timing, repeats, handler⟩
  cases state <;> simp [Life.stop]

/-- Nor does the end of a dispatch. -/
theorem uninit_settle {ℓ : Life} : ℓ.settle.state ≠ .uninit ↔ ℓ.state ≠ .uninit := by
  rcases ℓ with ⟨state, timing, repeats, handler⟩
  cases state <;> simp [Life.settle]

theorem handler_stop (ℓ : Life) : ℓ.stop.handler = ℓ.handler := by
  unfold Life.stop
  split <;> rfl

theorem handler_settle (ℓ : Life) : ℓ.settle.handler = ℓ.handler := by
  unfold Life.settle
  split <;> rfl

end Linked

/-- No task is about to be stamped while either end of a session takes all tasks out of the queue. -/
def Unstamping (acts : List Act) : Prop := ∀ act ∈ acts.head?, act.resets → ∀ b ∈ acts.tail, b.stamps = none

/-- Where interrupts begin nothing, no stamp is pending when a session begins or ends. -/
theorem Guarded.unstamping {acts : List Act} (g : Guarded Act.minor acts) (col : Column acts) : Unstamping acts := by
  intro act top resets b m
  obtain ⟨rest, rfl⟩ : ∃ rest, acts = act :: rest := by
    cases acts with
    | nil => cases top
    | cons a rest => cases top; exact ⟨rest, rfl⟩
  have major : act.minor = false := by
    cases act with
    | locked s => cases s <;> first | rfl | cases resets
    | _ => cases resets
  have still := col.unresumed tame_calm g major b m
  cases b with
  | reading r => cases still
  | _ => rfl

open Scheduler in
/-- Every step keeps the queue in order, if no session begins or ends while a task is about to be stamped. -/
theorem Leads.linked {w : World} {δ : Device} {act : Act} {s : Stride} {rest : List Act} (l : Leads w δ act s)
    (h : Linked δ.scheduler (act :: rest)) (sound : Sound δ.scheduler (act :: rest))
    (free : Unstamping (act :: rest)) : Linked s.scheduler (s.frames ++ rest) := by
  have same := Changes.refl δ.scheduler
  have stamped : ∀ {i : Nat}, act.stamps = some i → (δ.scheduler.life i).state ≠ .uninit :=
    fun st => h.stamps act List.mem_cons_self _ st
  cases l with
  | answer | alloc | init | info | advance | setNow | hook | blockEnd | blockNext | interruptsEnd
  | interruptsNext | wait | retarget | dueFirst | due | notDue | scan | told | refused | lengthTold | unhandled
  | fetched | claimedMeanwhile | opened | closed | woken | wokenLast | lastRound | remembered | nothingRemembered
  | surveyed | walked | looked | passed | notDispatched | handled | handledLast | unclaimed | occupied | claiming
  | run =>
    exact h.same same (by simp [Stride.frames, Act.stamps])
  | ask ask => exact h.same same (by cases ask <;> simp [Stride.frames, Act.stamps])
  | asked _ r | lengthAsked r => exact h.same same (by simp [Stride.frames, Act.stamps_of_asks r])
  | tick | anotherRound | sessionOver =>
    exact h.step rfl rfl (fun _ => Iff.rfl) (fun _ => rfl) (by simp [Stride.frames, Act.stamps])
  | declared t => exact h.same (takeSlots_changes t) (by simp [Stride.frames, Act.stamps])
  | noted n => exact h.same (noteArmed_changes n).2 (by simp [Stride.frames, Act.stamps])
  | forgotten => exact h.same (forget_changes _ _) (by simp [Stride.frames, Act.stamps])
  | attached a => exact h.same (attach_changes a) (by simp [Stride.frames, Act.stamps])
  | written a => exact h.same (write_changes a) (by simp [Stride.frames, Act.stamps])
  | adopted a => exact h.same (adopt_changes a).2 (by simp [Stride.frames, Act.stamps])
  | enrolled e => exact h.same (enrollPool_changes e) (by simp [Stride.frames, Act.stamps])
  | claimed c => exact h.same (handOut_changes c) (by simp [Stride.frames, Act.stamps])
  | shutdown =>
    refine h.step ?_ ?_ (fun i => by rw [life_shutdown]) (fun i => by rw [life_shutdown])
      (by simp [Stride.frames, Act.stamps])
    · unfold Scheduler.shutdown; split <;> rfl
    · unfold Scheduler.shutdown; split <;> rfl
  | @start _ _ i _ _ st =>
    have configured : (δ.scheduler.life i).state ≠ .uninit := fun u => by
      have started := (startState_eq_ok st).2
      rw [u] at started
      cases started
    exact h.same same (by simp [Stride.frames, Act.stamps, configured])
  | update _ re =>
    obtain ⟨configured, -, c⟩ := relength_changes re
    exact h.update c Iff.rfl rfl (by simp [Stride.frames, Act.stamps, configured])
  | stop _ st =>
    have c := (stop_changes st).2
    exact h.update c Linked.uninit_stop (Linked.handler_stop _) (by simp [Stride.frames, Act.stamps])
  | configured conf => exact h.configured (Scheduler.configured conf) (by simp [Stride.frames, Act.stamps])
  | @stamp i next _ st =>
    have c := start_changes st
    have armed : next ≠ .uninit := by
      obtain ⟨below, above⟩ := sound.layered.1
      by_cases m : Act.settle i ∈ rest
      · rw [below m]; exact TaskState.noConfusion
      · rw [above m]; exact TaskState.noConfusion
    exact h.update c (iff_of_true armed (stamped rfl)) rfl (by simp [Stride.frames, Act.stamps])
  | renew st =>
    have c := start_changes st
    exact h.update c (iff_of_true TaskState.noConfusion (stamped rfl)) rfl
      (by simp [Stride.frames, Act.stamps])
  | @renewing i t found active =>
    have configured : (δ.scheduler.life i).state ≠ .uninit := by
      rw [Scheduler.life, Arena.life_of_slot found, Task.life, active]
      exact TaskState.noConfusion
    exact h.same same (by simp [Stride.frames, Act.stamps, configured])
  | @dispatched i t _ found active _ st =>
    have configured : (δ.scheduler.life i).state ≠ .uninit := by
      rw [Scheduler.life, Arena.life_of_slot found, Task.life, active]
      exact TaskState.noConfusion
    have c := stopping_changes st
    exact h.update c (iff_of_true TaskState.noConfusion configured) rfl
      (by simp [Stride.frames, Act.stamps])
  | settled st =>
    have c := settle_changes st
    exact h.update c Linked.uninit_settle (Linked.handler_settle _) (by simp [Stride.frames])
  | begun b =>
    have left : Linked _ ([.answered .done] ++ rest) :=
      h.dismissed (beginSession_dismissed b).1 (free _ rfl rfl) (by simp [Act.stamps])
    exact ⟨left.queue, left.stamps, left.handled⟩
  | ended e =>
    exact h.dismissed (endSession_dismissed e).1 (free _ rfl rfl) (by simp [Stride.frames, Act.stamps])

/-- The deadline of a round changes neither queue nor slots. -/
theorem Delivers.linked {δ : Device} {ms : Option UInt32} {act : Act} {s : Stride} {rest : List Act}
    (l : Delivers δ ms act s) (h : Linked δ.scheduler (.deadline ms :: act :: rest)) :
    Linked s.scheduler (s.frames ++ rest) := by
  have below : Linked δ.scheduler (act :: rest) :=
    ⟨h.queue, fun a m => h.stamps a (List.mem_cons_of_mem _ m), h.handled⟩
  cases l with
  | round => exact below.step rfl rfl (fun _ => Iff.rfl) (fun _ => rfl) (by simp [Stride.frames, Act.stamps])
  | ticking | sleeping | awake => exact below.same (.refl _) (by simp [Stride.frames, Act.stamps])

namespace View

variable {v v' : View}

/-- The queue of the device is in order. -/
def Linked (v : View) : Prop := TimedTasks.Linked v.scheduler v.acts

theorem Fresh.linked (h : v.Fresh) : v.Linked := by
  obtain ⟨capacity, fresh⟩ := h.scheduler
  rw [Linked, fresh, h.acts]
  exact .fresh capacity

/-- A step of the device keeps its queue, unless it takes tasks out that are about to be stamped. -/
theorem Linked.turn (h : v.Linked) (sound : v.Sound) (free : Unstamping v.acts) (t : Turn v v') : v'.Linked := by
  cases t with
  | works acts l =>
    rw [Linked, acts] at h
    rw [Sound, acts] at sound
    rw [acts] at free
    simpa [Linked, take, scheduler] using l.linked h sound free
  | delivers acts l =>
    rw [Linked, acts] at h
    simpa [Linked, take, scheduler] using l.linked h

/-- What happens between its steps does not touch its queue. -/
theorem Linked.shift (h : v.Linked) (t : Shift v v') : v'.Linked := by
  cases t with
  | drops acts _ =>
    rw [Linked, acts] at h
    exact ⟨h.queue, fun a m => h.stamps a (List.mem_cons_of_mem _ m), h.handled⟩
  | arrives self op =>
    refine ⟨h.queue, fun a m i st => ?_, h.handled⟩
    rcases List.mem_cons.1 m with rfl | m
    · cases st
    · exact h.stamps a m i st

end View

namespace View

/-- What holds of a device whose interrupts begin no session and no round: its flags and states tell the truth, its
clock shows the true time, above interrupts there is only what calm operations come to, and its queue is in order. -/
structure Orderly (v : View) : Prop where
  sound : v.Sound
  timed : v.Timed
  guarded : Guarded Act.minor v.acts
  linked : v.Linked

end View

/-- What is true of every moment that a run can reach can be promised of the run. -/
theorem Run.also {P Q : Moment → Prop} {x y : Moment} (r : Run P x y) (q : ∀ z, Run P x z → Q z) :
    Run (fun z => P z ∧ Q z) x y := by
  induction r with
  | here p => exact .here ⟨p, q _ (.here p)⟩
  | more r n p ih => exact ih.more n ⟨p, q _ (r.more n p)⟩

namespace Moment

variable {P : Moment → Prop} {s : Setup} {y : Moment} {d : Nat} {v : View}

/-- As long as interrupts begin no session and no round, every device is in order. -/
theorem orderly (r : Run P (initial s) y) (calm : ∀ z, P z → Confined Op.calm z.machine.stack)
    (h : y.view d = some v) : v.Orderly := by
  have known : ∀ z, Run P (initial s) z → ∀ v, z.view d = some v → v.Sound ∧ Guarded Act.minor v.acts :=
    fun z r v hv => ⟨sound r hv, guarded r tame_calm calm hv⟩
  have linked : v.Linked :=
    view_of_run (Q := fun v => v.Sound ∧ Guarded Act.minor v.acts) (r.also known) (fun z v p hv => p.2 v hv)
      (fun _ => View.Fresh.linked) (fun _ _ h q t _ => h.turn q.1 (q.2.unstamping q.1.column) t)
      (fun _ _ h t => h.shift t) h
  exact ⟨sound r h, timed r h, guarded r tame_calm calm h, linked⟩

end Moment

end TimedTasks
