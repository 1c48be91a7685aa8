import TimedTasks.Proofs.Home

/-!
# What outlives a session

Of all that sessions do to a slot, nothing is to be left when they are over but what the slot got when it was reserved:
whether it belongs to a pool, and where its bytes lie. `Scheduler.blank` is a scheduler of which only that is left, and
no step changes it except those that reserve slots (`Leads.blank_eq`).

A slot that is not configured differs from a blank one in its link and its mark at most, marks are on slots of pools
only, and those were all handed out (`View.Tidy`).
-/

namespace TimedTasks

/-- What is left of a scheduler when everything but its reserved slots is forgotten. -/
def Scheduler.blank (σ : Scheduler) : Scheduler where
  arena := σ.arena.map Task.unconfigure
  declared := σ.declared
  queue := .empty
  cache := .empty
  runState := .stopped
  inRound := false

/-- Apart from its link and its mark, the slot is as if it was never configured. -/
def Task.Pristine (t : Task) : Prop := { t with next := none, allocated := false } = t.unconfigure

namespace Payload

@[simp] theorem emptied_emptied (p : Payload) : p.emptied.emptied = p.emptied := by
  cases p <;> rfl

end Payload

namespace Task

variable (t : Task)

/-- A reset takes back what a return to the pool would. -/
@[simp] theorem unconfigure_giveBack : t.giveBack.unconfigure = t.unconfigure := by
  unfold giveBack; split <;> rfl

/-- It takes back all that a stop does. -/
@[simp] theorem unconfigure_stop : t.stop.unconfigure = t.unconfigure := by
  rcases t with ⟨state, timing, repeats, pooled, allocated, next, handler, payload⟩
  cases state <;> cases pooled <;> rfl

/-- And all that the end of a dispatch does. -/
@[simp] theorem unconfigure_settle : t.settle.unconfigure = t.unconfigure := by
  rcases t with ⟨state, timing, repeats, pooled, allocated, next, handler, payload⟩
  cases state <;> cases pooled <;> rfl

/-- And all that the end of a session does. -/
@[simp] theorem unconfigure_retire (queued declared : Bool) : (t.retire queued declared).unconfigure = t.unconfigure := by
  cases queued <;> cases declared <;> simp [retire, unconfigure_unconfigure]

theorem state_retire_false (declared : Bool) : (t.retire false declared).state = t.state := by
  cases declared <;> simp [retire]

variable {t} in
/-- A stop that leaves a slot without configuration found it so, and did nothing. -/
theorem stop_of_uninit (h : t.stop.state = .uninit) : t.stop = t ∧ t.state = .uninit := by
  rcases t with ⟨state, timing, repeats, pooled, allocated, next, handler, payload⟩
  cases state <;> cases pooled <;> first | exact ⟨rfl, rfl⟩ | cases h

variable {t} in
/-- So did the end of a dispatch. -/
theorem settle_of_uninit (h : t.settle.state = .uninit) : t.settle = t ∧ t.state = .uninit := by
  rcases t with ⟨state, timing, repeats, pooled, allocated, next, handler, payload⟩
  cases state <;> cases pooled <;> first | exact ⟨rfl, rfl⟩ | cases h

/-- A slot that is still handed out after it was given back was handed out before. -/
theorem allocated_of_giveBack (h : t.giveBack.allocated = true) : t.allocated = true := by
  rcases t with ⟨state, timing, repeats, pooled, allocated, next, handler, payload⟩
  cases pooled
  · exact h
  · cases h

theorem allocated_of_stop (h : t.stop.allocated = true) : t.allocated = true := by
  unfold stop at h
  split at h
  · have marked := allocated_of_giveBack _ h
    exact marked
  · exact h
  · exact h

theorem allocated_of_settle (h : t.settle.allocated = true) : t.allocated = true := by
  unfold settle at h
  split at h
  · exact h
  · have marked := allocated_of_giveBack _ h
    exact marked
  · exact h

/-- A slot that is handed out after the end of a session was handed out before. -/
theorem allocated_of_retire {queued declared : Bool} (h : (t.retire queued declared).allocated = true) :
    t.allocated = true := by
  cases queued <;> cases declared
  · exact h
  · exact allocated_of_giveBack _ h
  · cases h
  · exact nomatch allocated_of_giveBack _ h

namespace Pristine

variable {t}

theorem giveBack (h : t.Pristine) : t.giveBack.Pristine := by
  unfold Task.giveBack
  split <;> exact h

/-- A reset leaves a pristine slot. -/
theorem unconfigure (t : Task) : t.unconfigure.Pristine := (unconfigure_unconfigure t).symm

/-- So does the end of a session, where the slot was in the queue or was pristine. -/
theorem retire {queued declared : Bool} (h : queued = false → t.Pristine) : (t.retire queued declared).Pristine := by
  have left : (if queued then t.unconfigure else t).Pristine := by
    cases queued with
    | true => exact .unconfigure t
    | false => exact h rfl
  cases declared with
  | true => exact left.giveBack
  | false => exact left

/-- A pristine slot stays so when it is handed out. -/
theorem handOut (h : t.Pristine) : t.handOut.Pristine := by
  have bare := congrArg (fun u : Task => { u with payload := t.payload.emptied }) h
  simpa [Pristine, Task.unconfigure, Task.handOut] using bare

/-- And when it becomes a slot of a pool. -/
theorem enroll (h : t.Pristine) (segment : Segment) : (t.enroll segment).Pristine := by
  have bare := congrArg (fun u : Task => { u with pooled := true, payload := .copied segment 0 }) h
  simpa [Pristine, Task.unconfigure, Task.enroll, Payload.emptied] using bare

end Pristine

end Task

/-! ## What steps make of slots -/

section Becomes

variable {ps : Pools} {σ : Scheduler} {now : UInt32} {i : Nat} {act : Act} {t t' : Task}

/-- Only a reservation changes what outlives a session. -/
theorem Becomes.unconfigure (b : Becomes ps σ now i act t t') (no : act.reserves = false) :
    t'.unconfigure = t.unconfigure := by
  cases b with
  | enroll => cases no
  | relength | stamp | renew | dispatch | configure | link => rfl
  | handOut => simp [Task.unconfigure, Task.handOut]
  | attach _ payload => simp [Task.unconfigure, payload, Payload.emptied]
  | copy _ _ payload => simp [Task.unconfigure, payload, Payload.emptied]
  | _ => simp

/-- A slot that is left unconfigured is left pristine. -/
theorem Becomes.pristine (b : Becomes ps σ now i act t t') (h : t.state = .uninit → t.Pristine)
    (starts : ∀ next, act = .reading (.start i next) → next ≠ .uninit) (uninit : t'.state = .uninit) : t'.Pristine := by
  cases b with
  | same => exact h uninit
  | relength _ _ configured => exact absurd uninit configured
  | stop =>
    obtain ⟨same, uninit⟩ := Task.stop_of_uninit uninit
    rw [same]
    exact h uninit
  | settle =>
    obtain ⟨same, uninit⟩ := Task.settle_of_uninit uninit
    rw [same]
    exact h uninit
  | stamp => exact absurd uninit (starts _ rfl)
  | renew | dispatch | configure => cases uninit
  | link => exact h uninit
  | attach stopped | copy _ stopped => cases stopped.symm.trans uninit
  | handOut => exact (h uninit).handOut
  | enroll => exact (h uninit).enroll _
  | begin | finish =>
    refine .retire fun out => h ?_
    rw [out, Task.state_retire_false] at uninit
    exact uninit

/-- Only a slot of a pool is marked. -/
theorem Becomes.owned (b : Becomes ps σ now i act t t') (h : t.allocated → t.pooled)
    (claims : ∀ left, act = .locked (.claim i left) → t.pooled) (marked : t'.allocated) : t'.pooled := by
  have kept : t.allocated → t'.pooled := fun m => b.pooled (h m)
  cases b with
  | handOut => exact claims _ rfl
  | enroll => cases marked
  | stop => exact kept (t.allocated_of_stop marked)
  | settle => exact kept (t.allocated_of_settle marked)
  | begin | finish => exact kept (t.allocated_of_retire marked)
  | _ => exact kept marked

/-- Only a slot that was handed out belongs to a pool. -/
theorem Becomes.pooled_or (b : Becomes ps σ now i act t t') (pooled : t'.pooled) : t.pooled ∨
    ∃ k p, act = .locked (.enroll k) ∧ ps[k]? = some p ∧ p.first = none ∧ i < σ.declared + p.slots := by
  cases b with
  | enroll found unbound _ bound => exact .inr ⟨_, _, rfl, found, unbound, bound⟩
  | _ => left; simpa [Task.withLength, Task.start, Task.beginAt, Task.configure, Task.handOut] using pooled

end Becomes

namespace Leads

variable {w : World} {δ : Device} {act : Act} {s : Stride}

/-- No step changes how many slots there are. -/
theorem size_eq (l : Leads w δ act s) : s.scheduler.arena.size = δ.scheduler.arena.size := by
  have beyond : ∀ i : Nat, s.scheduler.arena[i]? = none ↔ δ.scheduler.arena[i]? = none := by
    intro i
    have slot := l.slots i
    generalize δ.scheduler.arena[i]? = o at slot ⊢
    generalize s.scheduler.arena[i]? = o' at slot ⊢
    cases slot <;> simp
  simp only [Array.getElem?_eq_none_iff] at beyond
  have above := (beyond s.scheduler.arena.size).1 (Nat.le_refl _)
  have below := (beyond δ.scheduler.arena.size).2 (Nat.le_refl _)
  omega

/-- What outlives a session is changed by reservations only. -/
theorem blank_eq (l : Leads w δ act s) (no : act.reserves = false) : s.scheduler.blank = δ.scheduler.blank := by
  have arena : s.scheduler.arena.map Task.unconfigure = δ.scheduler.arena.map Task.unconfigure := by
    apply Array.ext_getElem?
    intro i
    have slot := l.slots i
    rw [Array.getElem?_map, Array.getElem?_map]
    generalize δ.scheduler.arena[i]? = o at slot
    generalize s.scheduler.arena[i]? = o' at slot
    cases slot with
    | none => rfl
    | some b => exact congrArg some (b.unconfigure no)
  rw [Scheduler.blank, Scheduler.blank, arena, l.declared_eq no]

end Leads

/-! ## Tidy schedulers -/

namespace View

variable {v v' : View}

/-- Slots that are not configured are pristine, and marks and pools are where they belong. -/
structure Tidy (v : View) : Prop where
  pristine : ∀ (i : Nat) (t : Task), v.scheduler.arena[i]? = some t → t.state = .uninit → t.Pristine
  owned : ∀ (i : Nat) (t : Task), v.scheduler.arena[i]? = some t → t.allocated → t.pooled
  declared : ∀ (i : Nat) (t : Task), v.scheduler.arena[i]? = some t → t.pooled → i < v.scheduler.declared

/-- Only a slot of a pool is about to be handed out. -/
def Claims (v : View) : Prop :=
  ∀ i left rest, v.acts = .locked (.claim i left) :: rest → ∀ t ∈ v.scheduler.arena[i]?, t.pooled

namespace Tidy

theorem fresh (h : v.Fresh) : v.Tidy := by
  obtain ⟨capacity, new⟩ := h.scheduler
  have slot : ∀ {i : Nat} {t : Task}, v.scheduler.arena[i]? = some t → t = Task.fresh := by
    intro i t found
    rw [new] at found
    simp only [Scheduler.fresh, Arena.fresh, Array.getElem?_replicate] at found
    split at found <;> cases found
    rfl
  constructor
  · intro i t found _
    rw [slot found]
    rfl
  · intro i t found marked
    rw [slot found] at marked
    cases marked
  · intro i t found pooled
    rw [slot found] at pooled
    cases pooled

/-- What the world does between the turns of a device leaves it tidy. -/
theorem shift (h : v.Tidy) (t : Shift v v') : v'.Tidy := by
  cases t <;> exact ⟨h.pristine, h.owned, h.declared⟩

/-- A step leaves its device tidy: what it resets is pristine, and what it marks belongs to a pool. -/
theorem turn (h : v.Tidy) (sound : v.Sound) (claims : v.Claims) (t : Turn v v') : v'.Tidy := by
  cases t with
  | @works w act s _ rest acts l =>
    have before : ∀ {i : Nat} {t : Task}, (take s rest (v.past.after v.clock act s)).scheduler.arena[i]? = some t →
        ∃ u, v.scheduler.arena[i]? = some u ∧ Becomes w.pools v.scheduler v.clock i act u t := by
      intro i t found
      rw [take, scheduler, Stride.scheduler_device] at found
      have slot := l.slots i
      rw [found] at slot
      generalize old : v.device.scheduler.arena[i]? = o at slot
      cases slot with
      | some b => exact ⟨_, old, b⟩
    constructor
    · intro i t found uninit
      obtain ⟨u, hu, b⟩ := before found
      refine b.pristine (h.pristine i u hu) (fun next same => ?_) uninit
      subst same
      have layered : Layered (.reading (.start i next) :: rest) := acts ▸ sound.layered
      obtain ⟨below, above⟩ := layered.1
      by_cases m : Act.settle i ∈ rest
      · rw [below m]; exact TaskState.noConfusion
      · rw [above m]; exact TaskState.noConfusion
    · intro i t found marked
      obtain ⟨u, hu, b⟩ := before found
      exact b.owned (h.owned i u hu) (fun left same => claims i left rest (same ▸ acts) u hu) marked
    · intro i t found pooled
      obtain ⟨u, hu, b⟩ := before found
      have declared : (take s rest (v.past.after v.clock act s)).scheduler.declared = s.scheduler.declared := by
        rw [take, scheduler, Stride.scheduler_device]
      rw [declared]
      rcases b.pooled_or pooled with old | ⟨k, p, rfl, hp, unbound, bound⟩
      · exact Nat.lt_of_lt_of_le (h.declared i u hu old) l.declared_le
      · cases l with
        | enrolled e =>
          obtain ⟨q, hq, ⟨first, -⟩ | ⟨-, -, -, ⟨a, -, rfl⟩, -⟩⟩ := Scheduler.enrollPool_eq_ok e
          · cases hp.symm.trans hq
            rw [unbound] at first
            cases first
          · cases hp.symm.trans hq
            exact bound
        | refused =>
          rw [take, scheduler, Stride.scheduler_device] at found
          exact h.declared i t found pooled
  | @delivers ms act s _ rest acts l =>
    have same : (take s rest v.past).scheduler.arena = v.scheduler.arena ∧
        (take s rest v.past).scheduler.declared = v.scheduler.declared := by
      rw [take, scheduler, Stride.scheduler_device]
      cases l <;> exact ⟨rfl, rfl⟩
    exact ⟨same.1 ▸ h.pristine, same.1 ▸ h.owned, same.1 ▸ same.2 ▸ h.declared⟩

end Tidy

end View

namespace Moment

variable {P : Moment → Prop} {s : Setup} {y : Moment} {d : Nat} {v : View}

/-- As long as pools are used where their slots lie, every scheduler is tidy. -/
theorem tidy (r : Run P (initial s) y) (home : ∀ z, P z → z.machine.AtHome) (h : y.view d = some v) : v.Tidy := by
  have known : ∀ z, Run P (initial s) z → ∀ u, z.view d = some u → u.Sound ∧ u.Claims := by
    intro z r u hu
    refine ⟨sound r hu, fun i left rest acts t found => ?_⟩
    obtain ⟨device, shown, -⟩ := view_eq_some hu
    have m : Act.locked (.claim i left) ∈ pending d z.machine.stack := by rw [← shown, acts]; simp
    rw [pending, List.mem_filterMap] at m
    obtain ⟨f, mf, on⟩ := m
    unfold Frame.actOn at on
    split at on
    · rename_i here
      have claims : f.act.claims = some (i, left + 1) := by rw [Option.some.inj on]; rfl
      obtain ⟨δ, u', hδ, hu', pooled⟩ := claims_pooled r home f mf i (left + 1) claims i (Nat.le_refl _) (by omega)
      rw [here] at hδ
      cases hδ.symm.trans device
      cases hu'.symm.trans found
      exact pooled
    · cases on
  exact view_of_run (Q := fun u => u.Sound ∧ u.Claims) (r.also known) (fun z u p hu => p.2 u hu)
    (fun _ => View.Tidy.fresh) (fun _ _ h q t _ => h.turn q.1 q.2 t) (fun _ _ h t => h.shift t) h

end Moment

end TimedTasks
