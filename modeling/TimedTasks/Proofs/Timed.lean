import TimedTasks.Proofs.Elapsed
import TimedTasks.Proofs.Sound

/-!
# True time

The clock of a board is the true time modulo `2 ^ 32`, and an interval in progress began at the clock reading of its
task's last stamp (`Timed`). As long as the true age of an interval is below `2 ^ 32`, the differences of readings that
a scheduler computes with are differences of true times: `Interval.toNat_remaining` and `Interval.expired_iff`.

`Lives` lists what a step can make of the lives of the slots. Most steps make nothing of them.
-/

namespace TimedTasks

/-! ## What a step makes of the lives -/

/-- What a step at clock reading `now` can make of the lives of the slots. -/
inductive Lives (σ : Scheduler) (now : UInt32) : Act → (Nat → Life) → Prop
  | same {act} : act.stamps = none → Lives σ now act σ.life
  | relength {self task ms i} : task.resolve self = .ok i → (σ.life i).state ≠ .uninit →
      Lives σ now (.perform self (.update task ms)) (Function.update σ.life i ((σ.life i).relength ms))
  | stop {self task i} : task.resolve self = .ok i →
      Lives σ now (.perform self (.stop task)) (Function.update σ.life i (σ.life i).stop)
  | configure {i handler ms repeats} : (σ.life i).state.inHandler = false →
      Lives σ now (.locked (.configure i handler ms repeats))
        (Function.update σ.life i ((σ.life i).configure handler ms repeats))
  | stamp {i next} :
      Lives σ now (.reading (.start i next)) (Function.update σ.life i ((σ.life i).start next now))
  | renew {i} : Lives σ now (.reading (.renew i)) (Function.update σ.life i ((σ.life i).start .executing now))
  | dispatch {i} : (σ.life i).state = .active → (σ.life i).repeats = false →
      Lives σ now (.dispatch i) (Function.update σ.life i { σ.life i with state := .stopping })
  | settle {i} : Lives σ now (.settle i) (Function.update σ.life i (σ.life i).settle)
  | dismiss {act l life} : act = .locked .beginSession ∨ act = .locked .endSession → σ.queued = .ok l →
      (∀ i, life i = if i ∈ l then .blank else σ.life i) → Lives σ now act life

namespace Act

@[simp] theorem stamps_interrupts {call : BoardCall} {bodies : List (List Op)} :
    (interrupts call bodies).stamps = none := rfl

/-- The readings of queries stamp no slot. -/
theorem stamps_of_asks {r : Reading} (h : r.asks) : (reading r).stamps = none := by
  cases r <;> first | rfl | cases h

end Act

theorem Scheduler.life_shutdown (σ : Scheduler) : σ.shutdown.life = σ.life := by
  unfold Scheduler.shutdown
  split <;> rfl

open Scheduler in
/-- Whatever a step does, it makes of the lives one of the things that are listed. -/
theorem Leads.lives {w : World} {δ : Device} {act : Act} {s : Stride} (l : Leads w δ act s) :
    Lives δ.scheduler δ.board.clock act s.scheduler.life := by
  have same : ∀ {σ : Scheduler} {act : Act}, σ.life = δ.scheduler.life → act.stamps = none →
      Lives δ.scheduler δ.board.clock act σ.life := fun e h => e ▸ .same h
  cases l with
  | answer | ask | start | alloc | init | run | tick | info | advance | setNow | hook | blockEnd | blockNext
  | interruptsEnd | interruptsNext | wait | retarget | dueFirst | due | notDue | scan | refused | forgotten
  | lengthAsked | lengthTold | unhandled | fetched | sessionOver | claimedMeanwhile | opened | closed | woken | wokenLast
  | anotherRound | lastRound | remembered | nothingRemembered | surveyed | walked | looked | passed | renewing
  | notDispatched | handled | handledLast | unclaimed | occupied | claiming => exact same rfl rfl
  | asked r | told r => exact same rfl (Act.stamps_of_asks r)
  | declared t => exact same (takeSlots_changes t).life rfl
  | noted n => exact same (noteArmed_changes n).2.life rfl
  | attached a => exact same (attach_changes a).life rfl
  | written a => exact same (write_changes a).life rfl
  | adopted a => exact same (adopt_changes a).2.life rfl
  | enrolled e => exact same (enrollPool_changes e).life rfl
  | claimed c => exact same (handOut_changes c).life rfl
  | shutdown => exact same (life_shutdown _) rfl
  | update ref re =>
    obtain ⟨configured, -, c⟩ := relength_changes re
    exact c.life ▸ .relength ref configured
  | stop ref st => exact (stop_changes st).2.life ▸ .stop ref
  | configured conf =>
    have c := Scheduler.configured conf
    exact c.life ▸ .configure c.idle
  | stamp st => exact (start_changes st).life ▸ .stamp
  | renew st => exact (start_changes st).life ▸ .renew
  | dispatched found active once st =>
    have life := Arena.life_of_slot found
    refine (stopping_changes st).life ▸ .dispatch ?_ ?_
    · rw [Scheduler.life, life]; exact active
    · rw [Scheduler.life, life]; exact once
  | settled st => exact (settle_changes st).life ▸ .settle
  | begun b =>
    obtain ⟨l, found, life⟩ := (beginSession_dismissed b).1.life
    exact .dismiss (.inl rfl) found life
  | ended e =>
    obtain ⟨l, found, life⟩ := (endSession_dismissed e).1.life
    exact .dismiss (.inr rfl) found life

/-! ## Stamps -/

/-- The interval of the task is in progress. -/
def TaskState.counts : TaskState → Bool
  | active | executing | stopping => true
  | _ => false

/-- The length is one that `Interval.clamp` gives. -/
structure Life.Clamped (ℓ : Life) : Prop where
  short : ℓ.timing.length.toNat ≤ Interval.longest.toNat
  positive : ℓ.repeats = true → 1 ≤ ℓ.timing.length.toNat

namespace View

/-- The clock is the true time, and intervals in progress began at their tasks' stamps. -/
structure Timed (v : View) : Prop where
  clock : v.clock = UInt32.ofNat v.past.time
  stamp_le : ∀ i, v.past.stamp i ≤ v.past.time
  start : ∀ i, (v.scheduler.life i).state.counts → (v.scheduler.life i).timing.start = UInt32.ofNat (v.past.stamp i)
  clamped : ∀ i, (v.scheduler.life i).Clamped

end View

/-- What a change of one life leaves of a property of all lives. -/
theorem forall_update {p : Nat → Life → Prop} {f : Nat → Life} {i : Nat} {ℓ : Life} (h : ∀ j, p j (f j)) (hi : p i ℓ) :
    ∀ j, p j (Function.update f i ℓ j) := by
  intro j
  by_cases e : j = i
  · subst e; rwa [Function.update_self]
  · rw [Function.update_of_ne e]; exact h j

/-- None of them leaves a length that is out of bounds. -/
theorem Lives.clamped {σ : Scheduler} {now : UInt32} {act : Act} {life : Nat → Life} (l : Lives σ now act life)
    (h : ∀ i, (σ.life i).Clamped) : ∀ i, (life i).Clamped := by
  have same : ∀ {i : Nat} {ℓ : Life}, ℓ.timing.length = (σ.life i).timing.length → ℓ.repeats = (σ.life i).repeats →
      ℓ.Clamped := fun len rep => ⟨len ▸ (h _).short, fun r => len ▸ (h _).positive (rep ▸ r)⟩
  cases l with
  | same => exact h
  | @relength _ _ ms i =>
    refine forall_update h ⟨Interval.clamp_le_longest ms (σ.life i).repeats, fun r => ?_⟩
    have repeats : (σ.life i).repeats = true := r
    show 1 ≤ (Interval.clamp ms (σ.life i).repeats).toNat
    rw [repeats]
    exact Interval.one_le_clamp ms
  | @stop _ _ i _ =>
    refine forall_update h (same (i := i) ?_ ?_)
    · unfold Life.stop; split <;> rfl
    · unfold Life.stop; split <;> rfl
  | @configure i handler ms repeats _ =>
    refine forall_update h ⟨Interval.clamp_le_longest ms repeats, fun r => ?_⟩
    have repeats : repeats = true := r
    subst repeats
    exact Interval.one_le_clamp ms
  | stamp | renew | dispatch => exact forall_update h (same rfl rfl)
  | @settle i =>
    refine forall_update h (same (i := i) ?_ ?_)
    · unfold Life.settle; split <;> rfl
    · unfold Life.settle; split <;> rfl
  | dismiss _ _ life =>
    intro i
    rw [life i]
    split
    · exact ⟨Nat.zero_le _, fun r => nomatch r⟩
    · exact h i

/-- Intervals in progress begin at stamps, and a stamp is made with the clock. -/
theorem Lives.start {σ : Scheduler} {now : UInt32} {act : Act} {life : Nat → Life} {stamp : Nat → Nat} {time : Nat}
    (l : Lives σ now act life) (clock : now = UInt32.ofNat time)
    (h : ∀ i, (σ.life i).state.counts → (σ.life i).timing.start = UInt32.ofNat (stamp i)) :
    ∀ i, (life i).state.counts →
      (life i).timing.start = UInt32.ofNat (if act.stamps = some i then time else stamp i) := by
  have one : ∀ {i : Nat} {ℓ : Life} {act : Act}, act.stamps = none →
      (ℓ.state.counts → ℓ.timing.start = UInt32.ofNat (stamp i)) → ∀ j, (Function.update σ.life i ℓ j).state.counts →
      (Function.update σ.life i ℓ j).timing.start = UInt32.ofNat (if act.stamps = some j then time else stamp j) := by
    intro i ℓ act none new
    rw [none]
    exact forall_update (p := fun j ℓ => ℓ.state.counts → ℓ.timing.start = UInt32.ofNat (stamp j)) h new
  have stamped : ∀ {i : Nat} {next : TaskState} {act : Act}, act.stamps = some i →
      ∀ j, (Function.update σ.life i ((σ.life i).start next now) j).state.counts →
      (Function.update σ.life i ((σ.life i).start next now) j).timing.start =
        UInt32.ofNat (if act.stamps = some j then time else stamp j) := by
    intro i next act some j counts
    rw [some]
    by_cases e : j = i
    · subst e; rw [Function.update_self, if_pos rfl]; exact clock
    · rw [Function.update_of_ne e] at counts ⊢
      rw [if_neg fun same => e (Option.some.inj same).symm]
      exact h j counts
  cases l with
  | same none => rw [none]; exact h
  | @relength _ _ _ i _ configured => exact one rfl (h i)
  | @stop _ _ i _ =>
    refine one rfl fun counts => ?_
    have old := h i
    rcases hℓ : σ.life i with ⟨state, timing, repeats, handler⟩
    rw [hℓ] at counts old
    cases state <;> first | cases counts; done | exact old rfl
  | configure _ => exact one rfl fun counts => nomatch counts
  | stamp => exact stamped rfl
  | renew => exact stamped rfl
  | @dispatch i active _ => exact one rfl fun _ => h i (by rw [active]; rfl)
  | @settle i =>
    refine one rfl fun counts => ?_
    have old := h i
    rcases hℓ : σ.life i with ⟨state, timing, repeats, handler⟩
    rw [hℓ] at counts old
    cases state <;> first | cases counts; done | exact old rfl
  | dismiss which _ life =>
    have none : act.stamps = none := by rcases which with rfl | rfl <;> rfl
    intro i counts
    rw [none]
    rw [life i] at counts ⊢
    split at counts
    · cases counts
    · rename_i kept
      rw [if_neg kept]
      exact h i counts

namespace View

variable {v v' : View}

theorem Fresh.timed (h : v.Fresh) : v.Timed := by
  obtain ⟨capacity, fresh⟩ := h.scheduler
  have blank : ∀ i, v.scheduler.life i = .blank := by
    intro i
    rw [fresh]
    by_cases bound : i < capacity
    · simp [Scheduler.fresh, Scheduler.life, Arena.life, Arena.fresh, bound]; rfl
    · simp [Scheduler.fresh, Scheduler.life, Arena.life, Arena.fresh, bound]
  refine ⟨?_, fun i => ?_, fun i counts => ?_, fun i => ?_⟩
  · rw [h.past]; simp [Chronicle.start]
  · rw [h.past]; simp [Chronicle.start]
  · rw [blank i] at counts; cases counts
  · rw [blank i]; exact ⟨Nat.zero_le _, by simp [Life.blank]⟩

/-- A step keeps the stamps in true time: what it stamps, it stamps with the reading it just made. -/
theorem Timed.turn (h : v.Timed) (t : Turn v v') : v'.Timed := by
  cases t with
  | @works w act s _ rest acts l =>
    refine ⟨?_, fun i => ?_, ?_, ?_⟩
    · show s.device.board.clock = UInt32.ofNat (v.past.time + (s.board.clock - v.clock).toNat)
      rw [Stride.clock_device, UInt32.ofNat_add, ← h.clock, UInt32.ofNat_toNat, UInt32.add_comm, UInt32.sub_add_cancel]
    · have old := h.stamp_le i
      simp only [take, Chronicle.after]
      split <;> omega
    · have new := l.lives.start h.clock h.start
      simpa [take, scheduler, Chronicle.after] using new
    · have new := l.lives.clamped h.clamped
      simpa [take, scheduler] using new
  | @delivers ms act s _ rest acts l =>
    have clock : s.board.clock = v.clock := by cases l <;> rfl
    have life : s.scheduler.life = v.scheduler.life := by cases l <;> rfl
    refine ⟨?_, h.stamp_le, ?_, ?_⟩
    · show s.device.board.clock = _
      rw [Stride.clock_device, clock]
      exact h.clock
    · simpa [take, scheduler, life] using h.start
    · simpa [take, scheduler, life] using h.clamped

/-- So does what the world does between the steps of a device, which moves the true time and the clock by as much. -/
theorem Timed.shift (h : v.Timed) (t : Shift v v') : v'.Timed := by
  cases t <;> exact ⟨h.clock, h.stamp_le, h.start, h.clamped⟩

end View

/-- In every run, the clocks show the true time. -/
theorem Moment.timed {P : Moment → Prop} {s : Setup} {y : Moment} {d : Nat} {v : View} (r : Run P (initial s) y)
    (h : y.view d = some v) : v.Timed :=
  view_of_run r (fun _ _ _ _ => trivial) (fun _ => View.Fresh.timed) (fun _ _ h (_ : True) t _ => h.turn t)
    (fun _ _ h t => h.shift t) h

end TimedTasks
