import TimedTasks.Proofs.Cache
import TimedTasks.Proofs.Sessions

/-!
# Lengths stay in bounds

A configuration and an update clamp the length that they are given, each with the mode that the task has then, and nothing
else changes the length or the mode of a task. So no task ever has a length above `Interval.longest`, and none that repeats
is empty (`Life.Clamped`). What a round hands on is a length or a part of one: the interval of the remembered task, the
time that it has left, and the deadline with which the round ends (`Act.Moderate`). The sleeps of a run inherit the bound.
-/

namespace TimedTasks

/-- The length, or the time that is left of one, that a round hands on is at most the longest length. -/
def Act.Moderate : Act → Prop
  | reading (.cached _ timing) => timing.length ≤ Interval.longest
  | deadline (some ms) | answered (.deadline (some ms)) => ms ≤ Interval.longest
  | _ => True

namespace Life.Clamped

variable {ℓ : Life}

/-- No length is above the longest one. -/
theorem length_le (h : ℓ.Clamped) : ℓ.timing.length ≤ Interval.longest := UInt32.le_iff_toNat_le.2 h.short

/-- Nor is the time that is left of one. -/
theorem remaining_le (h : ℓ.Clamped) (now : UInt32) : ℓ.timing.remaining now ≤ Interval.longest :=
  UInt32.le_trans (ℓ.timing.remaining_le_length now) h.length_le

/-- A repeating task has a length of one at least. -/
theorem one_le_length (h : ℓ.Clamped) (repeats : ℓ.repeats = true) : 1 ≤ ℓ.timing.length :=
  UInt32.le_iff_toNat_le.2 (h.positive repeats)

/-- An interval that repeats is not over when it begins. -/
theorem unexpired (h : ℓ.Clamped) (repeats : ℓ.repeats = true) : ℓ.timing.expired ℓ.timing.start = false := by
  refine Bool.eq_false_iff.2 fun expired => ?_
  have positive := h.positive repeats
  rw [(Interval.expired_start_iff _).1 expired] at positive
  cases positive

theorem start (h : ℓ.Clamped) (state : TaskState) (now : UInt32) : (ℓ.start state now).Clamped :=
  ⟨h.short, h.positive⟩

end Life.Clamped

/-! ## What a round hands on -/

namespace Act

/-- An answer that is no deadline hands on no length. -/
theorem moderate_answered {a : Answer} (h : ∀ ms, a ≠ .deadline ms) : (answered a).Moderate := by
  cases a <;> first | trivial | exact absurd rfl (h _)

theorem moderate_of_asks {r : Reading} (h : r.asks) : (reading r).Moderate := by
  cases r <;> trivial

end Act

/-- With clamped lengths, every step hands on moderate ones. -/
theorem Leads.moderate {w : World} {δ : Device} {act : Act} {s : Stride} (l : Leads w δ act s)
    (clamped : ∀ i, (δ.scheduler.life i).Clamped) (h : act.Moderate) : ∀ a ∈ s.frames, a.Moderate := by
  have none : ∀ a ∈ ([] : List Act), a.Moderate := by simp
  have only : ∀ {a : Act}, a.Moderate → ∀ b ∈ [a], b.Moderate := fun ha => List.forall_mem_cons.2 ⟨ha, none⟩
  have called : ∀ {call : BoardCall} {bodies : List (List Op)} {a : Act}, a.Moderate →
      ∀ b ∈ [.interrupts call bodies, a], b.Moderate := fun ha => List.forall_mem_cons.2 ⟨trivial, only ha⟩
  cases l with
  | answer other | told _ other | refused _ other | lengthTold other | unclaimed other =>
    exact only (Act.moderate_answered other)
  | asked _ asks | lengthAsked asks => exact called (Act.moderate_of_asks asks)
  | wait => exact only (UInt32.le_trans (Interval.remaining_le_length ..) h)
  | @adopted best now σ left adopted =>
    refine only ?_
    cases left with
    | none => trivial
    | some ms =>
      have returned := DueCache.adopt_left (Scheduler.adopt_changes adopted).1
      obtain ⟨i, -, rfl⟩ := Option.map_eq_some_iff.1 returned.symm
      exact (clamped i).remaining_le now
  | @remembered i t _ slot =>
    have life : δ.scheduler.life i = t.life := Arena.life_of_slot slot
    exact called (life ▸ clamped i).length_le
  | _ => simp [Stride.frames, Act.Moderate]

/-- A sleep inherits the bound from the deadline. -/
theorem Delivers.moderate {δ : Device} {ms : Option UInt32} {act : Act} {s : Stride} (l : Delivers δ ms act s)
    (h : (Act.deadline ms).Moderate) : ∀ a ∈ s.frames, a.Moderate := by
  cases l with
  | round => exact List.forall_mem_cons.2 ⟨h, by simp⟩
  | ticking =>
    refine List.forall_mem_cons.2 ⟨?_, by simp⟩
    cases ms with
    | none => trivial
    | some ms => exact h
  | _ => simp [Stride.frames, Act.Moderate]

namespace View

variable {v v' : View}

/-- The device hands on moderate lengths only. -/
def Moderate (v : View) : Prop := ∀ a ∈ v.acts, a.Moderate

/-- A step hands on lengths in bounds only. -/
theorem Moderate.turn (h : v.Moderate) (timed : v.Timed) (t : Turn v v') : v'.Moderate := by
  cases t with
  | works acts l =>
    rw [Moderate, acts, List.forall_mem_cons] at h
    exact List.forall_mem_append.2 ⟨l.moderate timed.clamped h.1, h.2⟩
  | delivers acts l =>
    rw [Moderate, acts, List.forall_mem_cons, List.forall_mem_cons] at h
    exact List.forall_mem_append.2 ⟨l.moderate h.1, h.2.2⟩

/-- What happens between the steps of a device hands on none. -/
theorem Moderate.shift (h : v.Moderate) (t : Shift v v') : v'.Moderate := by
  cases t with
  | drops acts _ =>
    rw [Moderate, acts, List.forall_mem_cons] at h
    exact h.2
  | arrives self op => exact List.forall_mem_cons.2 ⟨trivial, h⟩

/-- A device that is about to sleep is about to do so for a time, and for the longest length at most. -/
theorem Moderate.sleeps (h : v.Moderate) {ms : UInt32} (deed : v.deed = some (.sleeps ms)) :
    1 ≤ ms ∧ ms ≤ Interval.longest := by
  simp only [View.deed, Device.deed] at deed
  split at deed
  · split at deed <;> cases deed
  · obtain ⟨_, -, other⟩ := Option.map_eq_some_iff.1 deed
    cases other
  · rename_i told rest acts
    split at deed
    · rename_i nap
      cases deed
      have moderate := h (.deadline told) (acts ▸ List.mem_cons_self)
      refine ⟨?_, ?_⟩
      · rw [UInt32.le_iff_toNat_le]
        exact Nat.one_le_iff_ne_zero.2 fun zero => nap.2 (UInt32.toNat_inj.1 zero)
      · cases told with
        | none => exact UInt32.le_refl _
        | some ms => exact moderate
    · cases deed
  · cases deed
  · cases deed

end View

namespace Moment

variable {P : Moment → Prop} {s : Setup} {x y : Moment} {d : Nat} {v : View} {δ : Device} {below : List Frame}

/-- So it is in every run. -/
theorem moderate (r : Run P (initial s) y) (h : y.view d = some v) : v.Moderate := by
  have known : ∀ z, Run P (initial s) z → ∀ v, z.view d = some v → v.Timed := fun z r v hv => timed r hv
  exact view_of_run (I := View.Moderate) (Q := View.Timed) (r.also known) (fun z v p hv => p.2 v hv)
    (fun v fresh a m => by rw [fresh.acts] at m; cases m) (fun _ _ h q t _ => h.turn q t) (fun _ _ h t => h.shift t) h

/-- What a device slept, as the record tells it. -/
theorem slept_moderate (r : Run P (initial s) y) (h : y.view d = some v) {ms : UInt32}
    (slept : .sleeps ms ∈ y.machine.world.deeds d) : 1 ≤ ms ∧ ms ≤ Interval.longest := by
  induction r generalizing v with
  | here => simp [World.deeds, initial, Setup.world] at slept
  | more r next _ ih =>
    have stacked := stacked_of_run r
    obtain ⟨u, hu, -⟩ := next.view_later stacked h
    rw [next.deeds stacked hu, List.mem_append] at slept
    refine slept.elim (ih hu) fun here => (moderate r hu).sleeps ?_
    exact Option.mem_toList.1 (List.mem_filter.1 here).1

/-- A stamp begins the interval of its task with the clock, and changes nothing else of it but the state. -/
theorem Next.begins {act : Act} {i : Nat} (next : x.Next y) (top : x.machine.stack = ⟨d, act⟩ :: below)
    (stamps : act.stamps = some i) (found : x.machine.world.devices[d]? = some δ) :
    ∃ δ' t state, y.machine.world.devices[d]? = some δ' ∧ δ.scheduler.arena[i]? = some t ∧
      δ'.scheduler.arena[i]? = some (t.start state δ.board.clock) := by
  obtain ⟨δ₀, s, found', l, takes⟩ := next.leads_of_top top (by cases act <;> first | rfl | cases stamps)
  cases found.symm.trans found'
  have started : ∀ {state σ}, δ.scheduler.start i state δ.board.clock = .ok σ → s.scheduler = σ →
      ∃ δ' t state, y.machine.world.devices[d]? = some δ' ∧ δ.scheduler.arena[i]? = some t ∧
        δ'.scheduler.arena[i]? = some (t.start state δ.board.clock) := by
    intro state σ st same
    obtain ⟨a, changed, rfl⟩ := Scheduler.alter_eq_ok st
    obtain ⟨bound, -⟩ := Arena.alter_eq_ok_iff.1 changed
    refine ⟨s.device, δ.scheduler.arena[i], state, takes.device_same found, Array.getElem?_eq_getElem bound, ?_⟩
    rw [Stride.scheduler_device, same]
    show a[i]? = _
    rw [Arena.getElem?_alter changed, if_pos rfl, Array.getElem?_eq_getElem bound]
    rfl
  cases l with
  | stamp st => cases stamps; exact started st rfl
  | renew st => cases stamps; exact started st rfl
  | @asked r _ asks | @told r _ asks => cases r <;> first | cases asks; done | cases stamps
  | _ => cases stamps

/-- In every run, whatever lengths and modes handlers, interrupts and other calls ask for: no task has a length above the
longest, and none that repeats has an empty one. So no round on demand returns more than the longest length, no run sleeps
for longer than that or for no time at all, and a repeating task that is stamped is not over at the clock reading of its
stamp. -/
theorem lengths_in_bounds (r : Run P (initial s) x) (found : x.machine.world.devices[d]? = some δ) :
    (∀ (i : Nat) (t : Task), δ.scheduler.arena[i]? = some t →
      t.timing.length ≤ Interval.longest ∧ (t.repeats = true → 1 ≤ t.timing.length)) ∧
    (∀ ms, ⟨d, .answered (.deadline (some ms))⟩ ∈ x.machine.stack → ms ≤ Interval.longest) ∧
    (∀ ms, δ.deed (pending d x.machine.stack) = some (.sleeps ms) ∨ .slept d ms ∈ x.machine.world.trace →
      1 ≤ ms ∧ ms ≤ Interval.longest) ∧
    ∀ act i below y, x.machine.stack = ⟨d, act⟩ :: below → act.stamps = some i → x.Next y →
      ∃ δ' t, y.machine.world.devices[d]? = some δ' ∧ δ'.scheduler.arena[i]? = some t ∧
        t.timing.start = δ.board.clock ∧ (t.repeats = true → t.timing.expired δ.board.clock = false) := by
  have shown := view_of_device found
  have clamped : ∀ {i : Nat} {t : Task}, δ.scheduler.arena[i]? = some t → t.life.Clamped := by
    intro i t slot
    rw [← Arena.life_of_slot (Arena.slot_eq_ok_iff.2 slot)]
    exact (timed r shown).clamped i
  refine ⟨fun i t slot => ⟨(clamped slot).length_le, (clamped slot).one_le_length⟩, fun ms m => ?_, fun ms sleeps => ?_,
    fun act i below y top stamps next => ?_⟩
  · exact moderate r shown (.answered (.deadline (some ms))) (mem_pending.2 m)
  · rcases sleeps with now | before
    · exact (moderate r shown).sleeps now
    · refine slept_moderate r shown (List.mem_filterMap.2 ⟨_, Array.mem_toList_iff.2 before, ?_⟩)
      exact if_pos rfl
  · obtain ⟨δ', t, state, later, slot, started⟩ := next.begins top stamps found
    exact ⟨δ', _, later, started, rfl, ((clamped slot).start state δ.board.clock).unexpired⟩

/-- A task that is to run once, after as long as can be asked for. An interrupt of the sleep makes it a task that repeats,
with no length at all. -/
def changeMode : List (Nat × Op) :=
  [(0, .declare), (0, .init), (0, .configure (.slot 0) 0 4294967295 false), (0, .start (.slot 0)),
    (0, .hook .sleep 0 [.configure (.slot 0) 0 0 true, .start (.slot 0)]), (0, .run)]

/-- The run sleeps for a week, over a wrap of the clock. When the task is stamped for its next interval then, it is not due
at once. -/
theorem lengths_in_bounds_of_interrupt : ∃ (x y : Moment) (δ δ' : Device) (t : Task), x.Next y ∧
    x.machine.world.devices[0]? = some δ ∧ .slept 0 604800000 ∈ x.machine.world.trace ∧
    (604800000 : UInt32) ≤ Interval.longest ∧ y.machine.world.devices[0]? = some δ' ∧ δ.board.clock = 604799999 ∧
    δ'.scheduler.arena[0]? = some t ∧ t.repeats = true ∧ t.timing.expired δ.board.clock = false := by
  let at' := fun n => ((initial ⟨[⟨1, 4294967295, [], []⟩], false, [], [[]], 5, false⟩).steps n changeMode).1
  have r : Run (fun _ => True) (initial _) (at' 66) := run_steps (by decide +kernel)
  have next : (at' 66).Next (at' 67) := next_steps (by decide +kernel)
  have slept : .slept 0 604800000 ∈ (at' 66).machine.world.trace := by decide +kernel
  have clock : (at' 66).machine.clock 0 = 604799999 := by decide +kernel
  have repeats : ((at' 67).machine.world.devices[0]?.bind (·.scheduler.arena[0]?)).any (·.repeats) := by decide +kernel
  have top : (at' 66).machine.stack = ⟨0, .reading (.renew 0)⟩ :: (at' 66).machine.stack.tail := by rfl
  obtain ⟨δ, found⟩ : ∃ δ, (at' 66).machine.world.devices[0]? = some δ := Option.isSome_iff_exists.1 (by decide +kernel)
  obtain ⟨-, -, sleeps, renewed⟩ := lengths_in_bounds r found
  obtain ⟨δ', t, later, slot, -, unexpired⟩ := renewed _ 0 _ _ top rfl next
  rw [later, Option.bind_some, slot, Option.any_some] at repeats
  rw [Machine.clock_eq found] at clock
  exact ⟨_, _, δ, δ', t, next, found, slept, (sleeps _ (.inr slept)).2, later, clock, slot, repeats, unexpired repeats⟩

end Moment

end TimedTasks
