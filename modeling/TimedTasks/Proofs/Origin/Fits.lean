import TimedTasks.Proofs.Origin.Steps
import TimedTasks.Proofs.Tame

/-!
# The tally stays right

`Machine.step_shift` asks that all slots that can be compared by their intervals were started (`Tally.Fits`). Armed
slots were, since only a stamp arms a slot, and a slot that is reset is not armed. A slot that a frame is still to
compare was stamped, or waited, when the frame came on the stack. Only a session that begins or ends in between could
reset it, and interrupts that begin no session and no round leave no room for that (`Machine.Turn.fits`).
-/

namespace TimedTasks

variable {T : Tally} {m m' : Machine} {d n : Nat} {δ : Device} {act : Act} {rest : List Frame}

/-! ## What the tally keeps -/

namespace Tally

variable {σ : Scheduler}

theorem started_after (plain : act.resets = false) (i : Nat) :
    (T.after σ d n act).started d i = (T.started d i || act.stamps = some i) := by
  cases act with
  | reading r =>
    cases r with
    | start j next | renew j =>
      by_cases same : i = j
      · subst same
        simp [after, stamped, Act.stamps]
      · simp [after, stamped, Act.stamps, same, Ne.symm same]
    | _ => simp [after, Act.stamps]
  | locked s => cases s <;> first | cases plain; done | simp [after, Act.stamps]
  | _ => simp [after, Act.stamps]

theorem started_after_reset {l : List Nat} (resets : act.resets) (queued : σ.queued = .ok l) (i : Nat) :
    (T.after σ d n act).started d i = (T.started d i && i ∉ l) := by
  cases act with
  | locked s => cases s <;> first | cases resets; done | simp [after, reset, queued]
  | _ => cases resets

/-- Nothing is noted of other devices. -/
theorem started_after_ne {e : Nat} (other : e ≠ d) : (T.after σ d n act).started e = T.started e := by
  cases act with
  | reading r => cases r <;> first | rfl | exact Function.update_of_ne other _ _
  | locked s =>
    cases s with
    | beginSession => exact (beside_after_reset (.locked .beginSession) rfl).started e other
    | endSession => exact (beside_after_reset (.locked .endSession) rfl).started e other
    | _ => rfl
  | _ => rfl

theorem started_heard {u : Bool} : (T.heard n u act).started = T.started := by
  cases act <;> rfl

end Tally

/-! ## Armed slots -/

theorem Life.armed_of_stop {ℓ : Life} (h : ℓ.stop.state.armed) : ℓ.state.armed := by
  rcases ℓ with ⟨state, timing, repeats, handler⟩
  cases state <;> first | exact h | cases h

theorem Life.armed_of_settle {ℓ : Life} (h : ℓ.settle.state.armed) : ℓ.state.armed := by
  rcases ℓ with ⟨state, timing, repeats, handler⟩
  cases state <;> first | rfl | cases h

/-- Only a stamp arms a slot. -/
theorem Lives.armed {σ : Scheduler} {now : UInt32} {life : Nat → Life} {i : Nat} (l : Lives σ now act life)
    (plain : act.resets = false) (h : (life i).state.armed) : (σ.life i).state.armed ∨ act.stamps = some i := by
  have split : ∀ {j : Nat} {ℓ : Life}, (Function.update σ.life j ℓ i).state.armed →
      (σ.life i).state.armed ∨ i = j ∧ ℓ.state.armed := by
    intro j ℓ h
    by_cases same : i = j
    · subst same
      exact .inr ⟨rfl, by rwa [Function.update_self] at h⟩
    · exact .inl (by rwa [Function.update_of_ne same] at h)
  cases l with
  | same => exact .inl h
  | relength =>
    obtain old | ⟨rfl, armed⟩ := split h
    · exact .inl old
    · exact .inl armed
  | stop =>
    obtain old | ⟨rfl, armed⟩ := split h
    · exact .inl old
    · exact .inl (Life.armed_of_stop armed)
  | settle =>
    obtain old | ⟨rfl, armed⟩ := split h
    · exact .inl old
    · exact .inl (Life.armed_of_settle armed)
  | stamp | renew =>
    obtain old | ⟨rfl, -⟩ := split h
    · exact .inl old
    · exact .inr rfl
  | configure | dispatch =>
    -- The slot that is written is left stopped, or stopping.
    obtain old | ⟨-, armed⟩ := split h
    · exact .inl old
    · cases armed
  | dismiss resets => rcases resets with rfl | rfl <;> cases plain

/-- The ends of a session leave the slots that they take out of the queue blank. -/
theorem Leads.dismissed {w : World} {s : Stride} (l : Leads w δ act s) (resets : act.resets) :
    ∃ l, δ.scheduler.queued = .ok l ∧ ∀ i, s.scheduler.life i = if i ∈ l then .blank else δ.scheduler.life i := by
  cases act with
  | locked sec =>
    cases sec with
    | beginSession =>
      cases l with
      | begun b => exact (Scheduler.beginSession_dismissed b).1.life
      | refused r => cases r
    | endSession =>
      cases l with
      | ended e => exact (Scheduler.endSession_dismissed e).1.life
      | refused r => cases r
    | _ => cases resets
  | _ => cases resets

/-- Armed slots stay slots that were started. -/
theorem Leads.armed {w : World} {s : Stride} (l : Leads w δ act s)
    (h : ∀ i, (δ.scheduler.life i).state.armed → T.started d i) (i : Nat) (armed : (s.scheduler.life i).state.armed) :
    (T.after δ.scheduler d n act).started d i := by
  cases resets : act.resets with
  | false =>
    rw [Tally.started_after resets, Bool.or_eq_true, decide_eq_true_eq]
    exact (l.lives.armed resets armed).imp (h i) id
  | true =>
    obtain ⟨linked, queued, life⟩ := l.dismissed resets
    rw [life] at armed
    by_cases gone : i ∈ linked
    · rw [if_pos gone] at armed
      cases armed
    · rw [if_neg gone] at armed
      rw [Tally.started_after_reset resets queued]
      simp [h i armed, gone]

/-! ## Slots that are to be compared -/

/-- A slot that a frame is to compare was stamped in the step that brought the frame, or it waited then. -/
theorem Leads.compares {w : World} {s : Stride} (l : Leads w δ act s) :
    ∀ a ∈ s.frames, ∀ i, a.compares = some i →
      act.resets = false ∧ ((δ.scheduler.life i).state.armed ∨ act.stamps = some i) := by
  cases l with
  | stamp =>
    intro a m i c
    simp only [Stride.frames, List.mem_cons, List.not_mem_nil, or_false] at m
    rcases m with rfl | rfl
    · cases c
    · cases c
      exact ⟨rfl, .inr rfl⟩
  | scan scan =>
    intro a m i c
    simp only [Stride.frames, List.mem_cons, List.not_mem_nil, or_false] at m
    rcases m with rfl | rfl
    · cases c
    · obtain ⟨l, queued, -⟩ := bind_eq_ok.1 scan
      have waits := (Scheduler.scan_eq_ok scan queued).1 i c
      exact ⟨rfl, .inl waits.armed⟩
  | ask ask => cases ask <;> simp [Stride.frames, Act.compares]
  | _ => simp [Stride.frames, Act.compares]

/-- The frames that are to compare a slot go on after a call on the board. -/
theorem Act.resumes_of_compares {i : Nat} (h : act.compares = some i) : act.resumes := by
  cases act with
  | locked s => rfl
  | _ => cases h

/-- Acts of all devices lie on each other as those of one. -/
theorem Stacked.acts {stack : List Frame} (h : Stacked stack) : Column (stack.map (·.act)) := by
  induction stack with
  | nil => trivial
  | cons f rest ih =>
    cases rest with
    | nil => exact h.1
    | cons g rest => exact ⟨h.1.1, ih h.2⟩

/-- Below the ends of a session nothing is to be compared. -/
theorem not_compares_of_resets (stacked : Stacked (⟨d, act⟩ :: rest))
    (guarded : Machine.Guarded Act.minor (⟨d, act⟩ :: rest)) (resets : act.resets) :
    ∀ f ∈ rest, f.act.compares = none := by
  intro f m
  have major : act.minor = false := by
    cases act with
    | locked s => cases s <;> first | rfl | cases resets
    | _ => cases resets
  have waits := stacked.acts.unresumed tame_calm guarded major f.act (List.mem_map_of_mem m)
  by_contra some
  obtain ⟨i, c⟩ := Option.ne_none_iff_exists'.1 some
  rw [Act.resumes_of_compares c] at waits
  cases waits

/-! ## A step -/

/-- What the tally knows of started slots is all that matters. -/
theorem Tally.Fits.of_started {T' : Tally} (h : T.Fits m) (started : T'.started = T.started)
    (devices : m'.world.devices = m.world.devices) (stack : ∀ f ∈ m'.stack, f.act.compares = none ∨ f ∈ m.stack) :
    T'.Fits m' := by
  refine ⟨fun d δ found => ?_, fun f mem i c => ?_⟩
  · rw [started]
    exact h.armed d δ (devices ▸ found)
  · rw [started]
    rcases stack f mem with none | old
    · rw [none] at c
      cases c
    · exact h.compared f old i c

namespace Machine

theorem tally_works {w : World} {s : Stride} (top : m.stack = ⟨d, act⟩ :: rest)
    (found : m.world.devices[d]? = some δ) (l : Leads w δ act s) :
    m.tally T = T.after δ.scheduler d rest.length act := by
  unfold tally
  rw [top]
  cases act with
  | answered a => cases l
  | deadline ms => cases l
  | _ => simp only [found]

/-- A stride fits a tally that knows what the tally before knew, of the slots that are armed after it, and of those that
are to be compared. -/
theorem Takes.fits {T' : Tally} {s : Stride} (t : m.Takes m' d s rest) (fits : T.Fits m)
    (below : ∀ f ∈ rest, f ∈ m.stack) (found : m.world.devices[d]? = some δ)
    (other : ∀ e, e ≠ d → T'.started e = T.started e)
    (armed : ∀ i, (s.scheduler.life i).state.armed → T'.started d i)
    (new : ∀ a ∈ s.frames, ∀ i, a.compares = some i → T'.started d i)
    (old : ∀ f ∈ rest, ∀ i, f.act.compares = some i → T.started d i → T'.started d i) : T'.Fits m' := by
  constructor
  · intro e ε found' i waits
    by_cases same : d = e
    · subst same
      cases (t.device_same found).symm.trans found'
      rw [Stride.scheduler_device] at waits
      exact armed i waits
    · rw [t.device same] at found'
      rw [other e (Ne.symm same)]
      exact fits.armed e ε found' i waits
  · intro f mem i c
    rw [t.stack] at mem
    rcases List.mem_append.1 mem with brought | left
    · obtain ⟨a, ma, rfl⟩ := List.mem_map.1 brought
      exact new a ma i c
    · have before := fits.compared f (below f left) i c
      by_cases same : f.device = d
      · rw [same] at before ⊢
        exact old f left i c before
      · rwa [other f.device same]

/-- As long as interrupts begin no session and no round, the tally stays right. -/
theorem Turn.fits (turn : m.Turn m') (stacked : Stacked m.stack) (guarded : Guarded Act.minor m.stack)
    (fits : T.Fits m) : (m.tally T).Fits m' := by
  cases turn with
  | works d act rest δ s top found l takes =>
    rw [tally_works top found l]
    rw [top] at stacked guarded
    have ready := fits.ready top found
    refine takes.fits fits (fun f mem => top ▸ List.mem_cons_of_mem _ mem) found
      (fun e => Tally.started_after_ne) (l.armed ready.armed) (fun a ma i c => ?_) (fun f mem i c before => ?_)
    · obtain ⟨plain, known⟩ := l.compares a ma i c
      rw [Tally.started_after plain, Bool.or_eq_true, decide_eq_true_eq]
      exact known.imp (ready.armed i) id
    · -- Only the ends of a session could make the tally forget the slot, and they do not lie above its frame.
      cases resets : act.resets with
      | true =>
        rw [not_compares_of_resets stacked guarded resets f mem] at c
        cases c
      | false =>
        rw [Tally.started_after resets, before]
        rfl
  | delivers d e ms act rest δ s top found l takes =>
    have same : s.scheduler.life = δ.scheduler.life := by cases l <;> rfl
    have quiet : ∀ a ∈ s.frames, a.compares = none := by cases l <;> simp [Stride.frames, Act.compares]
    rw [show m.tally T = T by simp only [tally, top]]
    refine takes.fits fits (fun f mem => top ▸ List.mem_cons_of_mem _ (List.mem_cons_of_mem _ mem)) found
      (fun _ _ => rfl) (fun i armed => fits.armed d δ found i (same ▸ armed)) (fun a ma i c => ?_) (fun _ _ _ _ => id)
    rw [quiet a ma] at c
    cases c
  | redirects d e self op rest top world top' =>
    refine fits.of_started ?_ (by rw [world]) fun f mem => ?_
    · simp only [tally, top]
      cases m.world.devices[d]? <;> rfl
    · rw [top'] at mem
      rcases List.mem_cons.1 mem with rfl | old
      · exact .inl rfl
      · exact .inr (by rw [top]; exact List.mem_cons_of_mem _ old)
  | answers d e a act rest top _ alike top' =>
    refine fits.of_started ?_ alike.devices fun f mem => ?_
    · simp only [tally, top, Tally.started_heard]
    · rw [top'] at mem
      exact .inr (by rw [top]; exact List.mem_cons_of_mem _ (List.mem_cons_of_mem _ mem))
  | finishes d a top world top' =>
    refine fits.of_started ?_ (by rw [world]) fun f mem => ?_
    · simp only [tally, top]
    · rw [top'] at mem
      cases mem
  | calls d op top world top' =>
    refine fits.of_started ?_ (by rw [world]) fun f mem => ?_
    · simp only [tally, top]
    · rw [top', List.mem_singleton] at mem
      exact .inl (mem ▸ rfl)

end Machine

end TimedTasks
