import TimedTasks.Proofs.Course

/-!
# The stages of a call

Most operations read the clock and take the lock a few times and are done. What such a call has come to is its lowest
frame, and all that happens above it are interrupts: `Run.stages` is `Run.bottom` for these calls. They are answered with
a step of that frame (`Run.answer`), so the answer of a call is an answer to the world as that step found it.
-/

namespace TimedTasks

/-- To put a device where it is changes nothing. -/
theorem World.put_self {w : World} {d : Nat} {δ : Device} (h : w.devices[d]? = some δ) : w.put d δ = w := by
  rw [put, show w.devices.setIfInBounds d δ = _ from Machine.put_same h]

/-- When a piece of work under the lock is on top, the next step is that piece of work. -/
theorem Moment.Next.does {x y : Moment} {d : Nat} {s : Section} {below : List Frame} (next : x.Next y)
    (top : x.machine.stack = ⟨d, .locked s⟩ :: below) : ∃ δ move, x.machine.world.devices[d]? = some δ ∧
      x.machine.world.work d δ s = .ok move ∧ y.machine = ⟨move.world, move.frames ++ below⟩ :=
  next.machine.moves top (fun _ => Act.noConfusion) fun _ => Act.noConfusion

theorem Moment.Next.step_eq {x y : Moment} {d : Nat} {s : Section} {below : List Frame} (next : x.Next y)
    (top : x.machine.stack = ⟨d, .locked s⟩ :: below) : x.machine.step = .next y.machine := by
  obtain ⟨δ, move, found, done, eq⟩ := next.does top
  rw [eq, Machine.step, top]
  show Machine.onto below (x.machine.world.device d >>= fun δ => x.machine.world.step d δ (.locked s)) = _
  rw [World.device_eq_ok_iff.2 found, bind_eq_ok.2 ⟨δ, rfl, show x.machine.world.step d δ (.locked s) = .ok move from done⟩]
  rfl

/-- When the beginning of an operation is on top, the next step is that beginning. -/
theorem Moment.Next.performs {x y : Moment} {d : Nat} {self : Option Nat} {op : Op} {below : List Frame} (next : x.Next y)
    (top : x.machine.stack = ⟨d, .perform self op⟩ :: below) : ∃ δ move, x.machine.world.devices[d]? = some δ ∧
      x.machine.world.perform d δ self op = .ok move ∧ y.machine = ⟨move.world, move.frames ++ below⟩ :=
  next.machine.moves top (fun _ => Act.noConfusion) fun _ => Act.noConfusion

/-- The act is what an operation without rounds of its own has come to. -/
def Act.straight (a : Act) : Bool := a.calls && !a.loops

namespace Run

variable {P : Moment → Prop} {x y : Moment} {f : Frame} {below : List Frame} {I : Moment → Frame → Prop}

/-- What holds of such a call after its first step, and is kept by its interrupts and by its own steps, holds as long as it
is in progress. -/
theorem stages (r : Run (fun z => P z ∧ z.Within below) x y) (stacked : Stacked x.machine.stack)
    (top : x.machine.stack = f :: below) (calls : f.act.straight)
    (first : ∀ z g above, x.Next z → P z → z.machine.stack = above ++ g :: below → I z g)
    (straight : ∀ z g, I z g → g.act.straight)
    (above : ∀ z z' g, I z g → Run (fun z => P z ∧ z.Within below) x z → z.Next z' → P z' → z'.Within below → I z' g)
    (own : ∀ z z' g g' above, I z g → Run (fun z => P z ∧ z.Within below) x z → z.Next z' → P z' →
      z.machine.stack = g :: below → z'.machine.stack = above ++ g' :: below → I z' g') :
    ∃ above g, y.machine.stack = above ++ g :: below ∧ ((y = x ∧ g = f) ∨ I y g) := by
  have known : ∀ z, Run (fun z => P z ∧ z.Within below) x z →
      Stacked z.machine.stack ∧ Run (fun z => P z ∧ z.Within below) x z := fun z r =>
    ⟨r.invariant stacked fun _ _ h _ next _ => next.machine.turn.stacked h, r⟩
  have plain : ∀ z g, ((z = x ∧ g = f) ∨ I z g) → g.act.calls = true ∧ g.act.loops = false := by
    rintro z g (⟨-, rfl⟩ | h)
    · simpa [Act.straight] using calls
    · simpa [Act.straight] using straight z g h
  refine Run.bottom (I := fun z g => (z = x ∧ g = f) ∨ I z g) (r.also known) top (.inl ⟨rfl, rfl⟩) (fun z p => p.1.2)
    (fun z g h => Act.takesAnswer_of_calls (plain z g h).1) (fun z z' g a mid _ h p next p' stack _ => ?_)
    (fun z z' g g' mid h p next p' stack stack' => ?_) fun z z' g g' e ms mid h p next _ stack _ => ?_
  · rcases h with ⟨rfl, -⟩ | h
    · -- Nothing was above the frame when the call began.
      have length := congrArg List.length (stack.symm.trans top)
      simp only [List.cons_append, List.length_cons, List.length_append] at length
      omega
    · exact .inr (above z z' g h p.2.2 next p'.1.1 p'.1.2)
  · rcases h with ⟨rfl, rfl⟩ | h
    · exact .inr (first z' g' mid next p'.1.1 stack')
    · exact .inr (own z z' g g' mid h p.2.2 next p'.1.1 stack stack')
  · -- No round is asked for, so no deadline comes.
    rcases (stack ▸ p.2.1).1.1 with round | loops
    · have call := (plain z g h).1
      rw [round] at call
      cases call
    · rw [(plain z g h).2] at loops
      cases loops

/-- A call that is answered is answered by a step of its lowest frame. -/
theorem answer {d : Nat} {a : Answer} (r : Run (fun z => P z ∧ z.Within below) x y) (stacked : Stacked x.machine.stack)
    (top : x.machine.stack = f :: below) (calls : f.act.straight) (unanswered : ∀ b, f.act ≠ .answered b)
    (answered : y.machine.stack = ⟨d, .answered a⟩ :: below)
    (first : ∀ z g above, x.Next z → P z → z.machine.stack = above ++ g :: below → I z g)
    (straight : ∀ z g, I z g → g.act.straight)
    (above : ∀ z z' g, I z g → Run (fun z => P z ∧ z.Within below) x z → z.Next z' → P z' → z'.Within below → I z' g)
    (own : ∀ z z' g g' above, I z g → Run (fun z => P z ∧ z.Within below) x z → z.Next z' → P z' →
      z.machine.stack = g :: below → z'.machine.stack = above ++ g' :: below → I z' g') :
    x.Next y ∨ ∃ w g, Run (fun z => P z ∧ z.Within below) x w ∧ w.machine.stack = g :: below ∧ I w g ∧ w.Next y := by
  cases r with
  | here => cases top.symm.trans answered; exact absurd rfl (unanswered a)
  | @more w _ r next p =>
    obtain ⟨front, g, stack, stage⟩ := r.stages stacked top calls first straight above own
    have known : Stacked w.machine.stack := r.invariant stacked fun _ _ h _ next _ => next.machine.turn.stacked h
    have alone : front = [] := by
      cases front with
      | nil => rfl
      | cons b front =>
        rcases next.machine.turn.keeps stack with ⟨front', kept⟩ | ⟨rfl, ms, deadline⟩ | ⟨-, -, left⟩
        · -- The frame would be the answer itself, with something above it.
          have same : [_].getLast? = some g := getLast?_eq_of_append (answered.symm.trans kept)
          cases same
          exact (Stacked.bare (stack ▸ known)).elim
        · have sits := (stack ▸ known).1.1
          rw [deadline] at sits
          have plain : g.act.calls = true ∧ g.act.loops = false := by
            rcases stage with ⟨-, rfl⟩ | h
            · simpa [Act.straight] using calls
            · simpa [Act.straight] using straight w g h
          rcases sits with round | loops
          · rw [round] at plain
            cases plain.1
          · rw [plain.2] at loops
            cases loops
        · have length := congrArg List.length (left.symm.trans answered)
          simp only [List.length_cons] at length
          omega
    subst alone
    rcases stage with ⟨rfl, -⟩ | h
    · exact .inl next
    · exact .inr ⟨w, g, r, stack, h, next⟩

/-- A call that asks for a piece of work under the lock, and answers with what comes of it, is answered by its first step,
when it is refused at once, or else by that piece of work. -/
theorem asked {d : Nat} {self : Option Nat} {op : Op} {s : Section} {a : Answer}
    (r : Run (fun z => P z ∧ z.Within below) x y) (stacked : Stacked x.machine.stack)
    (top : x.machine.stack = ⟨d, .perform self op⟩ :: below) (answered : y.machine.stack = ⟨d, .answered a⟩ :: below)
    (calls : (Act.locked s).calls)
    (asks : ∀ (z : Moment) g above, x.Next z → z.machine.stack = above ++ g :: below →
      g = ⟨d, .locked s⟩ ∨ ∃ a, g = ⟨d, .answered a⟩)
    (ends : ∀ (w z : Moment) g above, w.Next z → w.machine.stack = ⟨d, .locked s⟩ :: below →
      z.machine.stack = above ++ g :: below → ∃ a, g = ⟨d, .answered a⟩) :
    x.Next y ∨ ∃ w, Run (fun z => P z ∧ z.Within below) x w ∧ w.machine.stack = ⟨d, .locked s⟩ :: below ∧ w.Next y := by
  refine (r.answer (I := fun _ g => g = ⟨d, .locked s⟩ ∨ ∃ a, g = ⟨d, .answered a⟩) stacked top rfl nofun answered
    (fun z g above next _ stack => asks z g above next stack) ?_ (fun _ _ _ h _ _ _ _ => h) ?_).imp_right ?_
  · rintro - g (rfl | ⟨b, rfl⟩)
    · simpa [Act.straight, Act.loops] using calls
    · rfl
  · rintro z z' g g' above (rfl | ⟨b, rfl⟩) - next - stack stack'
    · exact .inr (ends z z' g' above next stack stack')
    · exact absurd ⟨above, g', stack'⟩ (next.not_within stack)
  · rintro ⟨w, g, before, stack, rfl | ⟨b, rfl⟩, next⟩
    · exact ⟨w, before, stack, next⟩
    · exact absurd r.last.2 (next.not_within stack)

end Run

end TimedTasks
