import TimedTasks.Proofs.Record
import TimedTasks.Proofs.Tame

/-!
# Calls in progress

A call that began on top of the frames `below` is in progress while there is something above them (`Moment.Within`).
What it has come to is the lowest of its frames, right above `below`: interrupts, handlers and other calls come and go
above that frame, but only its own steps change it, or the deadline of a round that it asked for (`Run.bottom`).

Steps are opened here once more (`Machine.Next.moves`), for those few that are needed to the last detail.
-/

namespace TimedTasks

/-- What can come after a machine, to the last detail. -/
inductive Machine.Goes (m m' : Machine) : Prop
  | calls (d op) : m.stack = [] → m' = .call m.world d op → Goes m m'
  | finishes (d a) : m.stack = [⟨d, .answered a⟩] → m' = ⟨m.world, []⟩ → Goes m m'
  | answers (e a d act rest δ move) : m.stack = ⟨e, .answered a⟩ :: ⟨d, act⟩ :: rest → m.world.devices[d]? = some δ →
      m.world.takeAnswer d δ a act = .ok move → m' = ⟨move.world, move.frames ++ rest⟩ → Goes m m'
  | delivers (e ms d act rest δ move) : m.stack = ⟨e, .deadline ms⟩ :: ⟨d, act⟩ :: rest → m.world.devices[d]? = some δ →
      m.world.takeDeadline d δ ms act = .ok move → m' = ⟨move.world, move.frames ++ rest⟩ → Goes m m'
  | works (d act rest δ move) : m.stack = ⟨d, act⟩ :: rest → m.world.devices[d]? = some δ →
      m.world.step d δ act = .ok move → m' = ⟨move.world, move.frames ++ rest⟩ → Goes m m'

theorem Machine.Next.goes {m m' : Machine} (next : m.Next m') : m.Goes m' := by
  have works : ∀ {d act rest}, m.stack = ⟨d, act⟩ :: rest →
      onto rest (m.world.device d >>= fun δ => m.world.step d δ act) = .next m' → m.Goes m' := by
    intro d act rest top h
    obtain ⟨move, hm, rfl⟩ := onto_eq_next h
    obtain ⟨δ, hδ, hm⟩ := bind_eq_ok.1 hm
    exact .works d act rest δ move top (World.device_eq_ok_iff.1 hδ) hm rfl
  cases next with
  | call d op idle => exact .calls d op idle rfl
  | finish done =>
    unfold Machine.step at done
    split at done
    · cases done
    · rename_i top
      cases done
      exact .finishes _ _ top rfl
    all_goals
      unfold onto at done
      split at done <;> cases done
  | step next =>
    unfold Machine.step at next
    split at next
    · cases next
    · cases next
    · rename_i e a d act rest top
      obtain ⟨move, hm, rfl⟩ := onto_eq_next next
      obtain ⟨δ, hδ, hm⟩ := bind_eq_ok.1 hm
      exact .answers e a d act rest δ move top (World.device_eq_ok_iff.1 hδ) hm rfl
    · rename_i e ms d act rest top
      obtain ⟨move, hm, rfl⟩ := onto_eq_next next
      obtain ⟨δ, hδ, hm⟩ := bind_eq_ok.1 hm
      exact .delivers e ms d act rest δ move top (World.device_eq_ok_iff.1 hδ) hm rfl
    · rename_i top
      exact works top next

/-- When the frame on top is no result, the next step is what that frame does. -/
theorem Machine.Next.moves {m m' : Machine} {d : Nat} {act : Act} {rest : List Frame} (next : m.Next m')
    (top : m.stack = ⟨d, act⟩ :: rest) (answer : ∀ a, act ≠ .answered a) (deadline : ∀ ms, act ≠ .deadline ms) :
    ∃ δ move, m.world.devices[d]? = some δ ∧ m.world.step d δ act = .ok move ∧
      m' = ⟨move.world, move.frames ++ rest⟩ := by
  cases next.goes with
  | calls e op idle => cases top.symm.trans idle
  | finishes e a top' => cases top.symm.trans top'; exact absurd rfl (answer a)
  | answers e a d' act' rest' δ move top' => cases top.symm.trans top'; exact absurd rfl (answer a)
  | delivers e ms d' act' rest' δ move top' => cases top.symm.trans top'; exact absurd rfl (deadline ms)
  | works d' act' rest' δ move top' found step eq =>
    cases top.symm.trans top'
    exact ⟨δ, move, found, step, eq⟩

namespace Act

variable {a b : Act}

theorem takesAnswer_of_calls (h : b.calls) : b.takesAnswer = false := by
  cases b <;> first | rfl | cases h

/-- What lies on the lowest frame of a call: the interrupts of a call on the board, or what a loop of rounds has above
it. -/
theorem sits_on_call (h : a.Sits b) (hb : b.calls) : (b.resumes ∧ a.interrupted) ∨
    (b.loops ∧ (a = .round ∨ (∃ ms, a = .deadline ms) ∨ (∃ ms, a = .sleeping ms) ∨ ∃ self ops, a = .block self ops)) := by
  by_cases r : b.resumes
  · exact .inl ⟨r, Column.interrupted_of_resumes h r⟩
  · refine .inr ?_
    cases b with
    | reading | locked | opening | closing | sleeping => exact absurd rfl r
    | perform | claiming | answered | running | ticking =>
      cases a with
      | reading r' => cases r' <;> simp_all [Sits, takesAnswer, walks]
      | locked s => cases s <;> simp_all [Sits, takesAnswer]
      | _ => simp_all [Sits, takesAnswer, walks, loops, resumes]
    | _ => cases hb

end Act

/-- Nothing lies on a result. -/
theorem Stacked.bare {d : Nat} {x : Answer} {a : Frame} {above below : List Frame}
    (h : Stacked (a :: above ++ ⟨d, .answered x⟩ :: below)) : False := by
  induction above generalizing a with
  | nil => exact Act.not_sits_result (.inr ⟨x, rfl⟩) h.1.1
  | cons b above ih => exact ih h.2

namespace Moment

/-- A call that began on top of the frames `below` is in progress. -/
def Within (below : List Frame) (x : Moment) : Prop := ∃ above f, x.machine.stack = above ++ f :: below

/-- With its answer, the call is over. -/
theorem Next.not_within {x y : Moment} {d : Nat} {a : Answer} {below : List Frame} (next : x.Next y)
    (top : x.machine.stack = ⟨d, .answered a⟩ :: below) : ¬y.Within below := by
  rintro ⟨above, f, stack⟩
  have length := congrArg List.length stack
  rw [next.stack_of_answer top, List.length_tail, List.length_append, List.length_cons] at length
  omega

end Moment

/-- The lowest of the frames that a step leaves is the one right above `below`. -/
theorem getLast?_eq_of_append {above frames below : List Frame} {f : Frame}
    (h : frames ++ below = above ++ f :: below) : frames.getLast? = some f := by
  rw [show above ++ f :: below = (above ++ [f]) ++ below by simp] at h
  rw [List.append_cancel_right h]
  simp

/-- A frame that is alone above `below` is the one right above it. -/
theorem lowest_of_cons {above below : List Frame} {f g : Frame} (h : f :: below = above ++ g :: below) : g = f :=
  (Option.some.inj (getLast?_eq_of_append (show [f] ++ below = above ++ g :: below from h))).symm

theorem lowest_of_cons_cons {above below : List Frame} {f g h : Frame} (e : f :: g :: below = above ++ h :: below) : h = g :=
  (Option.some.inj (getLast?_eq_of_append (show [f, g] ++ below = above ++ h :: below from e))).symm

/-- What happens above a frame leaves it as it is, unless it waits for the result that is right above it. -/
theorem Machine.Turn.keeps {m m' : Machine} {a g : Frame} {above below : List Frame} (t : m.Turn m')
    (stack : m.stack = a :: above ++ g :: below) : (∃ above', m'.stack = above' ++ g :: below) ∨
      (above = [] ∧ (∃ ms, a.act = .deadline ms)) ∨
      (above = [] ∧ g.act.takesAnswer ∧ m'.stack = below) := by
  rw [List.cons_append] at stack
  cases t with
  | works d act rest δ s top _ l takes =>
    cases stack.symm.trans top
    exact .inl ⟨s.frames.map (⟨d, ·⟩) ++ above, by rw [takes.stack]; exact (List.append_assoc _ _ _).symm⟩
  | delivers d e ms act rest δ s top _ l takes =>
    cases above with
    | nil =>
      cases stack.symm.trans top
      exact .inr (.inl ⟨rfl, ms, rfl⟩)
    | cons b above =>
      cases stack.symm.trans top
      exact .inl ⟨s.frames.map (⟨d, ·⟩) ++ above, by rw [takes.stack]; exact (List.append_assoc _ _ _).symm⟩
  | redirects d e self op rest top _ top' =>
    cases stack.symm.trans top
    exact .inl ⟨⟨e, .perform self op⟩ :: above, top'⟩
  | answers d e a act rest top takes _ top' =>
    cases above with
    | nil =>
      cases stack.symm.trans top
      exact .inr (.inr ⟨rfl, takes, top'⟩)
    | cons b above =>
      cases stack.symm.trans top
      exact .inl ⟨above, top'⟩
  | finishes d a top _ top' => cases above <;> cases stack.symm.trans top
  | calls d op top _ top' => cases stack.symm.trans top

/-- What waits for no result stays, whatever happens above it. -/
theorem Machine.Turn.keeps_of_no_result {m m' : Machine} {a g : Frame} {above below : List Frame} (t : m.Turn m')
    (stacked : Stacked m.stack) (stack : m.stack = a :: above ++ g :: below) (outside : g.act ≠ .round ∧ g.act.loops = false)
    (answer : g.act.takesAnswer = false) : ∃ above', m'.stack = above' ++ g :: below := by
  rcases t.keeps stack with kept | ⟨rfl, ms, deadline⟩ | ⟨-, takes, -⟩
  · exact kept
  · have sits := (stack ▸ stacked).1.1
    rw [deadline] at sits
    rcases sits with round | loops
    · exact absurd round outside.1
    · rw [outside.2] at loops
      cases loops
  · rw [answer] at takes
    cases takes

/-- What holds of a call and a record when the call begins, and is kept by all that happens above its lowest frame and by the
steps of that frame, holds as long as the call is in progress. -/
theorem Traced.bottom {α : Type} {P : Moment → Prop} {note : Moment → α → α} {b b' : α} {I : Moment → α → Frame → Prop}
    {x y : Moment} {f : Frame} {below : List Frame} (t : Traced P note b x y b') (top : x.machine.stack = f :: below)
    (first : I x b f) (within : ∀ z, P z → z.Within below) (calls : ∀ z c g, I z c g → g.act.takesAnswer = false)
    (above : ∀ z z' c g a above above', I z c g → P z → z.Next z' → P z' → z.machine.stack = a :: above ++ g :: below →
      z'.machine.stack = above' ++ g :: below → I z' (note z c) g)
    (own : ∀ z z' c g g' above', I z c g → P z → z.Next z' → P z' → z.machine.stack = g :: below →
      z'.machine.stack = above' ++ g' :: below → I z' (note z c) g')
    (given : ∀ z z' c g g' e ms above', I z c g → P z → z.Next z' → P z' →
      z.machine.stack = ⟨e, .deadline ms⟩ :: g :: below → z'.machine.stack = above' ++ g' :: below → I z' (note z c) g') :
    ∃ above g, y.machine.stack = above ++ g :: below ∧ I y b' g := by
  induction t with
  | here => exact ⟨[], f, top, first⟩
  | @more z z' c t next pz' ih =>
    obtain ⟨front, g, stack, inv⟩ := ih
    have pz := t.run.last
    obtain ⟨front', g', stack'⟩ := within z' pz'
    cases front with
    | nil => exact ⟨front', g', stack', own z z' c g g' front' inv pz next pz' stack stack'⟩
    | cons a front =>
      rcases next.machine.turn.keeps stack with ⟨above', kept⟩ | ⟨rfl, ms, deadline⟩ | ⟨rfl, takes, -⟩
      · exact ⟨above', g, kept, above z z' c g a front above' inv pz next pz' stack kept⟩
      · rcases a with ⟨e, act⟩
        cases deadline
        exact ⟨front', g', stack', given z z' c g g' e ms front' inv pz next pz' stack stack'⟩
      · have waits := calls z c g inv
        rw [takes] at waits
        cases waits

/-- The same without a record. -/
theorem Run.bottom {P : Moment → Prop} {I : Moment → Frame → Prop} {x y : Moment} {f : Frame} {below : List Frame}
    (r : Run P x y) (top : x.machine.stack = f :: below) (first : I x f)
    (within : ∀ z, P z → z.Within below)
    (calls : ∀ z g, I z g → g.act.takesAnswer = false)
    (above : ∀ z z' g a above above', I z g → P z → z.Next z' → P z' → z.machine.stack = a :: above ++ g :: below →
      z'.machine.stack = above' ++ g :: below → I z' g)
    (own : ∀ z z' g g' above', I z g → P z → z.Next z' → P z' → z.machine.stack = g :: below →
      z'.machine.stack = above' ++ g' :: below → I z' g')
    (given : ∀ z z' g g' e ms above', I z g → P z → z.Next z' → P z' →
      z.machine.stack = ⟨e, .deadline ms⟩ :: g :: below → z'.machine.stack = above' ++ g' :: below → I z' g') :
    ∃ above g, y.machine.stack = above ++ g :: below ∧ I y g := by
  obtain ⟨_, t⟩ := r.traced (fun _ _ => ()) ()
  exact t.bottom (I := fun z _ g => I z g) top first within (fun z _ => calls z) (fun z z' _ => above z z')
    (fun z z' _ => own z z') fun z z' _ => given z z'

/-- The frames below a call stay as they are until its answer is taken, so the call is in progress as long as there are
more frames than these. -/
theorem Run.within {P : Moment → Prop} {x y : Moment} {f : Frame} {below : List Frame} (r : Run P x y)
    (stacked : Stacked x.machine.stack) (top : x.machine.stack = f :: below) (calls : f.act.calls)
    (long : ∀ z, P z → below.length < z.machine.stack.length) : Run (fun z => P z ∧ z.Within below) x y := by
  -- Some frame is above `below` wherever the stack is longer than that.
  have some : ∀ {z : Moment} above, z.machine.stack = above ++ below → below.length < z.machine.stack.length →
      z.Within below := by
    intro z above stack length
    rcases List.eq_nil_or_concat above with rfl | ⟨front, last, rfl⟩
    · rw [stack, List.nil_append] at length
      omega
    · exact ⟨front, last, by rw [stack]; simp⟩
  suffices all : Run (fun z => P z ∧ z.Within below) x y ∧ Stacked y.machine.stack from all.1
  induction r with
  | here p => exact ⟨.here ⟨p, [], f, top⟩, stacked⟩
  | @more y z r next p ih =>
    obtain ⟨before, stackedY⟩ := ih
    refine ⟨before.more next ⟨p, ?_⟩, next.machine.turn.stacked stackedY⟩
    obtain ⟨-, above, g, stack⟩ := before.last
    have length := long z p
    cases below with
    | nil => exact some z.machine.stack (by simp) length
    | cons h below =>
      obtain ⟨a, above', e⟩ : ∃ a above', above ++ [g] = a :: above' := by cases above <;> exact ⟨_, _, rfl⟩
      have stack' : y.machine.stack = a :: above' ++ h :: below := by rw [← e, stack]; simp
      rcases next.machine.turn.keeps stack' with ⟨above'', kept⟩ | ⟨rfl, ms, deadline⟩ | ⟨rfl, -, left⟩
      · exact some _ kept length
      · -- What lies right above `below` is the call, and what is below it waits for an answer.
        have waits : h.act.takesAnswer := by
          rw [top] at stacked
          exact (Act.sits_iff_of_calls calls).1 stacked.1.1
        rw [stack'] at stackedY
        have sits := stackedY.1.1
        rw [deadline] at sits
        rcases sits with round | loops
        · rw [round] at waits; cases waits
        · cases act : h.act <;> rw [act] at loops waits <;> first | cases loops; done | cases waits
      · rw [left, List.length_cons] at length
        omega

end TimedTasks
