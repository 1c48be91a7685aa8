import TimedTasks.Proofs.Engaged

/-!
# The course of a session call

What the three calls on sessions and rounds come to lies on the lowest of their frames, and goes through few stages
(`Act.Comes`): a call that is not refused at once ends with the answer that it is done, or with a deadline. So a call
that was refused did nothing at all (`Run.refused`).
-/

namespace TimedTasks

/-- The operation begins a session, runs and ends one, or dispatches a single round. -/
def Op.session : Op → Bool
  | init | run | tick => true
  | _ => false

/-- What an operation on sessions and rounds comes to with its first step, if it is not refused. -/
inductive Op.Comes : Op → Act → Prop
  | init : Comes .init .opening
  | run : Comes .run .running
  | tick : Comes .tick .ticking

theorem Op.Comes.engages {op : Op} {a : Act} (h : op.Comes a) : a.engages := by
  cases h <;> rfl

namespace Act

/-- The stages of a call on sessions and rounds, from its first step on. -/
inductive Comes : Act → Act → Prop
  | begins : Comes opening (locked .beginSession)
  | begun : Comes (locked .beginSession) (answered .done)
  | goesOn : Comes running running
  | ends : Comes running (locked .endSession)
  | closes {n} : Comes (locked .endSession) (closing n)
  | closed {n} : Comes (closing n) (locked (.sessionOver n))
  | ended {n} : Comes (locked (.sessionOver n)) (answered .done)
  | ticked {ms} : Comes ticking (answered (.deadline ms))

/-- The act is a result that a call on sessions and rounds ends with when it was not refused. -/
def succeeds : Act → Bool
  | answered .done | answered (.deadline _) => true
  | _ => false

theorem calls_of_engages {a : Act} (h : a.engages) : a.calls := by
  cases a with
  | locked s => cases s <;> first | rfl | cases h
  | _ => first | rfl | cases h

theorem Comes.engages_or_succeeds {a b : Act} (h : a.Comes b) : b.engages ∨ b.succeeds := by
  cases h <;> first | exact .inl rfl | exact .inr rfl

end Act

theorem Leads.comes {w : World} {δ : Device} {act a : Act} {s : Stride} (l : Leads w δ act s) (engages : act.engages)
    (last : s.frames.getLast? = some a) : act.Comes a := by
  cases l with
  | opened => cases last; exact .begins
  | begun => cases last; exact .begun
  | anotherRound => cases last; exact .goesOn
  | lastRound => cases last; exact .ends
  | ended => cases last; exact .closes
  | closed => cases last; exact .closed
  | sessionOver => cases last; exact .ended
  | @refused s a refuses => cases s <;> first | cases refuses; done | cases engages
  | _ => cases engages

theorem Delivers.comes {δ : Device} {ms : Option UInt32} {act a : Act} {s : Stride} (l : Delivers δ ms act s)
    (engages : act.engages) (last : s.frames.getLast? = some a) : act.Comes a := by
  cases l with
  | round => cases engages
  | ticking => cases last; exact .ticked
  | sleeping | awake => cases last; exact .goesOn

namespace Moment

variable {z z' : Moment} {g g' : Frame} {above below : List Frame}

/-- When the lowest frame of a session call works, the call goes on. -/
theorem Next.comes (next : z.Next z') (top : z.machine.stack = g :: below) (engages : g.act.engages)
    (stack : z'.machine.stack = above ++ g' :: below) : g'.device = g.device ∧ g.act.Comes g'.act := by
  rcases g with ⟨d, act⟩
  obtain ⟨δ, s, -, l, takes⟩ := next.leads_of_top top (by cases act <;> first | rfl | cases engages)
  have last := getLast?_eq_of_append (takes.stack.symm.trans stack)
  rw [List.getLast?_map, Option.map_eq_some_iff] at last
  obtain ⟨a, last, rfl⟩ := last
  exact ⟨rfl, l.comes engages last⟩

/-- So it does when it takes the deadline of a round. -/
theorem Next.comes_given {e : Nat} {ms : Option UInt32} (next : z.Next z')
    (top : z.machine.stack = ⟨e, .deadline ms⟩ :: g :: below) (engages : g.act.engages)
    (stack : z'.machine.stack = above ++ g' :: below) : g'.device = g.device ∧ g.act.Comes g'.act := by
  obtain ⟨d, act, rest, δ, s, same, -, l, takes⟩ := next.delivers_of_top top
  cases same
  have last := getLast?_eq_of_append (takes.stack.symm.trans stack)
  rw [List.getLast?_map, Option.map_eq_some_iff] at last
  obtain ⟨a, last, rfl⟩ := last
  exact ⟨rfl, l.comes engages last⟩

/-- The first step of a session call: it is refused and nothing else happens, or it has come to its first stage. -/
theorem Next.session {x : Moment} {d : Nat} {self : Option Nat} {op : Op} (next : x.Next z)
    (top : x.machine.stack = ⟨d, .perform self op⟩ :: below) (session : op.session)
    (stack : z.machine.stack = above ++ g :: below) : g.device = d ∧
      ((z.machine.world = x.machine.world ∧ ∃ e, g.act = .answered (.failed e)) ∨ op.Comes g.act) := by
  obtain ⟨δ, move, found, moved, eq⟩ := next.machine.moves top nofun nofun
  have stack : move.frames ++ below = above ++ g :: below := by rw [← stack, eq]
  have last := getLast?_eq_of_append stack
  have refused : ∀ {e}, move = x.machine.world.answering d δ (.failed e) → g.device = d ∧
      ((z.machine.world = x.machine.world ∧ ∃ e, g.act = .answered (.failed e)) ∨ op.Comes g.act) := by
    rintro e rfl
    cases last
    have same : x.machine.world.put d δ = x.machine.world := by
      rw [World.put, show x.machine.world.devices.setIfInBounds d δ = _ from Machine.put_same found]
    exact ⟨rfl, .inl ⟨by rw [eq]; exact same, e, rfl⟩⟩
  have begun : ∀ (acts : List Act) {a : Act}, move.frames = acts.map (⟨d, ·⟩) → acts.getLast? = some a → op.Comes a →
      g.device = d ∧ ((z.machine.world = x.machine.world ∧ ∃ e, g.act = .answered (.failed e)) ∨ op.Comes g.act) := by
    intro acts a frames own comes
    rw [frames, List.getLast?_map, own] at last
    cases last
    exact ⟨rfl, .inr comes⟩
  cases op with
  | init =>
    have moved : x.machine.world.openSession d δ = move := Except.ok.inj moved
    unfold World.openSession at moved
    split at moved
    · subst moved; exact begun [_, _] rfl rfl .init
    · exact refused moved.symm
  | run =>
    have moved : x.machine.world.run d δ = move := Except.ok.inj moved
    unfold World.run at moved
    split at moved
    · exact refused moved.symm
    · split at moved
      · exact refused moved.symm
      · subst moved; exact begun [_] rfl rfl .run
  | tick =>
    have moved : x.machine.world.tick d δ = move := Except.ok.inj moved
    unfold World.tick at moved
    split at moved
    · exact refused moved.symm
    · split at moved
      · exact refused moved.symm
      · subst moved; exact begun [_, _, _] rfl rfl .tick
  | _ => cases session

/-- What a session call that began at `x` has come to: nothing yet, a refusal that left everything as it was, or one of
its stages. -/
def Stage (x : Moment) (first : Frame) (z : Moment) (g : Frame) : Prop :=
  (z = x ∧ g = first) ∨ (x.Next z ∧ z.machine.world = x.machine.world ∧ ∃ e, g.act = .answered (.failed e)) ∨
    g.act.engages ∨ g.act.succeeds

end Moment

/-- A session call that is refused is refused with its first step, and leaves everything as it was. -/
theorem Run.refused {P : Moment → Prop} {x y : Moment} {d d' : Nat} {self : Option Nat} {op : Op} {e : Error}
    {below : List Frame} (r : Run (fun z => P z ∧ z.Within below) x y) (stacked : Stacked x.machine.stack)
    (session : op.session) (top : x.machine.stack = ⟨d, .perform self op⟩ :: below)
    (answer : y.machine.stack = ⟨d', .answered (.failed e)⟩ :: below) :
    x.Next y ∧ y.machine.world = x.machine.world := by
  have ordered : ∀ z, Run (fun z => P z ∧ z.Within below) x z → Stacked z.machine.stack := fun z r =>
    r.invariant stacked fun _ _ h _ next _ => next.machine.turn.stacked h
  obtain ⟨above, g, stack, stage⟩ :
      ∃ above g, y.machine.stack = above ++ g :: below ∧ x.Stage ⟨d, .perform self op⟩ y g := by
    refine Run.bottom (I := x.Stage ⟨d, .perform self op⟩) (r.also ordered) top (.inl ⟨rfl, rfl⟩) (fun z p => p.1.2) (fun z g h => ?_)
      (fun z z' g a above above' h p next p' stack stack' => ?_) (fun z z' g g' above' h p next p' stack stack' => ?_)
      (fun z z' g g' e ms above' h p next p' stack stack' => ?_)
    · rcases h with ⟨-, rfl⟩ | ⟨-, -, e, act⟩ | engages | succeeds
      · rfl
      · rw [act]; rfl
      · exact Act.takesAnswer_of_calls (Act.calls_of_engages engages)
      · cases act : g.act <;> rw [act] at succeeds <;> first | rfl | cases succeeds
    · have seated := stack ▸ p.2
      rcases g with ⟨e', act⟩
      rcases h with ⟨rfl, same⟩ | ⟨-, -, e, same⟩ | engages | succeeds
      · -- Nothing was above the frame when the call began.
        have length := congrArg List.length (stack.symm.trans top)
        simp only [List.cons_append, List.length_cons, List.length_append] at length
        omega
      · dsimp only at same
        subst same
        exact (Stacked.bare seated).elim
      · exact .inr (.inr (.inl engages))
      · exact .inr (.inr (.inr succeeds))
    · rcases h with ⟨rfl, rfl⟩ | ⟨-, -, e, same⟩ | engages | succeeds
      · obtain ⟨-, ⟨world, refused⟩ | comes⟩ := next.session top session stack'
        · exact .inr (.inl ⟨next, world, refused⟩)
        · exact .inr (.inr (.inl comes.engages))
      · rcases g with ⟨e', act⟩
        dsimp only at same
        subst same
        exact absurd p'.1.2 (next.not_within stack)
      · exact .inr (.inr (next.comes stack engages stack').2.engages_or_succeeds)
      · rcases g with ⟨e', act⟩
        cases act with
        | answered a => exact absurd p'.1.2 (next.not_within stack)
        | _ => cases succeeds
    · have seated := stack ▸ p.2
      rcases h with ⟨rfl, same⟩ | ⟨-, -, e', same⟩ | engages | succeeds
      · cases stack.symm.trans top
      · rcases g with ⟨e'', act⟩
        dsimp only at same
        subst same
        exact (@Stacked.bare _ _ _ [] _ seated).elim
      · exact .inr (.inr (next.comes_given stack engages stack').2.engages_or_succeeds)
      · rcases g with ⟨e', act⟩
        cases act with
        | answered a => exact (@Stacked.bare _ _ _ [] _ seated).elim
        | _ => cases succeeds
  have bottom : above = [] ∧ g = ⟨d', .answered (.failed e)⟩ := by
    have split : above ++ g :: below = [⟨d', .answered (.failed e)⟩] ++ below := stack.symm.trans answer
    rw [show above ++ g :: below = (above ++ [g]) ++ below by simp] at split
    have own := List.append_cancel_right split
    cases above with
    | nil => cases own; exact ⟨rfl, rfl⟩
    | cons a above => simp at own
  obtain ⟨rfl, rfl⟩ := bottom
  rcases stage with ⟨-, same⟩ | ⟨next, world, -⟩ | engages | succeeds
  · cases same
  · exact ⟨next, world⟩
  · cases engages
  · cases succeeds

end TimedTasks
