import TimedTasks.Proofs.Outcomes
import TimedTasks.Proofs.Winding

/-!
# Calls that no interrupt disturbs

While a call is in progress there is one thing that comes next, so where no interrupt comes, what a call leads to is found
by following it step by step. `Machine.Concludes` says what the answer is then. A run in which no interrupt comes has just
this answer (`Machine.Concludes.of_run`), and if no interrupts are armed, there is such a run
(`Machine.Concludes.reaches`).
-/

namespace TimedTasks

/-- An interrupt comes. -/
def Act.disturbs : Act → Bool
  | interrupts _ (_ :: _) => true
  | _ => false

/-- The act is a step of an operation without rounds. -/
def Act.forward : Act → Bool
  | perform .. | reading _ | locked _ | opening | claiming .. => true
  | _ => false

/-- No interrupt comes with the next step. -/
def Machine.Undisturbed (m : Machine) : Prop := ∀ f ∈ m.stack.head?, f.act.disturbs = false

instance (m : Machine) : Decidable m.Undisturbed :=
  inferInstanceAs (Decidable (∀ f ∈ m.stack.head?, f.act.disturbs = false))

theorem Machine.Next.eq_of_step {m m' m'' : Machine} (next : m.Next m') (step : m.step = .next m'') : m' = m'' := by
  cases next with
  | step goes => exact Outcome.next.inj (goes.symm.trans step)
  | finish ends => cases ends.symm.trans step
  | call d op idle =>
    rw [Machine.step, idle] at step
    cases step

/-- Step by step, the machine comes to an answer on device `d`, right above `below`, that is as `R` says. That an interrupt
comes on the way is possible only if there are armed ones. -/
inductive Machine.Concludes (d : Nat) (below : List Frame) (armed : Prop) (R : Answer → World → Prop) : Machine → Prop
  | answers {w a} : R a w → Concludes d below armed R ⟨w, ⟨d, .answered a⟩ :: below⟩
  | disturbed {m} : armed → ¬m.Undisturbed → Concludes d below armed R m
  | goes {m m' l f} : m.stack = l ++ f :: below → m.Undisturbed → (∀ a, m.stack ≠ ⟨d, .answered a⟩ :: below) →
      m.step = .next m' → Concludes d below armed R m' → Concludes d below armed R m

namespace Machine.Concludes

variable {d : Nat} {below : List Frame} {armed : Prop} {R : Answer → World → Prop} {w : World} {δ : Device} {act : Act}

theorem mono {R' : Answer → World → Prop} {m : Machine} (c : Concludes d below armed R m)
    (sub : ∀ a w, R a w → R' a w) : Concludes d below armed R' m := by
  induction c with
  | answers holds => exact .answers (sub _ _ holds)
  | disturbed comes disturbs => exact .disturbed comes disturbs
  | goes stack calm unanswered step _ ih => exact .goes stack calm unanswered step ih

/-- If no interrupt comes, the answer is as the machine concludes. -/
theorem of_run {x y : Moment} {a : Answer} {stack : List Frame} (c : Concludes d below armed R ⟨x.machine.world, stack⟩)
    (top : x.machine.stack = stack) (r : Run (fun z => z.Within below ∧ z.machine.Undisturbed) x y)
    (answered : y.machine.stack = ⟨d, .answered a⟩ :: below) : R a y.machine.world := by
  replace c : Concludes d below armed R x.machine := by rw [← top] at c; exact c
  generalize hm : x.machine = m at c
  clear top
  induction c generalizing x with
  | @answers w b holds =>
    have top : x.machine.stack = ⟨d, .answered b⟩ :: below := by rw [hm]
    rcases r.here_or_next with rfl | ⟨z, next, rest⟩
    · cases top.symm.trans answered
      rw [hm]
      exact holds
    · exact absurd rest.first.1 (next.not_within top)
  | disturbed _ comes => exact absurd (hm ▸ r.first.2) comes
  | @goes m m' l f _ _ unanswered step _ ih =>
    rcases r.here_or_next with rfl | ⟨z, next, rest⟩
    · exact absurd (hm ▸ answered) (unanswered a)
    · refine ih rest ?_
      rw [← hm] at step
      exact next.machine.eq_of_step step

/-- If no interrupts are armed, the machine comes to the answer. -/
theorem reaches {x : Moment} {stack : List Frame} (c : Concludes d below armed R ⟨x.machine.world, stack⟩)
    (top : x.machine.stack = stack) (calm : ¬armed) : ∃ y a,
    Run (fun z => z.Within below ∧ z.machine.Undisturbed) x y ∧ y.machine.stack = ⟨d, .answered a⟩ :: below ∧
      R a y.machine.world := by
  replace c : Concludes d below armed R x.machine := by rw [← top] at c; exact c
  generalize hm : x.machine = m at c
  clear top
  induction c generalizing x with
  | @answers w a holds =>
    have top : x.machine.stack = ⟨d, .answered a⟩ :: below := by rw [hm]
    refine ⟨x, a, .here ⟨⟨[], _, top⟩, fun f m => ?_⟩, top, hm ▸ holds⟩
    rw [top] at m
    cases m
    rfl
  | disturbed comes => exact absurd comes calm
  | @goes m m' l f stack calm' _ step _ ih =>
    subst hm
    have next : x.Next ⟨m', fun e => (x.past e).next x.machine m' e⟩ := ⟨.step step, fun _ => rfl⟩
    obtain ⟨y, a, r, top, holds⟩ := ih (x := ⟨m', fun e => (x.past e).next x.machine m' e⟩) rfl
    exact ⟨y, a, (Run.more (.here ⟨⟨l, f, stack⟩, calm'⟩) next r.first).trans r, top, holds⟩

/-! ## Following a call -/

/-- A step of the operation itself. -/
theorem move {move : Move} (forward : act.forward) (found : w.devices[d]? = some δ) (does : w.step d δ act = .ok move)
    (rest : Concludes d below armed R ⟨move.world, move.frames ++ below⟩) :
    Concludes d below armed R ⟨w, ⟨d, act⟩ :: below⟩ := by
  refine goes (l := []) rfl (fun f m => ?_) (fun a same => ?_) ?_ rest
  · cases m
    cases act <;> first | rfl | cases forward
  · cases same
    cases forward
  · have step : onto below (w.device d >>= fun δ => w.step d δ act) = .next ⟨move.world, move.frames ++ below⟩ := by
      rw [World.device_eq_ok_iff.2 found, bind_eq_ok.2 ⟨δ, rfl, does⟩]
      rfl
    cases act <;> first | exact step | cases forward

/-- A step that answers. -/
theorem answer {a : Answer} {v : World} {ε : Device} (forward : act.forward) (found : w.devices[d]? = some δ)
    (does : w.step d δ act = .ok (v.answering d ε a)) (holds : R a (v.put d ε)) :
    Concludes d below armed R ⟨w, ⟨d, act⟩ :: below⟩ :=
  move forward found does (.answers holds)

/-- A step that ends in a call on the board. -/
theorem call {ε : Device} {v : World} {b : BoardCall} {a : Act} (forward : act.forward) (found : w.devices[d]? = some δ)
    (found' : v.devices[d]? = some δ) (does : w.step d δ act = .ok (v.calling d ε b [a]))
    (calm : ε.board.interrupts ≠ [] → armed)
    (rest : Concludes d below armed R ⟨v.put d (ε.withBoard (ε.board.called b).1), ⟨d, a⟩ :: below⟩) :
    Concludes d below armed R ⟨w, ⟨d, act⟩ :: below⟩ := by
  refine move forward found does ?_
  show Concludes d below armed R ⟨v.put d (ε.withBoard (ε.board.called b).1),
    ⟨d, .interrupts b (ε.board.called b).2⟩ :: ⟨d, a⟩ :: below⟩
  have there : (v.put d (ε.withBoard (ε.board.called b).1)).devices[d]? = some (ε.withBoard (ε.board.called b).1) :=
    World.device_put found'
  cases bodies : (ε.board.called b).2 with
  | nil =>
    refine goes (l := [_]) rfl (fun f m => ?_) (fun a same => ?_) ?_ rest
    · cases m
      rfl
    · have length := congrArg List.length same
      simp at length
    · show onto _ (World.device _ d >>= fun δ => World.step _ d δ (.interrupts b [])) = _
      rw [World.device_eq_ok_iff.2 there]
      show Outcome.next ⟨World.put _ d _, _⟩ = _
      rw [World.put_self there]
      rfl
  | cons body bodies' =>
    refine disturbed (calm fun none => ?_) fun calm => ?_
    · rw [Board.called, none] at bodies
      split at bodies <;> cases bodies
    · cases calm _ rfl

end Machine.Concludes

/-! ## What remains as it is -/

/-- The board with no interrupts armed. -/
def Board.disarmed (b : Board) : Board := { b with interrupts := [] }

/-- The world but for the armed interrupts. -/
def World.disarmed (w : World) : World :=
  { w with devices := w.devices.map fun δ => δ.withBoard δ.board.disarmed }

theorem Board.disarmed_called (b : Board) (call : BoardCall) : (b.called call).1.disarmed = b.disarmed := by
  unfold called
  split <;> rfl

theorem Board.interrupts_called {b : Board} (h : b.interrupts = []) (call : BoardCall) :
    (b.called call).1.interrupts = [] := by
  unfold called
  split <;> simp [h]

/-- A call on the board of a device changes nothing but the armed interrupts. -/
theorem World.disarmed_put_called {w : World} {d : Nat} {δ : Device} (found : w.devices[d]? = some δ) (call : BoardCall) :
    (w.put d (δ.withBoard (δ.board.called call).1)).disarmed = w.disarmed := by
  have devices : (w.put d (δ.withBoard (δ.board.called call).1)).devices.map (fun δ => δ.withBoard δ.board.disarmed) =
      w.devices.map fun δ => δ.withBoard δ.board.disarmed := by
    refine Array.ext_getElem? fun e => ?_
    rw [Array.getElem?_map, Array.getElem?_map, devices_put]
    by_cases here : d = e
    · subst here
      rw [if_pos rfl, found]
      exact congrArg some (congrArg δ.withBoard (Board.disarmed_called δ.board call))
    · rw [if_neg here]
  rw [disarmed, devices]
  rfl

end TimedTasks
