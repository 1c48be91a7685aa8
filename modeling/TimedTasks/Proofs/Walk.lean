import TimedTasks.Proofs.Moment

/-!
# Runs that can be computed

A run is determined by what is called when nothing is in progress. `Moment.walk` follows one for a number of steps and
looks at each moment of it on the way. What it reaches is reached by a run (`Moment.run_of_walk`).
-/

namespace TimedTasks

namespace Moment

/-- The moment after `x` at which the machine is `m`. -/
def onward (x : Moment) (m : Machine) : Moment := ⟨m, fun d => (x.past d).next x.machine m d⟩

/-- The next moment; when nothing is in progress, the first operation of a list is called. -/
def follow (x : Moment) (calls : List (Nat × Op)) : Option (Moment × List (Nat × Op)) :=
  match x.machine.stack, calls with
  | [], [] => none
  | [], (d, op) :: calls => some (x.onward (.call x.machine.world d op), calls)
  | _ :: _, calls =>
    match x.machine.step with
    | .next m => some (x.onward m, calls)
    | .done _ w => some (x.onward ⟨w, []⟩, calls)
    | .fault _ => none

/-- The moment that `n` steps lead to, if `ok` holds on the way, and the operations that are still to be called. -/
def walk (ok : Moment → Bool) : Nat → List (Nat × Op) → Moment → Option (Moment × List (Nat × Op))
  | 0, calls, x => if ok x then some (x, calls) else none
  | n + 1, calls, x =>
    if ok x then
      match x.follow calls with
      | some (y, calls) => walk ok n calls y
      | none => none
    else none

variable {x y : Moment} {calls left : List (Nat × Op)} {ok : Moment → Bool} {n : Nat} {P : Moment → Prop}

/-- What is followed is a step of the run. -/
theorem next_of_follow (h : x.follow calls = some (y, left)) : x.Next y := by
  unfold follow at h
  split at h
  · cases h
  · rename_i idle
    cases h
    exact ⟨.call _ _ idle, fun _ => rfl⟩
  · split at h
    · rename_i step
      cases h
      exact ⟨.step step, fun _ => rfl⟩
    · rename_i done
      cases h
      exact ⟨.finish done, fun _ => rfl⟩
    · cases h

/-- Where a walk leads, there is a run to. -/
theorem run_of_walk (h : x.walk ok n calls = some (y, left)) (sound : ∀ z, ok z → P z) : Run P x y := by
  induction n generalizing x calls with
  | zero =>
    unfold walk at h
    split at h
    · rename_i good
      cases h
      exact .here (sound _ good)
    · cases h
  | succ n ih =>
    unfold walk at h
    split at h
    · rename_i good
      split at h
      · rename_i z calls follow
        have later : Run P z y := ih h
        exact ((Run.here (sound _ good)).more (next_of_follow follow) later.first).trans later
      · cases h
    · cases h

/-- The moment that `n` steps lead to, and the operations that are still to be called then; where it began, if the walk
ends before. -/
def steps (n : Nat) (calls : List (Nat × Op)) (x : Moment) : Moment × List (Nat × Op) :=
  (x.walk (fun _ => true) n calls).getD (x, calls)

/-- A walk that looks at its moments goes where the walk goes that does not. -/
theorem walk_anyhow {r : Moment × List (Nat × Op)} (h : x.walk ok n calls = some r) :
    x.walk (fun _ => true) n calls = some r := by
  induction n generalizing x calls with
  | zero =>
    unfold walk at h ⊢
    split at h
    · exact h
    · cases h
  | succ n ih =>
    unfold walk at h ⊢
    split at h
    · rw [if_pos rfl]
      split at h
      · exact ih h
      · cases h
    · cases h

/-- A walk goes on where another one stopped. -/
theorem walk_add {m : Nat} : x.walk (fun _ => true) (n + m) calls =
    (x.walk (fun _ => true) n calls).bind fun r => r.1.walk (fun _ => true) m r.2 := by
  induction n generalizing x calls with
  | zero => simp [walk]
  | succ n ih =>
    rw [Nat.succ_add, walk, walk, if_pos rfl, if_pos rfl]
    cases x.follow calls with
    | none => rfl
    | some r => exact ih

/-- The moments of a walk that does not end before lie on one another. -/
theorem steps_add {m : Nat} (h : (x.walk (fun _ => true) (n + m) calls).isSome) :
    x.steps (n + m) calls = (x.steps n calls).1.steps m (x.steps n calls).2 := by
  obtain ⟨r, walked⟩ := Option.isSome_iff_exists.1 h
  obtain ⟨r', first, later⟩ := Option.bind_eq_some_iff.1 (walk_add.symm.trans walked)
  simp only [steps, walked, first, later, Option.getD_some]

/-- A walk on which all moments are as they should be is a run. -/
theorem run_steps [DecidablePred P] (h : (x.walk (fun z => P z) n calls).isSome) : Run P x (x.steps n calls).1 := by
  obtain ⟨⟨y, left⟩, walked⟩ := Option.isSome_iff_exists.1 h
  rw [steps, walk_anyhow walked]
  exact run_of_walk walked fun z => of_decide_eq_true

/-- The part of a walk after its first `n` steps. -/
theorem run_steps_add [DecidablePred P] {m : Nat} (h : (x.walk (fun _ => true) (n + m) calls).isSome)
    (later : ((x.steps n calls).1.walk (fun z => P z) m (x.steps n calls).2).isSome) :
    Run P (x.steps n calls).1 (x.steps (n + m) calls).1 := by
  rw [steps_add h]
  exact run_steps later

/-- From one moment of a walk to the one after it is a step. -/
theorem next_steps (h : (x.walk (fun _ => true) (n + 1) calls).isSome) :
    (x.steps n calls).1.Next (x.steps (n + 1) calls).1 := by
  obtain ⟨⟨y, left⟩, walked⟩ := Option.isSome_iff_exists.1 h
  obtain ⟨⟨z, rest⟩, first, later⟩ := Option.bind_eq_some_iff.1 (walk_add.symm.trans walked)
  simp only [steps, walked, first, Option.getD_some]
  cases followed : z.follow rest with
  | none => simp [walk, followed] at later
  | some r =>
    have last : some r = some (y, left) := by simpa [walk, followed, Prod.ext_iff] using later
    exact next_of_follow (followed.trans last)

/-- A walk whose last moment shows what a test asks for. -/
theorem exists_of_walk [DecidablePred P] (x : Moment) (calls : List (Nat × Op)) (n d : Nat) (test : View → Bool)
    (h : ((x.walk (fun z => P z) n calls).bind fun r => r.1.view d).any test) :
    ∃ y v, Run P x y ∧ y.view d = some v ∧ test v := by
  obtain ⟨v, found, ok⟩ := (Option.any_eq_true _ _).1 h
  obtain ⟨⟨y, left⟩, walked, shown⟩ := Option.bind_eq_some_iff.1 found
  exact ⟨y, v, run_of_walk walked fun z => of_decide_eq_true, shown, ok⟩

end Moment

namespace View

/-- The answer to a call on the device below which nothing is in progress there. -/
def answer (v : View) : Option Answer :=
  match v.acts with
  | [.answered a] => some a
  | _ => none

theorem acts_of_answer {v : View} {a : Answer} (h : v.answer = some a) : v.acts = [.answered a] := by
  unfold answer at h
  split at h
  · rename_i acts
    cases h
    exact acts
  · cases h

/-- The result of a round that is just over, of a run below which nothing is in progress on the device. -/
def result (v : View) : Option (Option UInt32) :=
  match v.acts with
  | [.deadline ms, .running] => some ms
  | _ => none

theorem acts_of_result {v : View} {ms : Option UInt32} (h : v.result = some ms) : v.acts = [.deadline ms, .running] := by
  unfold result at h
  split at h
  · rename_i acts
    cases h
    exact acts
  · cases h

end View

end TimedTasks
