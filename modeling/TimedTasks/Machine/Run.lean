import TimedTasks.Machine.Step

/-!
# Runs

A run steps a machine until its call is over. There are handlers and interrupts with which that never happens, so a run
is given the number of steps that it may make, and `Ending` keeps a run that has used them up apart from one that is
over. A run that is over stays as it is with more steps (`Machine.run_add`).
-/

namespace TimedTasks

/-- How a run ends. -/
inductive Ending
  | answered (a : Answer) (w : World)
  | fault (f : Fault)
  /-- The steps are used up, and the machine would go on from here. -/
  | unfinished (m : Machine)
  deriving Repr

namespace Machine

/-- At most `fuel` steps. -/
def run : (fuel : Nat) → Machine → Ending
  | 0, m => .unfinished m
  | fuel + 1, m =>
    match m.step with
    | .next m => run fuel m
    | .done a w => .answered a w
    | .fault f => .fault f

/-- More steps go on where the first ones stopped. -/
theorem run_add (n k : Nat) (m : Machine) :
    m.run (n + k) =
      match m.run n with
      | .unfinished m => m.run k
      | ending => ending := by
  induction n generalizing m with
  | zero => simp [run]
  | succ n ih =>
    rw [Nat.succ_add, run, run]
    cases m.step with
    | next m => exact ih m
    | done a w => rfl
    | fault f => rfl

/-- A run that goes on where another one stopped. -/
theorem run_trans {m mid : Machine} {n k both : Nat} {e : Ending} (first : m.run n = .unfinished mid)
    (rest : mid.run k = e) (sum : n + k = both) : m.run both = e := by
  subst sum
  rw [run_add, first]
  exact rest

/-- A call that is over within some steps is over within any more. -/
theorem run_answered_of_le {m : Machine} {n k : Nat} {a : Answer} {w : World} (finished : m.run n = .answered a w)
    (le : n ≤ k) : m.run k = .answered a w := by
  obtain ⟨j, rfl⟩ := Nat.exists_eq_add_of_le le
  rw [run_add, finished]

end Machine

end TimedTasks
