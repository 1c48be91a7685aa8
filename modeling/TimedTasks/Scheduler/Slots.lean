import TimedTasks.Scheduler.Basic

/-!
# Handing out slots

Slots are handed out in order and never taken back: one at a time, or as many as a pool has. The slots of a pool are
handed out once more by the pool itself, which is what `Task.allocated` keeps track of.
-/

namespace TimedTasks

namespace Scheduler

/-- The next `count` slots, if the arena has as many left. Returns the first of them. -/
def takeSlots (σ : Scheduler) (count : Nat) : Option (Nat × Scheduler) :=
  if σ.declared + count ≤ σ.capacity then
    some (σ.declared, { σ with declared := σ.declared + count })
  else none

/-- Makes `count` slots from `first` on the slots of pool `pool`, with one segment each. -/
def enrollSlots (a : Arena) (pool slotSize first : Nat) : (count : Nat) → Except Fault Arena
  | 0 => .ok a
  | count + 1 => do
    let a ← enrollSlots a pool slotSize first count
    a.alter (first + count) fun t => t.enroll ⟨pool, count * slotSize, slotSize⟩

/-- Finds the slots of a pool, which are reserved here if they are not yet. Returns the first of them, or nothing when
the arena has no room for them. -/
def enrollPool (σ : Scheduler) (ps : Pools) (k : Nat) : Except Fault (Option (Nat × Scheduler × Pools)) := do
  let p ← ps.pool k
  match p.first with
  | some first => .ok (some (first, σ, ps))
  | none =>
    match σ.takeSlots p.slots with
    | none => .ok none
    | some (first, σ) =>
      let arena ← enrollSlots σ.arena k p.slotSize first p.slots
      .ok (some (first, { σ with arena }, ps.setIfInBounds k { p with first := some first }))

end Scheduler

end TimedTasks
