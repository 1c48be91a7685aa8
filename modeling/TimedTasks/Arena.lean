import TimedTasks.Error

/-!
# The arena of slots

All tasks of a scheduler live in one array of fixed size. Slots are reached by index only, and an index outside of the
array is a fault, never a default slot. What a change does is said by `Arena.getElem?_alter` and `Arena.size_alter`.
-/

namespace TimedTasks

/-- The slots of a scheduler. -/
abbrev Arena := Array Task

namespace Arena

/-- `count` slots that were never used. -/
def fresh (count : Nat) : Arena := Array.replicate count Task.fresh

def slot (a : Arena) (i : Nat) : Except Fault Task :=
  match a[i]? with
  | some t => .ok t
  | none => .error (.noSlot i)

/-- Changes one slot. -/
def alter (a : Arena) (i : Nat) (f : Task → Task) : Except Fault Arena :=
  if h : i < a.size then .ok (a.set i (f a[i])) else .error (.noSlot i)

/-- Changes the slots of a list, one after the other. -/
def alterAll (a : Arena) (f : Task → Task) : List Nat → Except Fault Arena
  | [] => .ok a
  | i :: rest => a.alter i f >>= fun a => a.alterAll f rest

theorem slot_eq_ok_iff {a : Arena} {i : Nat} {t : Task} : a.slot i = .ok t ↔ a[i]? = some t := by
  unfold slot
  split <;> simp_all

theorem alter_eq_ok_iff {a b : Arena} {i : Nat} {f : Task → Task} :
    a.alter i f = .ok b ↔ ∃ h : i < a.size, a.set i (f a[i]) = b := by
  unfold alter
  split
  · rename_i bound
    exact ⟨fun h => ⟨bound, Except.ok.inj h⟩, fun ⟨_, h⟩ => h ▸ rfl⟩
  · rename_i bound
    exact ⟨fun h => (nomatch h), fun ⟨h, _⟩ => absurd h bound⟩

theorem size_alter {a b : Arena} {i : Nat} {f : Task → Task} (h : a.alter i f = .ok b) : b.size = a.size := by
  obtain ⟨_, rfl⟩ := alter_eq_ok_iff.1 h
  exact Array.size_set _

/-- After a change, the slot holds the changed task and every other slot what it held before. -/
theorem getElem?_alter {a b : Arena} {i : Nat} {f : Task → Task} (h : a.alter i f = .ok b) (j : Nat) :
    b[j]? = if i = j then a[j]?.map f else a[j]? := by
  obtain ⟨bound, rfl⟩ := alter_eq_ok_iff.1 h
  rw [Array.getElem?_set]
  split
  · rename_i same
    subst same
    simp [bound]
  · rfl

end Arena

end TimedTasks
