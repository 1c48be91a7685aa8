import TimedTasks.Arena

/-!
# The queue of configured tasks

A queue is a chain of slots: `head` and `tail` are its two ends, and each slot holds the link to the next one. Slots
are only ever added at the tail, so whoever walks the chain may add to it on the way. `Queue.members` is the chain as a
list; a chain that does not end within the arena is a fault.
-/

namespace TimedTasks

structure Queue where
  head : Option Nat
  tail : Option Nat
  deriving DecidableEq, Repr

namespace Queue

def empty : Queue := ⟨none, none⟩

/-- Links a slot behind the last one. -/
def push (q : Queue) (a : Arena) (i : Nat) : Except Fault (Queue × Arena) :=
  if q.head.isNone ≠ q.tail.isNone then .error .brokenQueue
  else do
    let a ← a.alter i fun t => { t with next := none }
    match q.tail with
    | none => .ok (⟨some i, some i⟩, a)
    | some last =>
      let a ← a.alter last fun t => { t with next := some i }
      .ok (⟨q.head, some i⟩, a)

/-- The slots from `cursor` on, along at most `bound` links. -/
def walk (a : Arena) : (bound : Nat) → (cursor : Option Nat) → Except Fault (List Nat)
  | _, none => .ok []
  | 0, some _ => .error .brokenQueue
  | bound + 1, some i => do
    let t ← a.slot i
    let rest ← walk a bound t.next
    .ok (i :: rest)

/-- The slots of the queue, in order. A chain without repetition has at most as many slots as the arena. -/
def members (q : Queue) (a : Arena) : Except Fault (List Nat) := walk a a.size q.head

/-- Takes all slots out of the queue, so that none of them is configured any more. Returns how many there were. -/
def dismiss (q : Queue) (a : Arena) : Except Fault (Nat × Arena) := do
  let linked ← q.members a
  let a ← a.alterAll Task.unconfigure linked
  .ok (linked.length, a)

end Queue

end TimedTasks
