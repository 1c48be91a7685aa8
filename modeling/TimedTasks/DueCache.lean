import TimedTasks.Arena

/-!
# The cache of the task that is due next

A scan of the whole queue finds the waiting task that expires first. The cache remembers it, so that a round in which
nothing is due costs one subtraction. A task can be armed while such a scan is under way, behind its back; when the
cache has nothing to compare it with, it keeps it as the `latecomer`, and the result of the scan is compared with it
when it is adopted.
-/

namespace TimedTasks

/-- Slot `i` expires before slot `j`, or slot `j` is not armed at all. -/
def Arena.expiresBefore (a : Arena) (i j : Nat) (now : UInt32) : Except Fault Bool := do
  let other ← a.slot j
  if other.state.armed then
    let t ← a.slot i
    .ok (t.timing.remaining now < other.timing.remaining now)
  else .ok true

/-- What a scheduler remembers of the task that is due next. -/
structure DueCache where
  soonest : Option Nat
  latecomer : Option Nat
  deriving DecidableEq, Repr

namespace DueCache

def empty : DueCache := ⟨none, none⟩

/-- Slot `i` is not remembered as the soonest any more. -/
def forget (c : DueCache) (i : Nat) : DueCache :=
  if c.soonest = some i then { c with soonest := none } else c

/-- The remembered task, if it is still armed and not slot `i` itself. -/
def rival (c : DueCache) (a : Arena) (i : Nat) : Except Fault (Option Nat) :=
  match c.soonest with
  | none => .ok none
  | some j =>
    if j = i then .ok none
    else do
      let t ← a.slot j
      .ok (if t.state.armed then some j else none)

/-- The latecomer after slot `i` was armed: the sooner of the two. -/
def lateWith (c : DueCache) (a : Arena) (i : Nat) (now : UInt32) : Except Fault Nat :=
  match c.latecomer with
  | none => .ok i
  | some j =>
    if j = i then .ok i
    else do
      .ok (if ← a.expiresBefore i j now then i else j)

/-- Takes note that slot `i` was armed. It is compared with an armed task that the cache remembers. When there is none,
or it is slot `i` itself, nothing is remembered any more, so that the next round scans again. -/
def noteArmed (c : DueCache) (a : Arena) (i : Nat) (now : UInt32) : Except Fault DueCache := do
  match ← c.rival a i with
  | some j => .ok (if ← a.expiresBefore i j now then { c with soonest := some i } else c)
  | none =>
    let late ← c.lateWith a i now
    .ok ⟨none, some late⟩

/-- The better of a chosen slot and a candidate, which counts only while it waits. -/
def better (a : Arena) (now : UInt32) (chosen candidate : Option Nat) : Except Fault (Option Nat) :=
  match candidate with
  | none => .ok chosen
  | some i =>
    if chosen = some i then .ok chosen
    else do
      let t ← a.slot i
      if t.state = .active then
        match chosen with
        | none => .ok (some i)
        | some j => .ok (if ← a.expiresBefore i j now then some i else some j)
      else .ok chosen

/-- Remembers the result of a scan, unless a task that was armed meanwhile is sooner. Returns the time that is left for
the task that is remembered now. -/
def adopt (c : DueCache) (a : Arena) (best : Option Nat) (now : UInt32) :
    Except Fault (DueCache × Option UInt32) := do
  let chosen ← better a now best c.soonest
  let chosen ← better a now chosen c.latecomer
  match chosen with
  | none => .ok (empty, none)
  | some i =>
    let t ← a.slot i
    .ok (⟨some i, none⟩, some (t.timing.remaining now))

end DueCache

end TimedTasks
