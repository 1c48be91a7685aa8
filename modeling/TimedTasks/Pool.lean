import TimedTasks.Arena

/-!
# Pools of slots with bytes

A pool owns `slots` task slots of `slotSize` bytes each. All their bytes lie in one store, one segment behind the
other; what keeps the slots apart is only that their segments do not overlap. The slots themselves are reserved in an
arena when the pool is first used, and from then on they are `first, first + 1, …`.
-/

namespace TimedTasks

structure Pool where
  slots : Nat
  slotSize : Nat
  /-- The bytes of all segments, those of earlier owners included. -/
  storage : List UInt8
  /-- The first of the pool's slots, once they are reserved. -/
  first : Option Nat
  deriving DecidableEq, Repr

namespace Pool

/-- A pool that has no slots in any arena yet. -/
def unbound (slots slotSize : Nat) : Pool where
  slots := slots
  slotSize := slotSize
  storage := List.replicate (slots * slotSize) 0
  first := none

/-- The bytes at a place of the store, if the store reaches that far. -/
def read? (p : Pool) (offset length : Nat) : Option (List UInt8) :=
  if offset + length ≤ p.storage.length then some ((p.storage.drop offset).take length) else none

/-- Overwrites the bytes at a place of the store, if the store reaches that far. -/
def write? (p : Pool) (offset : Nat) (data : List UInt8) : Option Pool :=
  if offset + data.length ≤ p.storage.length then
    some { p with storage := p.storage.take offset ++ data ++ p.storage.drop (offset + data.length) }
  else none

/-- What was written is read back. -/
theorem read?_of_write? {p q : Pool} {offset : Nat} {data : List UInt8} (h : p.write? offset data = some q) :
    q.read? offset data.length = some data := by
  unfold write? at h
  split at h
  · rename_i room
    cases h
    have before : (p.storage.take offset).length = offset := by simp; omega
    simp [read?, before]
  · cases h

end Pool

/-- The byte stores that payloads refer to. -/
abbrev Pools := Array Pool

namespace Pools

def pool (ps : Pools) (k : Nat) : Except Fault Pool :=
  match ps[k]? with
  | some p => .ok p
  | none => .error (.noPool k)

/-- The first `length` bytes of a segment. -/
def read (ps : Pools) (segment : Segment) (length : Nat) : Except Fault (List UInt8) := do
  match (← ps.pool segment.pool).read? segment.offset length with
  | some bytes => .ok bytes
  | none => .error (.badSegment segment)

/-- Copies as much of `data` as fits into a segment, and says how much that was. -/
def copy (ps : Pools) (segment : Segment) (data : List UInt8) : Except Fault (Nat × Pools) := do
  let kept := data.take segment.size
  match (← ps.pool segment.pool).write? segment.offset kept with
  | some p => .ok (kept.length, ps.setIfInBounds segment.pool p)
  | none => .error (.badSegment segment)

/-- Overwrites the whole segment of a payload with zeros; bytes that live elsewhere stay what they are. -/
def wipe (ps : Pools) : Payload → Except Fault Pools
  | .attached _ => .ok ps
  | .copied segment _ => Prod.snd <$> ps.copy segment (List.replicate segment.size 0)

end Pools

/-- The bytes themselves. -/
def Payload.bytes (ps : Pools) : Payload → Except Fault (List UInt8)
  | attached bytes => .ok bytes
  | copied segment length => ps.read segment length

end TimedTasks
