/-!
# Payloads

The bytes that go with a task. A task of a pool has a segment of the pool's byte store, into which bytes are copied;
any other task only refers to bytes that live elsewhere.
-/

namespace TimedTasks

/-- A stretch of a pool's byte store. -/
structure Segment where
  pool : Nat
  offset : Nat
  size : Nat
  deriving DecidableEq, Repr

/-- The bytes that go with a task: bytes from elsewhere, or the first `length` bytes of a segment. -/
inductive Payload
  | attached (bytes : List UInt8)
  | copied (segment : Segment) (length : Nat)
  deriving DecidableEq, Repr

namespace Payload

def length : Payload → Nat
  | attached bytes => bytes.length
  | copied _ length => length

/-- No bytes, in the same place as before. -/
def emptied : Payload → Payload
  | attached _ => attached []
  | copied segment _ => copied segment 0

theorem length_emptied (p : Payload) : p.emptied.length = 0 := by
  cases p <;> rfl

end Payload

end TimedTasks
