/-!
# Stamped intervals on a wrapping clock

The clock counts milliseconds in 32 bits and starts again at zero after the largest reading. An interval remembers the
reading at which it began and how long it lasts; everything else is a difference of readings, taken modulo `2 ^ 32`.
A difference is the true age of the interval as long as that age is below `2 ^ 32`, wherever the wrap falls.
`Interval.clamp` keeps lengths at a week or less, far inside that window.
-/

namespace TimedTasks

/-- An interval of `length` milliseconds that began at clock reading `start`. -/
structure Interval where
  start : UInt32
  length : UInt32
  deriving DecidableEq, Repr

namespace Interval

/-- Milliseconds since the interval began. -/
def elapsed (t : Interval) (now : UInt32) : UInt32 := now - t.start

/-- The interval has run its whole length. -/
def expired (t : Interval) (now : UInt32) : Bool := t.length ≤ t.elapsed now

/-- Milliseconds until the interval has run its whole length, none once it has. -/
def remaining (t : Interval) (now : UInt32) : UInt32 :=
  if t.elapsed now < t.length then t.length - t.elapsed now else 0

/-- The longest length: one week. -/
def longest : UInt32 := 7 * 24 * 60 * 60 * 1000

/-- The shortest length of a repeating interval. -/
def shortestRepeating : UInt32 := 1

/-- The length that is used when `ms` is asked for: a week at most, and a repeating interval is never empty. -/
def clamp (ms : UInt32) (repeats : Bool) : UInt32 :=
  let capped := if longest < ms then longest else ms
  if repeats && capped < shortestRepeating then shortestRepeating else capped

end Interval

end TimedTasks
