import TimedTasks.Board
import TimedTasks.Event

/-!
# The world of a run

Several schedulers, each on a board of its own, the pools and handlers that they share, and the record of what happened
so far. Two counts bound every run: from handler run number `limit` on, and from sleep number `limit` on, each one asks
the scheduler it happened on to shut down.

Pools come in two builds. Usually a slot that is handed out only forgets how many bytes the one before had, and these
stay where they were; with `wipes` they are overwritten as well.
-/

namespace TimedTasks

/-- A scheduler on its board. -/
structure Device where
  board : Board
  scheduler : Scheduler
  deriving Repr

namespace Device

/-- The device with another state of its scheduler. -/
def withScheduler (δ : Device) (σ : Scheduler) : Device := { δ with scheduler := σ }

/-- The device with another state of its board. -/
def withBoard (δ : Device) (b : Board) : Device := { δ with board := b }

end Device

/-- A handler: the operations of each of its invocations; the last list serves all further ones. -/
structure Handler where
  bodies : List (List Op)
  /-- How often it was invoked. -/
  calls : Nat
  deriving Repr

namespace Handler

/-- The operations of the next invocation. -/
def invoke (h : Handler) : List Op × Handler :=
  ((h.bodies[min h.calls (h.bodies.length - 1)]?).getD [], { h with calls := h.calls + 1 })

end Handler

structure World where
  devices : Array Device
  pools : Pools
  /-- A slot's bytes are overwritten with zeros when its pool hands it out. -/
  wipes : Bool
  handlers : Array Handler
  limit : Nat
  /-- How many handlers ran to their end. -/
  runs : Nat
  sleeps : Nat
  /-- Everything that happened, oldest first. -/
  trace : Array Event
  deriving Repr

namespace World

def device (w : World) (d : Nat) : Except Fault Device :=
  match w.devices[d]? with
  | some δ => .ok δ
  | none => .error (.noDevice d)

/-- The world with another device in place of number `d`. -/
def put (w : World) (d : Nat) (δ : Device) : World := { w with devices := w.devices.setIfInBounds d δ }

/-- The world after something happened. -/
def emit (w : World) (e : Event) : World := { w with trace := w.trace.push e }

def log (w : World) (message : Log) : World := w.emit (.logged message)

/-- The operations of the next invocation of handler `k`; a handler that does not exist does nothing. -/
def invoke (w : World) (k : Nat) : List Op × World :=
  match w.handlers[k]? with
  | some h => (h.invoke.1, { w with handlers := w.handlers.setIfInBounds k h.invoke.2 })
  | none => ([], w)

theorem device_eq_ok_iff {w : World} {d : Nat} {δ : Device} : w.device d = .ok δ ↔ w.devices[d]? = some δ := by
  unfold device
  split <;> simp_all

/-- A device that was put in place is found there, and every other one is what it was before. -/
theorem devices_put (w : World) (d e : Nat) (δ : Device) :
    (w.put d δ).devices[e]? = if d = e then w.devices[e]?.map fun _ => δ else w.devices[e]? := by
  simp only [put, Array.getElem?_setIfInBounds]
  split
  · rename_i same
    subst same
    split <;> simp_all
  · rfl

theorem device_put {w : World} {d : Nat} {δ ε : Device} (found : w.devices[d]? = some δ) :
    (w.put d ε).devices[d]? = some ε := by
  rw [devices_put, if_pos rfl, found]
  rfl

end World

end TimedTasks
