import Mathlib.Logic.Relation
import TimedTasks.Proofs.Stack
import TimedTasks.Script

/-!
# Runs, and the time that passes in them

The clock of a board wraps. What a claim about time means is said with a `Chronicle`, which is kept for each device
beside the machine and never read by it: the true time, of which the clock is the remainder modulo `2 ^ 32`, when each
task was last stamped, what the last round last read off the clock, and when each handler ran. A change of the clock
counts as the way forward to the new reading, however long that is. To set the clock back is therefore the same as to
let most of `2 ^ 32` milliseconds pass, just as the scheduler sees it.

A `Moment` is a machine with its chronicles, and `Run P x y` a run from `x` to `y` with `P` at all its moments. Other
calls may begin whenever nothing is in progress. A `View` is what one device shows of a moment, and `View.Turn` and
`View.Shift` are all that can happen to it: what is proved of each device is proved by cases on them.
-/

namespace TimedTasks

/-- What is known of the past of a device. -/
structure Chronicle where
  /-- The true time in milliseconds. -/
  time : Nat
  /-- When each task was last stamped with the clock. -/
  stamp : Nat → Nat
  /-- The clock as a round of the device last read it. -/
  read : UInt32
  /-- When the handler of each task was invoked, oldest first. -/
  fired : Nat → List Nat

/-- The task that is stamped with the clock. -/
def Act.stamps : Act → Option Nat
  | .reading (.start i _) | .reading (.renew i) => some i
  | _ => none

/-- A round reads the clock. -/
def Act.consults : Act → Bool
  | .reading (.cached ..) | .reading (.due ..) | .reading .scan | .reading (.renew _) => true
  | _ => false

namespace Machine

/-- The clock of a device. -/
def clock (m : Machine) (d : Nat) : UInt32 := (m.world.devices[d]?.map (·.board.clock)).getD 0

/-- What the machine does next, if it is device `d` that does it. -/
def turn (m : Machine) (d : Nat) : Option Act := m.stack.head?.bind (Frame.actOn d)

end Machine

namespace Chronicle

/-- The chronicle of a device on which nothing happened yet. -/
def start (clock : UInt32) : Chronicle := ⟨clock.toNat, fun _ => 0, 0, fun _ => []⟩

/-- The chronicle of device `d` when `m'` comes after `m`. -/
def next (c : Chronicle) (m m' : Machine) (d : Nat) : Chronicle where
  time := c.time + (m'.clock d - m.clock d).toNat
  stamp i := if (m.turn d).bind Act.stamps = some i then c.time else c.stamp i
  read := if (m.turn d).any Act.consults then m.clock d else c.read
  fired i := c.fired i ++ List.replicate (m'.world.invocations d i - m.world.invocations d i) c.time

/-- The chronicle of a device after its own act, at clock reading `clock`, led to a stride. -/
def after (c : Chronicle) (clock : UInt32) (act : Act) (s : Stride) : Chronicle where
  time := c.time + (s.board.clock - clock).toNat
  stamp i := if act.stamps = some i then c.time else c.stamp i
  read := if act.consults then clock else c.read
  fired i := c.fired i ++ if s.invoked = some i then [c.time] else []

end Chronicle

/-- A machine with the chronicles of its devices. -/
structure Moment where
  machine : Machine
  past : Nat → Chronicle

namespace Moment

/-- The moment before anything is called. -/
def initial (s : Setup) : Moment where
  machine := ⟨s.world, []⟩
  past d := .start (Machine.clock ⟨s.world, []⟩ d)

/-- One moment comes after the other. -/
structure Next (x y : Moment) : Prop where
  machine : x.machine.Next y.machine
  past : ∀ d, y.past d = (x.past d).next x.machine y.machine d

end Moment

/-- A run with `P` at all its moments. -/
inductive Run (P : Moment → Prop) : Moment → Moment → Prop
  | here {x} : P x → Run P x x
  | more {x y z} : Run P x y → y.Next z → P z → Run P x z

namespace Run

variable {P Q : Moment → Prop} {x y z : Moment}

/-- What is promised of a run is promised of its begin. -/
theorem first (h : Run P x y) : P x := by
  induction h with
  | here p => exact p
  | more _ _ _ ih => exact ih

/-- And of its end. -/
theorem last (h : Run P x y) : P y := by
  cases h <;> assumption

/-- A run that keeps a promise keeps a weaker one. -/
theorem mono (h : Run P x y) (sub : ∀ z, P z → Q z) : Run Q x y := by
  induction h with
  | here p => exact .here (sub _ p)
  | more _ n p ih => exact ih.more n (sub _ p)

/-- Two runs, one behind the other, are a run. -/
theorem trans (h : Run P x y) (h' : Run P y z) : Run P x z := by
  induction h' with
  | here => exact h
  | more _ n p ih => exact ih.more n p

/-- What holds at first and from each moment to the next holds at last. -/
theorem invariant {I : Moment → Prop} (h : Run P x y) (first : I x)
    (next : ∀ y z, I y → P y → y.Next z → P z → I z) : I y := by
  induction h with
  | here => exact first
  | more r n p ih => exact next _ _ ih r.last n p

end Run

/-! ## One device -/

/-- What one device shows of a moment. -/
structure View where
  device : Device
  /-- The calls in progress on the device, the innermost first. -/
  acts : List Act
  past : Chronicle

namespace View

/-- The scheduler of the device. -/
def scheduler (v : View) : Scheduler := v.device.scheduler

/-- The clock of the device. -/
def clock (v : View) : UInt32 := v.device.board.clock

/-- The device gets the acts of a stride in place of those above `rest`. -/
def take (s : Stride) (rest : List Act) (past : Chronicle) : View := ⟨s.device, s.frames ++ rest, past⟩

/-- The device works. -/
inductive Turn : View → View → Prop
  | works {w act s v rest} : v.acts = act :: rest → Leads w v.device act s →
      Turn v (take s rest (v.past.after v.clock act s))
  | delivers {ms act s v rest} : v.acts = .deadline ms :: act :: rest → Delivers v.device ms act s →
      Turn v (take s rest v.past)

/-- Acts that can be dropped: what was asked is known, or another device is asked. -/
def drops : Act → Bool
  | .answered _ | .report _ | .discard | .perform _ (.on ..) => true
  | _ => false

/-- An operation or an answer comes to the device or leaves it. -/
inductive Shift : View → View → Prop
  | drops {act v rest} : v.acts = act :: rest → drops act → Shift v { v with acts := rest }
  | arrives {v} (self : Option Nat) (op : Op) : (∀ b ∈ v.acts.head?, b.takesAnswer) →
      Shift v { v with acts := .perform self op :: v.acts }

end View

/-- What a device shows later: it works, or operations and answers come and go. -/
def View.Later (v v' : View) : Prop := View.Turn v v' ∨ Relation.ReflTransGen View.Shift v v'

namespace View

theorem drops_of_takesAnswer {act : Act} (h : act.takesAnswer) : drops act := by
  cases act <;> first | rfl | cases h

/-- A frame that can be dropped leaves its device, and no other one sees anything of it. -/
theorem shift_drop (v : View) (d e : Nat) {act : Act} (rest : List Frame) (h : drops act) :
    Relation.ReflTransGen Shift { v with acts := pending d (⟨e, act⟩ :: rest) }
      { v with acts := pending d rest } := by
  by_cases here : e = d
  · subst here
    rw [pending_same]
    exact .single (.drops (v := { v with acts := act :: pending e rest }) rfl h)
  · rw [pending_other here]

end View

/-- What device `d` shows of a moment. -/
def Moment.view (x : Moment) (d : Nat) : Option View :=
  x.machine.world.devices[d]?.map fun δ => ⟨δ, pending d x.machine.stack, x.past d⟩

namespace Machine

variable {m m' : Machine} {d e : Nat} {act : Act} {rest : List Frame} {s : Stride} {δ : Device}

theorem turn_cons : (top : m.stack = ⟨e, act⟩ :: rest) → m.turn d = if e = d then some act else none := by
  intro top
  simp [turn, top, Frame.actOn]

/-- An act that neither stamps a task nor is a round's look at the clock. -/
theorem turn_idle (top : m.stack = ⟨e, act⟩ :: rest) (h : act.stamps = none ∧ act.consults = false) :
    ∀ a, m.turn d = some a → a.stamps = none ∧ a.consults = false := by
  intro a ha
  rw [turn_cons top] at ha
  split at ha
  · cases ha; exact h
  · cases ha

/-- The clock of a device is that of its board. -/
theorem clock_eq (h : m.world.devices[d]? = some δ) : m.clock d = δ.board.clock := by
  simp [clock, h]

/-- A step leaves all other devices alone. -/
theorem Takes.device (t : m.Takes m' e s rest) (other : e ≠ d) : m'.world.devices[d]? = m.world.devices[d]? := by
  rw [t.devices, Array.getElem?_setIfInBounds]
  simp [other]

/-- Its own is left as the stride says. -/
theorem Takes.device_same (t : m.Takes m' d s rest) (h : m.world.devices[d]? = some δ) :
    m'.world.devices[d]? = some s.device := by
  have bound : d < m.world.devices.size := (Array.getElem?_eq_some_iff.1 h).1
  rw [t.devices, Array.getElem?_setIfInBounds]
  simp [bound]

end Machine

namespace Chronicle

variable {m m' : Machine} {d : Nat} {c : Chronicle}

/-- Nothing is added to the chronicle of a device that did not work. -/
theorem next_idle (turn : ∀ act, m.turn d = some act → act.stamps = none ∧ act.consults = false)
    (clock : m'.clock d = m.clock d) (runs : m'.world.invocations d = m.world.invocations d) :
    c.next m m' d = c := by
  have stamps : (m.turn d).bind Act.stamps = none := by
    cases h : m.turn d with
    | none => rfl
    | some act => exact (turn act h).1
  have consults : (m.turn d).any Act.consults = false := by
    cases h : m.turn d with
    | none => rfl
    | some act => exact (turn act h).2
  simp [next, stamps, consults, clock, runs]

/-- Its chronicle goes on by what the act did. -/
theorem next_works {act : Act} {s : Stride} {rest : List Frame} {δ : Device} (top : m.stack = ⟨d, act⟩ :: rest)
    (found : m.world.devices[d]? = some δ) (takes : m.Takes m' d s rest) :
    c.next m m' d = c.after δ.board.clock act s := by
  have turn : m.turn d = some act := by simp [Machine.turn_cons top]
  simp only [next, after, turn, Machine.clock_eq found, Machine.clock_eq (takes.device_same found),
    Stride.clock_device, Option.bind_some, Option.any_some, takes.invocations, Chronicle.mk.injEq, true_and]
  funext i
  by_cases invoked : s.invoked = some i <;> simp [invoked]

end Chronicle

namespace Moment

variable {x y : Moment} {d : Nat} {v' : View}

/-- A view shows a device, its acts and its chronicle. -/
theorem view_eq_some {x : Moment} {v : View} (h : x.view d = some v) :
    x.machine.world.devices[d]? = some v.device ∧ v.acts = pending d x.machine.stack ∧ v.past = x.past d := by
  obtain ⟨δ, hδ, rfl⟩ := Option.map_eq_some_iff.1 h
  exact ⟨hδ, rfl, rfl⟩

/-- What a device that is there shows. -/
theorem view_of_device {x : Moment} {δ : Device} (found : x.machine.world.devices[d]? = some δ) :
    x.view d = some ⟨δ, pending d x.machine.stack, x.past d⟩ := by
  rw [view, found]
  rfl

/-- A step in which device `d` does not work: it shows what it showed before, but for its calls in progress. -/
theorem view_idle (next : x.Next y) (devices : y.machine.world.devices[d]? = x.machine.world.devices[d]?)
    (runs : y.machine.world.invocations d = x.machine.world.invocations d)
    (turn : ∀ act, x.machine.turn d = some act → act.stamps = none ∧ act.consults = false)
    (h : y.view d = some v') :
    x.view d = some { v' with acts := pending d x.machine.stack } ∧ v'.acts = pending d y.machine.stack := by
  obtain ⟨found, acts, past⟩ := view_eq_some h
  have clock : y.machine.clock d = x.machine.clock d := by simp only [Machine.clock, devices]
  rw [next.past d, Chronicle.next_idle turn clock runs] at past
  refine ⟨?_, acts⟩
  rw [view, ← devices, found, past]
  rfl

/-- What a device shows at the next moment it can show there. -/
theorem Next.view_later (next : x.Next y) (st : Stacked x.machine.stack) (h : y.view d = some v') :
    ∃ v, x.view d = some v ∧ v.Later v' := by
  have same : ∀ {v v' : View}, v = v' → v.Later v' := fun e => .inr (e ▸ .refl)
  cases next.machine.turn with
  | works e act rest δ s top found l takes =>
    by_cases here : e = d
    · subst here
      obtain ⟨found', acts, past⟩ := view_eq_some h
      rw [takes.device_same found] at found'
      rw [next.past e, Chronicle.next_works top found takes] at past
      rw [takes.stack, pending_takes_same] at acts
      refine ⟨⟨δ, act :: pending e rest, x.past e⟩, by simp [view, found, top], .inl ?_⟩
      have turn := View.Turn.works (v := ⟨δ, act :: pending e rest, x.past e⟩) rfl l
      rcases v' with ⟨δ', acts', past'⟩
      cases found'
      cases acts
      cases past
      exact turn
    · have idle : ∀ a, x.machine.turn d = some a → a.stamps = none ∧ a.consults = false := by
        intro a ha
        simp [Machine.turn_cons top, here] at ha
      have runs : y.machine.world.invocations d = x.machine.world.invocations d := by
        funext i
        simp [takes.invocations, Ne.symm here]
      obtain ⟨hv, acts⟩ := view_idle next (takes.device here) runs idle h
      refine ⟨_, hv, same ?_⟩
      rw [top, pending_other here]
      rw [takes.stack, pending_takes_other here] at acts
      rw [← acts]
  | delivers e e' ms act rest δ s top found l takes =>
    have same' : e = e' := Stacked.device_of_deadline (top ▸ st)
    subst same'
    have idle := Machine.turn_idle (d := d) top ⟨rfl, rfl⟩
    have none : s.invoked = none := by cases l <;> rfl
    have runs : y.machine.world.invocations d = x.machine.world.invocations d := by
      funext i
      simp [takes.invocations, none]
    by_cases here : e = d
    · subst here
      obtain ⟨found', acts, past⟩ := view_eq_some h
      have clock : y.machine.clock e = x.machine.clock e := by
        rw [Machine.clock_eq found, Machine.clock_eq (takes.device_same found), Stride.clock_device]
        cases l <;> rfl
      rw [takes.device_same found] at found'
      rw [next.past e, Chronicle.next_idle idle clock runs] at past
      rw [takes.stack, pending_takes_same] at acts
      refine ⟨⟨δ, .deadline ms :: act :: pending e rest, x.past e⟩, by simp [view, found, top], .inl ?_⟩
      have turn := View.Turn.delivers (v := ⟨δ, .deadline ms :: act :: pending e rest, x.past e⟩) rfl l
      rcases v' with ⟨δ', acts', past'⟩
      cases found'
      cases acts
      cases past
      exact turn
    · obtain ⟨hv, acts⟩ := view_idle next (takes.device here) runs idle h
      refine ⟨_, hv, same ?_⟩
      rw [top, pending_other here, pending_other here]
      rw [takes.stack, pending_takes_other here] at acts
      rw [← acts]
  | redirects e e' self op rest top world top' =>
    have idle := Machine.turn_idle (d := d) top ⟨rfl, rfl⟩
    obtain ⟨hv, acts⟩ := view_idle next (by rw [world]) (by rw [world]) idle h
    refine ⟨_, hv, .inr ?_⟩
    rw [top] at st ⊢
    rw [top'] at acts
    have left := View.shift_drop v' d e rest (show View.drops (.perform self (.on e' op)) from rfl)
    by_cases here : e' = d
    · subst here
      rw [pending_same] at acts
      have arrival := View.Shift.arrives (v := { v' with acts := pending e' rest }) self op
        (st.takesAnswer_of_calls rfl)
      refine left.tail ?_
      rcases v' with ⟨δ', acts', past'⟩
      cases acts
      exact arrival
    · rw [pending_other here] at acts
      rcases v' with ⟨δ', acts', past'⟩
      cases acts
      exact left
  | answers e e' a act rest top takes alike top' =>
    have idle := Machine.turn_idle (d := d) top ⟨rfl, rfl⟩
    obtain ⟨hv, acts⟩ := view_idle next (by rw [alike.devices]) (by rw [alike.invocations]) idle h
    refine ⟨_, hv, .inr ?_⟩
    rw [top]
    rw [top'] at acts
    have given := View.shift_drop v' d e' (⟨e, act⟩ :: rest) (show View.drops (.answered a) from rfl)
    have taken := View.shift_drop v' d e rest (View.drops_of_takesAnswer takes)
    rcases v' with ⟨δ', acts', past'⟩
    cases acts
    exact given.trans taken
  | finishes e a top world top' =>
    have idle := Machine.turn_idle (d := d) top ⟨rfl, rfl⟩
    obtain ⟨hv, acts⟩ := view_idle next (by rw [world]) (by rw [world]) idle h
    refine ⟨_, hv, .inr ?_⟩
    rw [top]
    rw [top'] at acts
    have given := View.shift_drop v' d e [] (show View.drops (.answered a) from rfl)
    rcases v' with ⟨δ', acts', past'⟩
    cases acts
    exact given
  | calls e op top world top' =>
    have idle : ∀ a, x.machine.turn d = some a → a.stamps = none ∧ a.consults = false := by
      intro a ha
      simp [Machine.turn, top] at ha
    obtain ⟨hv, acts⟩ := view_idle next (by rw [world]) (by rw [world]) idle h
    refine ⟨_, hv, ?_⟩
    rw [top]
    rw [top'] at acts
    by_cases here : e = d
    · subst here
      rw [pending_same] at acts
      have arrival := View.Shift.arrives (v := { v' with acts := pending e [] }) none op (by simp)
      rcases v' with ⟨δ', acts', past'⟩
      cases acts
      exact .inr (.single arrival)
    · rw [pending_other here] at acts
      rcases v' with ⟨δ', acts', past'⟩
      cases acts
      exact .inr .refl

/-- The frames of a run lie as they can. -/
theorem stacked_of_run {P : Moment → Prop} {s : Setup} (r : Run P (initial s) x) : Stacked x.machine.stack :=
  r.invariant trivial fun _ _ h _ n _ => n.machine.turn.stacked h

/-- The handlers ran as often as the trace says. -/
theorem length_fired {P : Moment → Prop} {s : Setup} (r : Run P (initial s) x) (i : Nat) :
    ((x.past d).fired i).length = x.machine.world.invocations d i := by
  refine r.invariant (I := fun x => ((x.past d).fired i).length = x.machine.world.invocations d i) rfl ?_
  intro x y h _ next _
  have grows : x.machine.world.invocations d i ≤ y.machine.world.invocations d i := by
    cases next.machine.turn with
    | works e act rest δ s top found l takes => simp [takes.invocations]
    | delivers e e' ms act rest δ s top found l takes => simp [takes.invocations]
    | redirects e e' self op rest top world top' => exact Nat.le_of_eq (by rw [world])
    | answers e e' a act rest top takes alike top' => exact Nat.le_of_eq (by rw [alike.invocations])
    | finishes e a top world top' => exact Nat.le_of_eq (by rw [world])
    | calls e op top world top' => exact Nat.le_of_eq (by rw [world])
  rw [next.past d, Chronicle.next, List.length_append, List.length_replicate, h]
  omega

end Moment

end TimedTasks
