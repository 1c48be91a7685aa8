import TimedTasks.Proofs.Payloads
import TimedTasks.Proofs.Taken
import TimedTasks.Proofs.Undisturbed

/-!
# What a dispatch leaves of its task

The handler of a task may start, update and stop the task that it runs for, and the handlers of other schedulers that run
meanwhile may do so too. `Requests` is what was asked for of the task since its dispatch began. While the handler runs, the
slot is at every moment what the requests make of it (`Moment.Next.during`), and the end of the dispatch leaves what the
last one asked for (`Moment.last_request_decides`).
-/

namespace TimedTasks

/-- What is asked for of a task while it is dispatched. -/
structure Requests where
  /-- Whether the last start, update or stop is one that arms the task. -/
  arms : Option Bool
  /-- The clock as the last start or update read it. -/
  started : Option UInt32
  /-- The clock as it was read just before the handler, for a task that repeats. -/
  renewed : Option UInt32
  /-- The interval that the last update asked for. -/
  length : Option UInt32
  /-- A call for a slot of a pool was answered with the slot of the task. -/
  handedOut : Bool
  deriving DecidableEq

namespace Requests

/-- Nothing was asked for. -/
def none : Requests := ⟨.none, .none, .none, .none, false⟩

variable (q : Requests) (t : Task)

/-- The task is to be armed when its handler returns. -/
def armed : Bool := q.arms.getD t.repeats

/-- What is left of a task when its dispatch ends: the last request decides whether it is armed, and a slot of a pool whose
task is not armed is released. -/
def after : Task :=
  { t with
    state := if q.armed t then .active else .stopped
    timing :=
      { start := q.started.getD (q.renewed.getD t.timing.start)
        length := (q.length.map fun ms => Interval.clamp ms t.repeats).getD t.timing.length }
    allocated := (t.allocated || q.handedOut) && (q.armed t || !t.pooled)
    payload := if q.handedOut then t.payload.emptied else t.payload }

/-- What the requests make of a task while its handler runs. -/
def during : Task :=
  { q.after t with
    state := if q.armed t then .executing else .stopping
    allocated := t.allocated || q.handedOut }

/-- The slot is what the requests make of it, wherever its link leads. -/
def Holds (u : Task) : Prop := ∃ next, u = { q.during t with next }

variable {q t} {u : Task}

theorem Holds.inHandler (h : q.Holds t u) : u.state.inHandler = true := by
  obtain ⟨next, rfl⟩ := h
  unfold during
  cases q.armed t <;> rfl

theorem Holds.stop (h : q.Holds t u) : Holds { q with arms := some false } t u.stop := by
  obtain ⟨next, rfl⟩ := h
  refine ⟨next, ?_⟩
  have last : armed { q with arms := some false } t = false := rfl
  cases keeps : q.armed t <;> simp [Task.stop, during, after, keeps, last]

theorem Holds.start (h : q.Holds t u) (now : UInt32) :
    Holds { q with arms := some true, started := some now } t (u.start .executing now) := by
  obtain ⟨next, rfl⟩ := h
  exact ⟨next, rfl⟩

theorem Holds.withLength (h : q.Holds t u) (ms : UInt32) :
    Holds { q with length := some ms } t (u.withLength (Interval.clamp ms u.repeats)) := by
  obtain ⟨next, rfl⟩ := h
  exact ⟨next, rfl⟩

theorem Holds.handOut (h : q.Holds t u) : Holds { q with handedOut := true } t u.handOut := by
  obtain ⟨next, rfl⟩ := h
  refine ⟨next, ?_⟩
  have same : armed { q with handedOut := true } t = q.armed t := rfl
  cases given : q.handedOut <;> simp [Task.handOut, during, after, given, same]

/-- The end of the dispatch. -/
theorem Holds.settle (h : q.Holds t u) : ∃ next, u.settle = { q.after t with next } := by
  obtain ⟨next, rfl⟩ := h
  refine ⟨next, ?_⟩
  cases armed : q.armed t <;> cases pooled : t.pooled <;>
    simp [Task.settle, during, after, Task.giveBack, armed, pooled]

theorem Holds.segment (h : q.Holds t u) : u.payload.segment? = t.payload.segment? := by
  obtain ⟨next, rfl⟩ := h
  show (if q.handedOut then t.payload.emptied else t.payload).segment? = _
  split
  · cases t.payload <;> rfl
  · rfl

end Requests

/-! ## What is asked for -/

/-- The step of the act can be a request about task `i`. -/
def Act.requests (i : Nat) : Act → Bool
  | reading (.renew j) | reading (.start j _) => j = i
  | perform self (.update ref _) | perform self (.stop ref) => ref.resolve self = .ok i
  | locked (.claim ..) => true
  | _ => false

/-- The work under the lock gives task `i` a configuration or bytes. -/
def Section.edits (i : Nat) : Section → Bool
  | configure j .. | attach j _ | write j _ => j = i
  | _ => false

/-- What was asked for of task `i` of device `d` after the next step. -/
def Moment.requests (d i : Nat) (x : Moment) (q : Requests) : Requests :=
  match x.machine.turn d with
  | some (.reading (.renew j)) => if j = i then { q with renewed := some (x.machine.clock d) } else q
  | some (.reading (.start j _)) =>
    if j = i then { q with arms := some true, started := some (x.machine.clock d) } else q
  | some (.perform self (.update ref ms)) => if ref.resolve self = .ok i then { q with length := some ms } else q
  | some (.perform self (.stop ref)) => if ref.resolve self = .ok i then { q with arms := some false } else q
  | some (.locked (.claim ..)) => if x.takes = some (d, i) then { q with handedOut := true } else q
  | _ => q

/-- Nothing else changes more than the link of a slot whose handler runs. -/
theorem Becomes.of_inHandler {ps : Pools} {σ : Scheduler} {now : UInt32} {i : Nat} {act : Act} {u u' : Task}
    (b : Becomes ps σ now i act u u') (busy : u.state.inHandler = true) (bound : i < σ.declared)
    (asks : act.requests i = false) (lasts : act ≠ .settle i) (reset : act.resets = false) :
    ∃ next, u' = { u with next } := by
  cases b with
  | same => exact ⟨u.next, rfl⟩
  | @link _ _ _ _ next => exact ⟨next, rfl⟩
  | relength meant | stop meant => simp [Act.requests, meant] at asks
  | stamp | renew => simp [Act.requests] at asks
  | handOut => cases asks
  | settle => exact absurd rfl lasts
  | begin | finish => cases reset
  | enroll _ _ low => omega
  | dispatch active => rw [active] at busy; cases busy
  | configure idle => rw [busy] at idle; cases idle
  | attach stopped => rw [stopped] at busy; cases busy
  | copy _ stopped => rw [stopped] at busy; cases busy

namespace Moment

variable {P : Moment → Prop} {s : Setup} {x y z w : Moment} {d i : Nat} {δ : Device} {t u : Task} {q : Requests}
  {a : Frame} {above below : List Frame}

theorem requests_eq_self (no : ∀ act, x.machine.turn d = some act → act.requests i = false) : x.requests d i q = q := by
  unfold requests
  split
  case h_6 => rfl
  case h_5 turn => cases no _ turn
  all_goals
    rename_i turn
    exact if_neg (of_decide_eq_false (no _ turn))

/-- It is kept that the slot was handed out. -/
theorem not_takes_of_requests (h : (x.requests d i q).handedOut = false) : q.handedOut = false ∧ x.takes ≠ some (d, i) := by
  constructor
  · unfold requests at h
    split at h
    case h_6 => exact h
    all_goals split at h <;> first | exact h | cases h
  · intro took
    obtain ⟨j, left, below, top, -⟩ := takes_eq_some_iff.1 took
    rw [requests, Machine.turn_cons top, if_pos rfl] at h
    simp [took] at h

/-! ## While the handler runs -/

/-- What happens on top of a dispatch neither ends it nor begins it again, and a start there leads to `executing`. -/
theorem above_settle {act : Act} (r : Run P (initial s) x)
    (stack : x.machine.stack = ⟨d, act⟩ :: above ++ ⟨d, .settle i⟩ :: below)
    (found : x.machine.world.devices[d]? = some δ) : act ≠ .settle i ∧ act ≠ .reading (.renew i) ∧ act.resets = false ∧
      ∀ next, act = .reading (.start i next) → next = .executing := by
  have sound : TimedTasks.Sound δ.scheduler (pending d x.machine.stack) := sound r (view_of_device found)
  rw [stack, List.cons_append, pending_same] at sound
  have under : Act.settle i ∈ pending d (above ++ ⟨d, .settle i⟩ :: below) := mem_pending.2 (by simp)
  have rests := sound.layered.1
  refine ⟨?_, ?_, ?_, ?_⟩
  · rintro rfl
    exact rests under
  · rintro rfl
    exact rests under
  · by_contra resets
    have free : Act.round ∉ pending d (above ++ ⟨d, .settle i⟩ :: below) := by
      cases act with
      | locked s => cases s <;> first | exact rests | simp [Act.resets] at resets
      | _ => simp [Act.resets] at resets
    exact free (sound.column.tail.round_of_settle under)
  · rintro next rfl
    exact rests.1 under

/-- A task whose handler runs was declared and configured. -/
theorem configured_of_holds (r : Run P (initial s) x) (found : x.machine.world.devices[d]? = some δ)
    (slot : δ.scheduler.arena[i]? = some u) (holds : q.Holds t u) : u.state ≠ .uninit ∧ i < δ.scheduler.declared := by
  have configured : u.state ≠ .uninit := fun uninit => by
    have busy := holds.inHandler
    rw [uninit] at busy
    cases busy
  refine ⟨configured, (inside r (view_of_device found)).configured i ?_⟩
  rw [View.scheduler, Scheduler.life, Arena.life_of_slot (Arena.slot_eq_ok_iff.2 slot)]
  exact configured

/-- While the handler of a task runs, a request about the task does to its slot what is asked for. -/
theorem Next.requested {act : Act} (next : x.Next y) (r : Run P (initial s) x)
    (stack : x.machine.stack = ⟨d, act⟩ :: above ++ ⟨d, .settle i⟩ :: below) (found : x.machine.world.devices[d]? = some δ)
    (slot : δ.scheduler.arena[i]? = some u) (holds : q.Holds t u) (asks : act.requests i = true) :
    ∃ δ' u', y.machine.world.devices[d]? = some δ' ∧ δ'.scheduler.arena[i]? = some u' ∧ (x.requests d i q).Holds t u' := by
  have top : x.machine.stack = ⟨d, act⟩ :: (above ++ ⟨d, .settle i⟩ :: below) := stack
  obtain ⟨configured, bound⟩ := configured_of_holds r found slot holds
  have there : ∀ {δ'}, y.machine.world.devices = x.machine.world.devices.setIfInBounds d δ' →
      y.machine.world.devices[d]? = some δ' := fun devices => by
    rw [devices, Array.getElem?_setIfInBounds, if_pos rfl, if_pos (Array.getElem?_eq_some_iff.1 found).1]
  obtain ⟨-, renews, -, starts⟩ := above_settle r stack found
  have turn : x.machine.turn d = some act := by simp [Machine.turn_cons top]
  cases act with
  | reading read =>
    cases read with
    | renew j => exact absurd (by simpa [Act.requests] using asks) renews
    | start j state =>
      obtain rfl : j = i := by simpa [Act.requests] using asks
      cases starts state rfl
      obtain ⟨δ', found', slots⟩ := next.stamps top found
      have slot' := slots j
      rw [if_pos rfl, slot] at slot'
      refine ⟨δ', _, found', slot', ?_⟩
      rw [requests, turn]
      simp only [if_true]
      exact holds.start _
    | _ => cases asks
  | perform self op =>
    cases op with
    | update ref ms =>
      have meant : ref.resolve self = .ok i := by simpa [Act.requests] using asks
      obtain ⟨k, δ', meant', devices, slots⟩ := next.lengthens top found
      cases meant.symm.trans meant'
      have slot' := slots i bound
      rw [if_pos rfl, slot, Option.map_some, if_neg configured] at slot'
      refine ⟨δ', _, there devices, slot', ?_⟩
      rw [requests, turn]
      simp only [meant, if_true]
      exact holds.withLength ms
    | stop ref =>
      have meant : ref.resolve self = .ok i := by simpa [Act.requests] using asks
      obtain ⟨k, δ', meant', devices, slots⟩ := next.stops top found
      cases meant.symm.trans meant'
      have slot' := slots i bound
      rw [if_pos rfl, slot] at slot'
      refine ⟨δ', _, there devices, slot', ?_⟩
      rw [requests, turn]
      simp only [meant, if_true]
      exact holds.stop
    | _ => cases asks
  | locked work =>
    cases work with
    | claim j left =>
      obtain ⟨v, free, outcome⟩ := next.takes_slot top found
      rw [requests, turn]
      simp only [next.takes_iff top]
      split at outcome
      · have none : y.machine.answer = .none := by rw [outcome]; rfl
        rw [none, if_neg nofun, outcome]
        exact ⟨δ, u, found, slot, holds⟩
      · obtain ⟨σ, ps, altered, -, outcome⟩ := outcome
        obtain ⟨a, changed, rfl⟩ := Scheduler.alter_eq_ok altered
        have slots := Arena.getElem?_alter changed i
        have answer : y.machine.answer = some (.slot (some ⟨j⟩)) := by rw [outcome]; rfl
        have found' := there (show y.machine.world.devices = _ by rw [outcome]; rfl)
        by_cases here : j = i
        · subst here
          rw [if_pos rfl, slot] at slots
          rw [answer, if_pos rfl]
          exact ⟨_, _, found', slots, holds.handOut⟩
        · have other : some (Answer.slot (some ⟨j⟩)) ≠ some (.slot (some ⟨i⟩)) := by simp [here]
          rw [if_neg here, slot] at slots
          rw [answer, if_neg other]
          exact ⟨_, _, found', slots, holds⟩
    | _ => cases asks
  | _ => cases asks

/-- While the handler of a task runs, nothing but requests about the task changes more than the link of its slot. -/
theorem Next.unrequested {e : Nat} {act : Act} (next : x.Next y) (r : Run P (initial s) x)
    (stack : x.machine.stack = ⟨e, act⟩ :: above ++ ⟨d, .settle i⟩ :: below) (found : x.machine.world.devices[d]? = some δ)
    (slot : δ.scheduler.arena[i]? = some u) (holds : q.Holds t u) (asks : e = d → act.requests i = false) :
    ∃ δ' u', y.machine.world.devices[d]? = some δ' ∧ δ'.scheduler.arena[i]? = some u' ∧ q.Holds t u' := by
  have top : x.machine.stack = ⟨e, act⟩ :: (above ++ ⟨d, .settle i⟩ :: below) := stack
  obtain ⟨-, bound⟩ := configured_of_holds r found slot holds
  have works : ∀ act' rest step, x.machine.stack = ⟨d, act'⟩ :: rest → Leads x.machine.world δ act' step →
      ∃ link, step.scheduler.arena[i]? = some { u with next := link } := by
    intro act' rest step top' l
    cases top.symm.trans top'
    obtain ⟨lasts, -, reset, -⟩ := above_settle r stack found
    have becomes := l.slots i
    rw [slot] at becomes
    generalize step.scheduler.arena[i]? = o at becomes ⊢
    cases becomes with
    | some becomes =>
      obtain ⟨link, rfl⟩ := becomes.of_inHandler holds.inHandler bound (asks rfl) lasts reset
      exact ⟨link, rfl⟩
  obtain ⟨δ', found', link, slot'⟩ := next.machine.turn.scheduler
    (R := fun _ σ' => ∃ link, σ'.arena[i]? = some { u with next := link }) found ⟨u.next, slot⟩ works
    fun ms act' step l => by cases l <;> exact ⟨u.next, slot⟩
  obtain ⟨old, rfl⟩ := holds
  exact ⟨δ', _, found', slot', link, rfl⟩

/-- While the handler of a task runs, its slot is what the requests make of it. -/
theorem Next.during (next : x.Next y) (r : Run P (initial s) x)
    (stack : x.machine.stack = a :: above ++ ⟨d, .settle i⟩ :: below) (found : x.machine.world.devices[d]? = some δ)
    (slot : δ.scheduler.arena[i]? = some u) (holds : q.Holds t u) : ∃ δ' u', y.machine.world.devices[d]? = some δ' ∧
      δ'.scheduler.arena[i]? = some u' ∧ (x.requests d i q).Holds t u' := by
  rcases a with ⟨e, act⟩
  have top : x.machine.stack = ⟨e, act⟩ :: (above ++ ⟨d, .settle i⟩ :: below) := stack
  by_cases asks : e = d ∧ act.requests i = true
  · obtain ⟨rfl, asks⟩ := asks
    exact next.requested r stack found slot holds asks
  · have idle : x.requests d i q = q := by
      refine requests_eq_self fun act' turn => ?_
      rw [Machine.turn_cons top] at turn
      split at turn
      · cases turn
        simpa [*] using asks
      · cases turn
    rw [idle]
    exact next.unrequested r stack found slot holds fun same => by simpa [same] using asks

/-! ## From the dispatch to its end -/

/-- How far the dispatch of task `i` has come on top of the frames `below`, when no interrupt comes: `t` is the slot of the
task as the dispatch found it, `u` the slot as it is. -/
inductive Dispatches (d i : Nat) (t : Task) (below : List Frame) (x : Moment) (q : Requests) (u : Task) : Prop
  | begun : x.machine.stack = ⟨d, .dispatch i⟩ :: below → q = .none → u = t → Dispatches d i t below x q u
  /-- The next interval of the task begins. -/
  | renewing {front} : front = [] ∨ front = [⟨d, .interrupts .now []⟩] →
      x.machine.stack = front ++ ⟨d, .reading (.renew i)⟩ :: below → t.repeats = true → q = .none → u = t →
      Dispatches d i t below x q u
  /-- The handler of the task is in progress, or about to be, or over. -/
  | running {front} : x.machine.stack = front ++ ⟨d, .settle i⟩ :: below → q.Holds t u → q.renewed.isSome = t.repeats →
      Dispatches d i t below x q u

theorem requests_renewed (no : x.machine.turn d ≠ some (.reading (.renew i))) :
    (x.requests d i q).renewed = q.renewed := by
  unfold requests
  split
  case h_1 j turn =>
    have other : j ≠ i := by
      rintro rfl
      exact no turn
    rw [if_neg other]
  case h_6 => rfl
  all_goals split <;> rfl

namespace Dispatches

/-- When the dispatch of a task that waits begins, its slot is as the dispatch leaves it. -/
theorem step_of_begun (active : t.state = .active) (next : x.Next y) (top : x.machine.stack = ⟨d, .dispatch i⟩ :: below)
    (found : x.machine.world.devices[d]? = some δ) (slot : δ.scheduler.arena[i]? = some t) (calm : y.machine.Undisturbed) :
    ∃ δ' u, y.machine.world.devices[d]? = some δ' ∧ δ'.scheduler.arena[i]? = some u ∧ Dispatches d i t below y .none u := by
  obtain ⟨ε, s, found', l, takes⟩ := next.leads_of_top top rfl
  cases found.symm.trans found'
  refine ⟨s.device, ?_⟩
  rw [Stride.scheduler_device]
  have stack := takes.stack
  cases l with
  | renewing slot' _ repeats =>
    cases slot.symm.trans (Arena.slot_eq_ok_iff.1 slot')
    have none : (δ.board.called .now).2 = [] := by
      have quiet := calm ⟨d, .interrupts .now (δ.board.called .now).2⟩ (by rw [stack]; rfl)
      cases bodies : (δ.board.called .now).2 with
      | nil => rfl
      | cons => rw [bodies] at quiet; cases quiet
    refine ⟨t, takes.device_same found, slot, .renewing (.inr rfl) ?_ repeats rfl rfl⟩
    rw [stack]
    simp [Stride.frames, none]
  | dispatched slot' _ once st =>
    cases slot.symm.trans (Arena.slot_eq_ok_iff.1 slot')
    obtain ⟨a, changed, rfl⟩ := Scheduler.alter_eq_ok st
    have slots := Arena.getElem?_alter changed i
    rw [if_pos rfl, slot] at slots
    have under : y.machine.stack = [_, _] ++ _ :: below := stack
    refine ⟨_, takes.device_same found, slots, .running under ⟨t.next, ?_⟩ once.symm⟩
    simp [Requests.during, Requests.after, Requests.armed, Requests.none, once]
  | notDispatched slot' waits =>
    cases slot.symm.trans (Arena.slot_eq_ok_iff.1 slot')
    exact absurd active waits

/-- The next interval of a repeating task begins with the reading of the clock. -/
theorem step_of_renewing (repeats : t.repeats = true) (next : x.Next y)
    (top : x.machine.stack = ⟨d, .reading (.renew i)⟩ :: below) (found : x.machine.world.devices[d]? = some δ)
    (slot : δ.scheduler.arena[i]? = some t) : ∃ δ' u, y.machine.world.devices[d]? = some δ' ∧
      δ'.scheduler.arena[i]? = some u ∧ Dispatches d i t below y { Requests.none with renewed := some (x.machine.clock d) } u := by
  obtain ⟨ε, s, found', l, takes⟩ := next.leads_of_top top rfl
  cases found.symm.trans found'
  refine ⟨s.device, ?_⟩
  rw [Stride.scheduler_device, Machine.clock_eq found]
  have stack := takes.stack
  cases l with
  | renew st =>
    obtain ⟨a, changed, rfl⟩ := Scheduler.alter_eq_ok st
    have slots := Arena.getElem?_alter changed i
    rw [if_pos rfl, slot] at slots
    have under : y.machine.stack = [_, _] ++ _ :: below := stack
    refine ⟨_, takes.device_same found, slots, .running under ⟨t.next, ?_⟩ repeats.symm⟩
    simp [Requests.during, Requests.after, Requests.armed, Requests.none, repeats, Task.start, Task.beginAt]
  | asked asks | told asks => cases asks

/-- The dispatch is over only with its last act. -/
theorem settle_of_end (active : t.state = .active) (h : Dispatches d i t below x q u) (stacked : Stacked x.machine.stack)
    (next : x.Next y) (found : x.machine.world.devices[d]? = some δ) (slot : δ.scheduler.arena[i]? = some u)
    (ends : y.machine.stack = below) : x.machine.stack = ⟨d, .settle i⟩ :: below ∧ q.Holds t u ∧ q.renewed.isSome = t.repeats := by
  -- An act that leaves frames is not the last one.
  have more : ∀ {act rest}, x.machine.stack = ⟨d, act⟩ :: rest → act.works = true → below.length ≤ rest.length →
      ∃ ε s, x.machine.world.devices[d]? = some ε ∧ Leads x.machine.world ε act s ∧ s.frames = [] ∧
        rest.length = below.length := by
    intro act rest top works long
    obtain ⟨ε, s, found', l, takes⟩ := next.leads_of_top top works
    have length := congrArg List.length (takes.stack.symm.trans ends)
    rw [List.length_append, List.length_map] at length
    exact ⟨ε, s, found', l, List.length_eq_zero_iff.1 (by omega), by omega⟩
  cases h with
  | begun top none same =>
    obtain ⟨ε, s, found', l, bare, -⟩ := more top rfl (Nat.le_refl _)
    cases found.symm.trans found'
    cases l with
    | notDispatched slot' waits =>
      cases slot.symm.trans (Arena.slot_eq_ok_iff.1 slot')
      exact absurd (same ▸ active) waits
    | _ => cases bare
  | @renewing front alone stack =>
    rcases alone with rfl | rfl
    · obtain ⟨ε, s, -, l, bare, -⟩ := more stack rfl (Nat.le_refl _)
      cases l <;> cases bare
    · obtain ⟨ε, s, -, -, -, length⟩ := more stack rfl (by simp)
      simp at length
  | @running front stack holds renewed =>
    cases front with
    | nil => exact ⟨stack, holds, renewed⟩
    | cons a above =>
      obtain ⟨above', kept⟩ := next.machine.turn.keeps_of_no_result stacked stack ⟨nofun, rfl⟩ rfl
      have length := congrArg List.length (kept.symm.trans ends)
      simp only [List.length_append, List.length_cons] at length
      omega

/-- The next step of the dispatch, if that is not its end. -/
theorem step (active : t.state = .active) (h : Dispatches d i t below x q u) (r : Run P (initial s) x) (next : x.Next y)
    (found : x.machine.world.devices[d]? = some δ) (slot : δ.scheduler.arena[i]? = some u) (more : y.machine.stack ≠ below)
    (calm : y.machine.Undisturbed) : ∃ δ' u', y.machine.world.devices[d]? = some δ' ∧
      δ'.scheduler.arena[i]? = some u' ∧ Dispatches d i t below y (x.requests d i q) u' := by
  have idle : ∀ {act : Act} {rest}, x.machine.stack = ⟨d, act⟩ :: rest → act.requests i = false → x.requests d i q = q :=
    fun top asks => requests_eq_self fun act' turn => by
      rw [Machine.turn_cons top, if_pos rfl] at turn
      cases turn
      exact asks
  cases h with
  | begun top none same =>
    rw [idle top rfl, none]
    exact step_of_begun active next top found (same ▸ slot) calm
  | @renewing front above stack repeats none same =>
    rcases above with rfl | rfl
    · have told : x.requests d i q = { Requests.none with renewed := some (x.machine.clock d) } := by
        rw [requests, Machine.turn_cons stack, if_pos rfl]
        simp [none]
      rw [told]
      exact step_of_renewing repeats next stack found (same ▸ slot)
    · obtain ⟨ε, s, found', l, takes⟩ := next.leads_of_top stack rfl
      cases found.symm.trans found'
      rw [idle stack rfl]
      have after := takes.stack
      have here := takes.device_same found
      cases l with
      | interruptsEnd => exact ⟨_, u, here, slot, .renewing (.inl rfl) after repeats none same⟩
  | @running front stack holds renewed =>
    cases front with
    | nil =>
      obtain ⟨ε, s, found', l, takes⟩ := next.leads_of_top stack rfl
      cases l with
      | settled => exact absurd takes.stack more
    | cons a above =>
      obtain ⟨δ', u', found', slot', holds'⟩ := next.during r stack found slot holds
      obtain ⟨above', stack'⟩ := next.machine.turn.keeps_of_no_result (stacked_of_run r) stack ⟨nofun, rfl⟩ rfl
      refine ⟨δ', u', found', slot', .running stack' holds' ?_⟩
      rw [requests_renewed fun turn => ?_, renewed]
      rcases a with ⟨e, act⟩
      rw [Machine.turn_cons stack] at turn
      split at turn
      · rename_i same
        cases turn
        exact (above_settle r (same ▸ stack) found).2.1 rfl
      · cases turn

/-- The slot has its segment, and its task is not stopped. -/
theorem slot_kept (active : t.state = .active) (h : Dispatches d i t below x q u) :
    u.payload.segment? = t.payload.segment? ∧ u.state ≠ .stopped := by
  cases h with
  | begun _ _ same | renewing _ _ _ _ same =>
    subst same
    exact ⟨rfl, by rw [active]; exact TaskState.noConfusion⟩
  | running _ holds =>
    refine ⟨holds.segment, fun stopped => ?_⟩
    have busy := holds.inHandler
    rw [stopped] at busy
    cases busy

/-- The bytes of the task stay as they are, unless the slot is wiped. -/
theorem keeps_bytes (active : t.state = .active) (h : Dispatches d i t below x q u) (r : Run P (initial s) x)
    (next : x.Next y) (found : x.machine.world.devices[d]? = some δ) (slot : δ.scheduler.arena[i]? = some u)
    (short : ∀ segment length, t.payload = .copied segment length → length ≤ segment.size)
    (kept : x.machine.world.wipes = true → x.takes ≠ some (d, i)) :
    t.payload.bytes y.machine.world.pools = t.payload.bytes x.machine.world.pools := by
  obtain ⟨place, busy⟩ := h.slot_kept active
  cases payload : t.payload with
  | attached => rfl
  | copied segment length =>
    rw [payload] at place
    exact next.keeps_bytes r found slot place (short segment length payload) busy kept

theorem within (h : Dispatches d i t below x q u) : x.Within below := by
  cases h with
  | begun top => exact ⟨[], _, top⟩
  | renewing _ stack | running stack => exact ⟨_, _, stack⟩

end Dispatches

/-- As long as the dispatch is not over, the slot is as the dispatch and the requests leave it, and the bytes of the task are
as they were, unless the slot was handed out and wiped. -/
theorem dispatches_of_traced (r : Run (fun _ => True) (initial s) x) (top : x.machine.stack = ⟨d, .dispatch i⟩ :: below)
    (found : x.machine.world.devices[d]? = some δ) (slot : δ.scheduler.arena[i]? = some t) (active : t.state = .active)
    (more : ∀ z, P z → z.machine.stack ≠ below ∧ z.machine.Undisturbed) (asked : Traced P (requests d i) .none x z q) :
    Run (fun _ => True) (initial s) z ∧
      ((s.wipes → q.handedOut = false) → t.payload.bytes z.machine.world.pools = t.payload.bytes x.machine.world.pools) ∧
      ∃ δ u, z.machine.world.devices[d]? = some δ ∧ δ.scheduler.arena[i]? = some u ∧ Dispatches d i t below z q u := by
  induction asked with
  | here => exact ⟨r, fun _ => rfl, δ, t, found, slot, .begun top rfl rfl⟩
  | @more y z q _ next p ih =>
    obtain ⟨ry, bytes, ε, u, foundy, sloty, stage⟩ := ih
    obtain ⟨unended, calm⟩ := more z p
    refine ⟨ry.more next trivial, fun unwiped => ?_, stage.step active ry next foundy sloty unended calm⟩
    have kept := stage.keeps_bytes active ry next foundy sloty
      (fun segment length payload => (stored r d δ i t segment length found slot payload).1)
      fun wipes => (not_takes_of_requests (unwiped (wipes_of_run ry ▸ wipes))).2
    exact kept.trans (bytes fun wipes => (not_takes_of_requests (unwiped wipes)).1)

/-- What works under the lock while the dispatch is not over finds the handler of the task in progress. -/
theorem Dispatches.settle_mem {work : Section} {rest : List Frame} (h : Dispatches d i t below x q u)
    (top : x.machine.stack = ⟨d, .locked work⟩ :: rest) : .settle i ∈ pending d x.machine.stack := by
  refine mem_pending.2 ?_
  cases h with
  | begun stack => cases top.symm.trans stack
  | renewing alone stack => rcases alone with rfl | rfl <;> cases top.symm.trans stack
  | running stack => rw [stack]; simp

/-- The last request decides. A dispatch of a task that waits is over, and no interrupt came meanwhile, whatever the handler
did, and whatever the handlers of other schedulers did that ran meanwhile. If the task was started, updated or stopped, then
it is armed if that was not a stop the last time; otherwise it is armed if it repeats. A task that is not armed is stopped,
and its slot is released if it is a slot of a pool. The interval began when the last start or update read the clock, else
just before the handler for a task that repeats, and else when it did before; it lasts as long as the last update said. The
handler and the mode of the task are what they were, and so is its payload, with its bytes, unless the slot was handed out
meanwhile: all that would configure it or give it bytes was refused. A slot that was handed out shows no bytes, but they are
still where they were if slots are not wiped. -/
theorem last_request_decides (r : Run P (initial s) x) (top : x.machine.stack = ⟨d, .dispatch i⟩ :: below)
    (found : x.machine.world.devices[d]? = some δ) (slot : δ.scheduler.arena[i]? = some t) (active : t.state = .active)
    (asked : Traced (fun z => z.Within below ∧ z.machine.Undisturbed) (requests d i) .none x z q) (next : z.Next y)
    (ends : y.machine.stack = below) :
    (∃ δ' link, y.machine.world.devices[d]? = some δ' ∧ δ'.scheduler.arena[i]? = some { q.after t with next := link }) ∧
    q.renewed.isSome = t.repeats ∧
    ((s.wipes → q.handedOut = false) → t.payload.bytes y.machine.world.pools = t.payload.bytes x.machine.world.pools) ∧
    ∀ w work rest, Run (fun z => z.Within below ∧ z.machine.Undisturbed) x w →
      w.machine.stack = ⟨d, .locked work⟩ :: rest → work.edits i →
        ∃ state, w.machine.step = .next ⟨w.machine.world, ⟨d, .answered (.failed (.invalidState state))⟩ :: rest⟩ := by
  have r' := r.mono (Q := fun _ => True) fun _ _ => trivial
  have more : ∀ z : Moment, z.Within below ∧ z.machine.Undisturbed → z.machine.stack ≠ below ∧ z.machine.Undisturbed := by
    rintro z ⟨⟨above, f, stack⟩, calm⟩
    refine ⟨fun ended => ?_, calm⟩
    have length := congrArg List.length (stack.symm.trans ended)
    simp only [List.length_append, List.length_cons] at length
    omega
  obtain ⟨rz, bytes, ε, u, found', slot', stage⟩ := dispatches_of_traced r' top found slot active more asked
  obtain ⟨settles, holds, renewed⟩ := stage.settle_of_end active (stacked_of_run rz) next found' slot' ends
  have kept := next.pools_of_no_stores fun f m => by rw [settles] at m; cases m; rfl
  refine ⟨?_, renewed, fun unwiped => kept ▸ bytes unwiped, fun w work rest rw' locked edits => ?_⟩
  · obtain ⟨δ', devices, slots⟩ := next.settles settles found'
    have there : y.machine.world.devices[d]? = some δ' := by
      rw [devices, Array.getElem?_setIfInBounds, if_pos rfl, if_pos (Array.getElem?_eq_some_iff.1 found').1]
    have last := slots i
    rw [if_pos rfl, slot'] at last
    obtain ⟨link, left⟩ := holds.settle
    exact ⟨δ', link, there, left ▸ last⟩
  · obtain ⟨q', asked'⟩ := rw'.traced (requests d i) .none
    obtain ⟨run, -, ε', v, found'', -, stage'⟩ := dispatches_of_traced r' top found slot active more asked'
    have handled := stage'.settle_mem locked
    obtain ⟨-, refused⟩ := dispatch_exclusive run (view_of_device found'')
    cases work with
    | configure | attach | write =>
      obtain rfl := of_decide_eq_true edits
      first
        | exact ⟨_, refused _ rest _ locked (.configure handled)⟩
        | exact ⟨_, refused _ rest _ locked (.attach handled)⟩
        | exact ⟨_, refused _ rest _ locked (.write handled)⟩
    | _ => cases edits

/-- A task of a pool that runs once stops itself, cannot give itself bytes, and three milliseconds later gives itself another
interval. -/
def changeable : Setup :=
  ⟨[⟨2, 0, [], []⟩], false, [(2, 4)], [[[.stop .self, .write .self [7], .advance 3, .update .self 20]]], 5, false⟩

def changeableCalls : List (Nat × Op) :=
  [(0, .alloc 0), (0, .init), (0, .configure (.slot 0) 0 10 false), (0, .start (.slot 0)), (0, .advance 10), (0, .tick)]

/-- The update comes after the stop, so the task is armed again, and its slot is not released. -/
theorem last_request_decides_of_update : ∃ (x y z : Moment) (below : List Frame) (q : Requests) (δ : Device) (u : Task),
    x.machine.stack = ⟨0, .dispatch 0⟩ :: below ∧
    Traced (fun z => z.Within below ∧ z.machine.Undisturbed) (requests 0 0) .none x z q ∧ z.Next y ∧
    y.machine.stack = below ∧ q = ⟨some true, some 13, .none, some 20, false⟩ ∧ y.machine.world.devices[0]? = some δ ∧
    δ.scheduler.arena[0]? = some u ∧ u.state = .active ∧ u.timing = ⟨13, 20⟩ ∧ u.repeats = false ∧ u.allocated = true := by
  let at' := fun n => ((initial changeable).steps n changeableCalls).1
  let q := (at' 37).noted (requests 0 0) 25 ((initial changeable).steps 37 changeableCalls).2 .none
  let below : List Frame := [⟨0, .walking none none⟩, ⟨0, .round⟩, ⟨0, .ticking⟩]
  have before : Run (fun _ => True) (initial changeable) (at' 37) := run_steps (by decide +kernel)
  have top : (at' 37).machine.stack = ⟨0, .dispatch 0⟩ :: below := by rfl
  have shown : ((at' 37).machine.world.devices[0]?.any fun δ => δ.scheduler.arena[0]?.any fun t =>
      t.state = .active ∧ t.repeats = false ∧ t.allocated = true) = true := by decide +kernel
  obtain ⟨δ, found, shown⟩ := (Option.any_eq_true _ _).1 shown
  obtain ⟨t, slot, shown⟩ := (Option.any_eq_true _ _).1 shown
  obtain ⟨active, once, own⟩ := of_decide_eq_true shown
  have asked : Traced (fun z => 3 < z.machine.stack.length ∧ z.machine.Undisturbed) (requests 0 0) .none (at' 37)
      (at' (37 + 25)) q := traced_steps_add (by decide +kernel) (by decide +kernel)
  have next : (at' 62).Next (at' 63) := next_steps (by decide +kernel)
  have ends : (at' 63).machine.stack = below := by rfl
  have requested : q = ⟨some true, some 13, .none, some 20, false⟩ := by decide +kernel
  -- The stack is not as low as `below` before the end.
  have more : ∀ z : Moment, 3 < z.machine.stack.length ∧ z.machine.Undisturbed →
      z.machine.stack ≠ below ∧ z.machine.Undisturbed := by
    rintro z ⟨long, calm⟩
    refine ⟨fun ended => ?_, calm⟩
    rw [ended] at long
    exact Nat.lt_irrefl _ long
  have within := (asked.also fun z run => by
    obtain ⟨q', asked'⟩ := run.traced (requests 0 0) .none
    obtain ⟨-, -, _, _, -, -, stage⟩ := dispatches_of_traced before top found slot active more asked'
    exact stage.within).mono (Q := fun z => z.Within below ∧ z.machine.Undisturbed) fun z p => ⟨p.2, p.1.2⟩
  obtain ⟨⟨δ', link, found', slot'⟩, -⟩ := last_request_decides before top found slot active within next ends
  refine ⟨_, _, _, below, q, δ', _, top, within, next, ends, requested, found', slot', ?_⟩
  rw [requested]
  refine ⟨rfl, ?_, once, ?_⟩
  · show (⟨13, Interval.clamp 20 t.repeats⟩ : Interval) = _
    rw [once]
    rfl
  · show ((t.allocated || false) && (true || !t.pooled)) = true
    rw [own]
    rfl

end Moment

end TimedTasks
