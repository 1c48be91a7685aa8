import TimedTasks.Proofs.Outcomes
import TimedTasks.Proofs.Placement

/-!
# The slots of a pool that are taken

Of the slots that a pool holds, some are taken (`Moment.taken`). What a step makes of them is said exactly, for all
interleavings (`Moment.Next.marks_eq`): the one slot that a call for a slot is answered with is added, and it was not taken
before; slots leave at the four places where they are released (`Moment.releases`), and nowhere else.
-/

namespace TimedTasks

namespace World

/-- The slot is marked as taken. -/
def marks (w : World) (d i : Nat) : Bool := (w.devices[d]?.bind fun δ => δ.scheduler.arena[i]?).any Task.allocated

variable {w : World} {d i : Nat} {δ : Device} {t : Task}

theorem marks_eq (found : w.devices[d]? = some δ) : w.marks d i = δ.scheduler.arena[i]?.any Task.allocated := by
  rw [marks, found, Option.bind_some]

theorem marks_of_slot (found : w.devices[d]? = some δ) (slot : δ.scheduler.arena[i]? = some t) :
    w.marks d i = t.allocated := by
  rw [marks_eq found, slot, Option.any_some]

theorem device_handOver {k : Nat} {p : Pool} {a : Arena} (found : w.devices[d]? = some δ) : (w.handOver d δ k p a).devices[d]? =
    some (δ.withScheduler { δ.scheduler with declared := δ.scheduler.declared + p.slots, arena := a }) :=
  device_put (w := { w with pools := _ }) found

/-- All slots that a pool comes to are free. -/
theorem marks_handOver {k : Nat} {p : Pool} {a : Arena} (found : w.devices[d]? = some δ)
    (made : Scheduler.enrollSlots δ.scheduler.arena k p.slotSize δ.scheduler.declared p.slots = .ok a)
    (low : δ.scheduler.declared ≤ i) (high : i < δ.scheduler.declared + p.slots) :
    (w.handOver d δ k p a).marks d i = false := by
  rw [marks_eq (device_handOver found)]
  show a[i]?.any Task.allocated = false
  rw [Arena.getElem?_enrollSlots made, if_pos ⟨low, high⟩]
  cases δ.scheduler.arena[i]? <;> rfl

end World

namespace Moment

/-- The slots of a holding that are taken, in order. -/
def taken (x : Moment) (h : Holding) : List Nat := (List.range' h.first h.count).filter (x.machine.world.marks h.device)

/-- The slot that the next step takes, with its device: the one that a call for a slot of a pool is answered with. -/
def takes (x : Moment) : Option (Nat × Nat) :=
  match x.machine.stack, x.answers with
  | ⟨d, .locked (.claim _ _)⟩ :: _, some (.slot (some id)) => some (d, id.index)
  | _, _ => none

/-- The state of the task of a slot. -/
def state (x : Moment) (d i : Nat) : Option TaskState :=
  (x.machine.world.devices[d]?.bind fun δ => δ.scheduler.arena[i]?).map Task.state

/-- The next step releases the slot: it stops the task, which waits; it is the end of a dispatch after which the task is to
stop; it begins a session, and the slot is still queued from before; or it ends a session. -/
def releases (x : Moment) (d i : Nat) : Bool :=
  match x.machine.stack with
  | ⟨e, .perform self (.stop ref)⟩ :: _ =>
    e = d && (ref.resolve self).toOption = some i && x.state d i = some .active
  | ⟨e, .settle j⟩ :: _ => e = d && j = i && x.state d i = some .stopping
  | ⟨e, .locked .beginSession⟩ :: _ => e = d && i ∈ x.queued d
  | ⟨e, .locked .endSession⟩ :: _ => e = d
  | _ => false

end Moment

/-- The act can take or release slots. -/
def Act.allots : Act → Bool
  | perform _ (.stop _) | settle _ | locked .beginSession | locked .endSession | locked (.claim ..) => true
  | _ => false

/-- No other step changes whether a slot that was handed out is taken. -/
theorem Becomes.allocated_eq {ps : Pools} {σ : Scheduler} {now : UInt32} {i : Nat} {act : Act} {t t' : Task}
    (b : Becomes ps σ now i act t t') (no : act.allots = false) (bound : i < σ.declared) : t'.allocated = t.allocated := by
  cases b with
  | same | relength | stamp | renew | dispatch | configure | link | attach => rfl
  | copy => rfl
  | enroll _ _ low => omega
  | stop | settle | handOut | begin | finish => cases no

namespace Task

variable (t : Task)

theorem allocated_stop (pooled : t.pooled) : t.stop.allocated = (t.allocated && t.state ≠ .active) := by
  unfold stop
  split <;> simp_all [giveBack]

theorem allocated_settle (pooled : t.pooled) : t.settle.allocated = (t.allocated && t.state ≠ .stopping) := by
  unfold settle
  split <;> simp_all [giveBack]

theorem allocated_retire (pooled : t.pooled) (queued declared : Bool) :
    (t.retire queued declared).allocated = (t.allocated && !queued && !declared) := by
  cases queued <;> cases declared <;> simp [retire, unconfigure, giveBack, fresh, pooled]

end Task

namespace Moment

variable {P : Moment → Prop} {s : Setup} {x y : Moment} {d i : Nat} {δ : Device} {t : Task} {below : List Frame}

theorem takes_eq_none (no : ∀ d i left below, x.machine.stack ≠ ⟨d, .locked (.claim i left)⟩ :: below) : x.takes = none := by
  unfold takes
  split
  · rename_i top _
    exact absurd top (no _ _ _ _)
  · rfl

/-- The step takes the slot that it answers with. -/
theorem takes_eq_some_iff : x.takes = some (d, i) ↔
    ∃ j left below, x.machine.stack = ⟨d, .locked (.claim j left)⟩ :: below ∧ x.answers = some (.slot (some ⟨i⟩)) := by
  constructor
  · intro taken
    unfold takes at taken
    split at taken
    · rename_i top answers
      cases taken
      exact ⟨_, _, _, top, answers⟩
    · cases taken
  · rintro ⟨j, left, below, top, answers⟩
    simp only [takes, top, answers]

/-- What a step makes of the marks where one device is put in place. -/
theorem marks_put {δ' : Device} {e : Nat} (found : x.machine.world.devices[d]? = some δ)
    (devices : y.machine.world.devices = x.machine.world.devices.setIfInBounds d δ') :
    y.machine.world.marks e i = if d = e then δ'.scheduler.arena[i]?.any Task.allocated else x.machine.world.marks e i := by
  have bound := (Array.getElem?_eq_some_iff.1 found).1
  by_cases here : d = e
  · subst here
    rw [if_pos rfl, World.marks, devices, Array.getElem?_setIfInBounds, if_pos rfl, if_pos bound, Option.bind_some]
  · rw [if_neg here, World.marks, World.marks, devices, Array.getElem?_setIfInBounds, if_neg here]

/-- A step of another kind, or of another device, changes no mark of a slot that was handed out. -/
theorem Next.marks_of_no_marks (next : x.Next y) (no : ∀ f ∈ x.machine.stack.head?, f.device = d → f.act.allots = false)
    (found : x.machine.world.devices[d]? = some δ) (bound : i < δ.scheduler.declared) :
    y.machine.world.marks d i = x.machine.world.marks d i := by
  have same : ∃ δ', y.machine.world.devices[d]? = some δ' ∧ (i < δ.scheduler.declared →
      δ'.scheduler.arena[i]?.any Task.allocated = δ.scheduler.arena[i]?.any Task.allocated) := by
    refine next.machine.turn.scheduler
      (R := fun σ σ' => i < σ.declared → σ'.arena[i]?.any Task.allocated = σ.arena[i]?.any Task.allocated) found
      (fun _ => rfl) (fun act rest s top l bound => ?_) fun ms act s l bound => ?_
    · have own : act.allots = false := no ⟨d, act⟩ (by rw [top]; rfl) rfl
      have slot := l.slots i
      generalize δ.scheduler.arena[i]? = o at slot ⊢
      generalize s.scheduler.arena[i]? = o' at slot ⊢
      cases slot with
      | none => rfl
      | some b => rw [Option.any_some, Option.any_some, b.allocated_eq own bound]
    · cases l <;> rfl
  obtain ⟨δ', found', same⟩ := same
  rw [World.marks_eq found', World.marks_eq found, same bound]

/-- A step that changes the slots of a device without handing one out. -/
theorem marks_of_slot {act : Act} {ε : Device} {t' : Task} (top : x.machine.stack = ⟨d, act⟩ :: below)
    (other : ∀ i left, act ≠ .locked (.claim i left)) (found : x.machine.world.devices[d]? = some δ)
    (slot : δ.scheduler.arena[i]? = some t)
    (devices : y.machine.world.devices = x.machine.world.devices.setIfInBounds d ε)
    (slot' : ε.scheduler.arena[i]? = some t') (law : t'.allocated = (t.allocated && !x.releases d i)) :
    y.machine.world.marks d i = (x.machine.world.marks d i && !x.releases d i || x.takes = some (d, i)) := by
  have none : x.takes = none := takes_eq_none fun e j left below claim => by
    cases top.symm.trans claim
    exact other j left rfl
  rw [marks_put found devices, if_pos rfl, slot', Option.any_some, World.marks_of_slot found slot, none, law]
  simp

/-- The last look at a slot takes it if it is answered with it. -/
theorem Next.takes_iff {j left : Nat} (next : x.Next y) (top : x.machine.stack = ⟨d, .locked (.claim j left)⟩ :: below) :
    x.takes = some (d, i) ↔ y.machine.answer = some (.slot (some ⟨i⟩)) := by
  rw [takes_eq_some_iff, next.answers top]
  exact ⟨fun ⟨_, _, _, _, answers⟩ => answers, fun answers => ⟨j, left, below, top, answers⟩⟩

/-- What the next step makes of the mark of a slot of a pool. -/
theorem Next.marks_eq (next : x.Next y) (found : x.machine.world.devices[d]? = some δ) (bound : i < δ.scheduler.declared)
    (slot : δ.scheduler.arena[i]? = some t) (pooled : t.pooled) :
    y.machine.world.marks d i = (x.machine.world.marks d i && !x.releases d i || x.takes = some (d, i)) := by
  have state : x.state d i = some t.state := by rw [Moment.state, found, Option.bind_some, slot, Option.map_some]
  by_cases idle : ∀ f ∈ x.machine.stack.head?, f.device = d → f.act.allots = false
  · have never : ∀ {act below}, x.machine.stack = ⟨d, act⟩ :: below → act.allots = true → False := by
      intro act below top allots
      have none := idle ⟨d, act⟩ (by rw [top]; rfl) rfl
      rw [allots] at none
      cases none
    have kept : x.releases d i = false := by
      refine Bool.eq_false_iff.2 fun releases => ?_
      unfold Moment.releases at releases
      split at releases
      · rename_i top
        simp only [Bool.and_eq_true, decide_eq_true_eq] at releases
        exact never (releases.1.1 ▸ top) rfl
      · rename_i top
        simp only [Bool.and_eq_true, decide_eq_true_eq] at releases
        exact never (releases.1.1 ▸ top) rfl
      · rename_i top
        simp only [Bool.and_eq_true, decide_eq_true_eq] at releases
        exact never (releases.1 ▸ top) rfl
      · rename_i top
        exact never (of_decide_eq_true releases ▸ top) rfl
      · cases releases
    have none : x.takes ≠ some (d, i) := by
      intro takes
      obtain ⟨j, left, below, top, -⟩ := takes_eq_some_iff.1 takes
      exact never top rfl
    rw [next.marks_of_no_marks idle found bound]
    simp [kept, none]
  · obtain ⟨act, below, top, allots⟩ : ∃ act below, x.machine.stack = ⟨d, act⟩ :: below ∧ act.allots = true := by
      cases stack : x.machine.stack with
      | nil => simp [stack] at idle
      | cons f below =>
        rcases f with ⟨e, act⟩
        simp only [stack, List.head?_cons, Option.mem_some_iff, forall_eq', Bool.not_eq_false, Classical.not_imp] at idle
        obtain ⟨rfl, allots⟩ := idle
        exact ⟨act, below, rfl, allots⟩
    cases act with
    | perform self op =>
      cases op with
      | stop ref =>
        obtain ⟨k, δ', meant, devices, slots⟩ := next.stops top found
        have slot' := slots i bound
        have releases : x.releases d i = (decide (k = i) && decide (t.state = .active)) := by
          simp [Moment.releases, top, meant, state, Except.toOption]
        by_cases here : k = i
        · rw [if_pos here, slot] at slot'
          refine marks_of_slot top (fun _ _ => Act.noConfusion) found slot devices slot' ?_
          rw [t.allocated_stop pooled, releases]
          simp [here]
        · rw [if_neg here, slot] at slot'
          refine marks_of_slot top (fun _ _ => Act.noConfusion) found slot devices slot' ?_
          rw [releases]
          simp [here]
      | _ => cases allots
    | settle k =>
      obtain ⟨δ', devices, slots⟩ := next.settles top found
      have slot' := slots i
      have releases : x.releases d i = (decide (k = i) && decide (t.state = .stopping)) := by
        simp [Moment.releases, top, state]
      by_cases here : k = i
      · rw [if_pos here, slot] at slot'
        refine marks_of_slot top (fun _ _ => Act.noConfusion) found slot devices slot' ?_
        rw [t.allocated_settle pooled, releases]
        simp [here]
      · rw [if_neg here, slot] at slot'
        refine marks_of_slot top (fun _ _ => Act.noConfusion) found slot devices slot' ?_
        rw [releases]
        simp [here]
    | locked work =>
      obtain ⟨δ', move, found', done, eq⟩ := next.does top
      cases found.symm.trans found'
      cases work with
      | beginSession =>
        obtain ⟨σ, begun, done⟩ := bind_eq_ok.1 done
        obtain ⟨l, queued, slots⟩ := Scheduler.beginSession_slots begun
        cases done
        have releases : x.releases d i = decide (i ∈ l) := by
          simp [Moment.releases, top, queued_eq found queued]
        refine marks_of_slot (ε := δ.withScheduler { σ with runState := .active }) top
          (fun _ _ same => by cases same) found slot (by rw [eq]; rfl) ((slots i).trans (by rw [slot]; rfl)) ?_
        rw [t.allocated_retire pooled, releases]
        simp
      | endSession =>
        obtain ⟨⟨n, σ⟩, ended, done⟩ := bind_eq_ok.1 done
        obtain ⟨l, -, -, slots⟩ := Scheduler.endSession_slots ended
        have world : ∃ δ', y.machine.world.devices = x.machine.world.devices.setIfInBounds d δ' ∧ δ'.scheduler = σ := by
          cases done
          rw [eq, World.closeSession]
          split <;> exact ⟨_, rfl, rfl⟩
        obtain ⟨δ', devices, rfl⟩ := world
        have releases : x.releases d i = true := by simp [Moment.releases, top]
        refine marks_of_slot top (fun _ _ same => by cases same) found slot devices ((slots i).trans (by rw [slot]; rfl)) ?_
        rw [t.allocated_retire pooled, releases]
        simp [bound]
      | claim j left =>
        have releases : x.releases d i = false := by simp [Moment.releases, top]
        have taken : x.takes = some (d, i) ↔ y.machine.answer = some (.slot (some ⟨i⟩)) := next.takes_iff top
        obtain ⟨u, slot', after⟩ := next.takes_slot top found
        rw [releases]
        split at after
        · have none : y.machine.answer ≠ some (.slot (some ⟨i⟩)) := by rw [after]; exact fun none => nomatch none
          rw [show y.machine.world.marks d i = x.machine.world.marks d i by rw [after]]
          simp [mt taken.1 none]
        · obtain ⟨σ, ps, altered, -, after⟩ := after
          obtain ⟨a, changed, rfl⟩ := Scheduler.alter_eq_ok altered
          rw [marks_put found (by rw [after]; rfl), if_pos rfl, World.marks_of_slot found slot]
          have answers : y.machine.answer = some (.slot (some ⟨j⟩)) := by rw [after]; rfl
          show a[i]?.any Task.allocated = _
          rw [Arena.getElem?_alter changed]
          by_cases here : j = i
          · subst here
            rw [if_pos rfl, slot, Option.map_some, Option.any_some, Task.handOut]
            simp [taken.2 answers]
          · have other : x.takes ≠ some (d, i) := fun takes => by
              cases answers.symm.trans (taken.1 takes)
              exact here rfl
            rw [if_neg here, slot, Option.any_some]
            simp [other]
      | _ => cases allots
    | _ => cases allots

/-! ## In every run -/

variable {l : List Holding} {h : Holding} {k : Nat}

theorem mem_taken : i ∈ x.taken h ↔ h.Has i ∧ x.machine.world.marks h.device i = true := by
  rw [taken, List.mem_filter, List.mem_range'_1]
  exact Iff.rfl

/-- A slot that is taken by the next step was not taken before. -/
theorem not_marked_of_takes (takes : x.takes = some (d, i)) : x.machine.world.marks d i = false := by
  obtain ⟨j, left, below, top, given⟩ := takes_eq_some_iff.1 takes
  unfold Moment.answers at given
  split at given
  · rename_i m step
    have next : x.Next ⟨m, fun e => (x.past e).next x.machine m e⟩ := ⟨.step step, fun _ => rfl⟩
    obtain ⟨δ, move, found, -⟩ := next.does top
    obtain ⟨u, slot, after⟩ := next.takes_slot top found
    split at after
    · rw [show m = _ from after] at given
      cases given
    · rename_i free
      obtain ⟨σ, ps, -, -, after⟩ := after
      rw [show m = _ from after] at given
      cases given
      rw [World.marks_of_slot found slot]
      exact Bool.eq_false_iff.2 free
  · cases given

/-- What the next step makes of the taken slots of a pool. -/
theorem Next.mem_taken_iff (next : x.Next y) (r : Traced P handing [] (initial s) x l) (m : h ∈ l) (own : h.pool = some k)
    (has : h.Has i) :
    i ∈ y.taken h ↔ (i ∈ x.taken h ∧ x.releases h.device i = false) ∨ x.takes = some (h.device, i) := by
  obtain ⟨δ, u, found, bound, slot, pooled⟩ := slot_of_mem r m own has
  rw [mem_taken, mem_taken, next.marks_eq found bound slot pooled]
  simp [has]

/-- Of the slots that a pool comes to, none is taken. -/
theorem Next.taken_eq_nil (next : x.Next y) (hands : x.handsOut = some h) (own : h.pool = some k) : y.taken h = [] := by
  have handed := next.hands
  rw [hands] at handed
  cases handed with
  | single => cases own
  | @pool d k δ p a found hp unbound room made after =>
    refine List.filter_eq_nil_iff.2 fun i m => ?_
    obtain ⟨low, high⟩ := List.mem_range'_1.1 m
    rw [after, World.marks_handOver found made low high]
    exact Bool.false_ne_true

/-- As long as it is not released, a slot stays taken. -/
theorem taken_of_kept (r : Traced P handing [] (initial s) x l) (m : h ∈ l) (own : h.pool = some k) (taken : i ∈ x.taken h)
    (kept : Run (fun z => P z ∧ z.releases h.device i = false) x y) : i ∈ y.taken h := by
  suffices all : (∃ l', Traced P handing [] (initial s) y l' ∧ h ∈ l') ∧ i ∈ y.taken h from all.2
  refine kept.invariant (I := fun y => (∃ l', Traced P handing [] (initial s) y l' ∧ h ∈ l') ∧ i ∈ y.taken h)
    ⟨⟨l, r, m⟩, taken⟩ ?_
  rintro z z' ⟨⟨l', r, m⟩, taken⟩ p next p'
  refine ⟨⟨_, r.more next p'.1, List.mem_append_left _ m⟩, ?_⟩
  exact (next.mem_taken_iff r m own (mem_taken.1 taken).1).2 (.inl ⟨taken, p.2⟩)

end Moment

/-! ## Who takes slots -/

/-- The act looks for a free slot of a pool. -/
def Act.seeks : Act → Bool
  | locked (.enroll _) | locked (.claim ..) | claiming .. => true
  | _ => false

/-- Only a call for a slot looks for one, and it does nothing else meanwhile. -/
theorem Leads.seeks {w : World} {δ : Device} {act a : Act} {t : Stride} {front back : List Act} (l : Leads w δ act t)
    (split : t.frames = front ++ a :: back) (seeks : a.seeks) :
    back = [] ∧ ((∃ self k, act = .perform self (.alloc k)) ∨ act.seeks) := by
  have m : a ∈ t.frames := by rw [split]; simp
  have last : ∀ {b : Act}, t.frames = [b] → back = [] := by
    intro b single
    rw [single] at split
    cases front with
    | nil => cases split; rfl
    | cons c front => simp at split
  have called : ∀ {b : BoardCall} {bodies : List (List Op)} {c : Act}, t.frames = [.interrupts b bodies, c] → back = [] := by
    intro b bodies c both
    rw [both] at split
    cases front with
    | nil => cases split; cases seeks
    | cons e front =>
      cases front with
      | nil => cases split; rfl
      | cons => simp at split
  have never : (∀ b ∈ t.frames, b.seeks = false) → back = [] ∧ ((∃ self k, act = .perform self (.alloc k)) ∨ act.seeks) :=
    fun none => absurd seeks (by rw [none a m]; exact Bool.false_ne_true)
  cases l with
  | ask ask =>
    refine ⟨called rfl, .inl ?_⟩
    simp only [Stride.frames, List.mem_cons, List.not_mem_nil, or_false] at m
    rcases m with rfl | rfl
    · cases seeks
    · cases ask <;> first | exact ⟨_, _, rfl⟩ | cases seeks
  | alloc => exact ⟨last rfl, .inl ⟨_, _, rfl⟩⟩
  | enrolled | occupied | claimedMeanwhile => exact ⟨last rfl, .inr rfl⟩
  | claiming => exact ⟨called rfl, .inr rfl⟩
  | _ => exact never (by simp [Stride.frames, Act.seeks])

/-- A frame above `below` was there before, or it is one of those that were put there. -/
theorem old_or_new {stack above rest below : List Frame} {d e : Nat} {act : Act} (pre : List Frame) (frames : List Act)
    (before : stack = pre ++ rest) (split : frames.map (⟨e, ·⟩) ++ rest = above ++ ⟨d, act⟩ :: below) :
    (∃ above', stack = above' ++ ⟨d, act⟩ :: below) ∨
      (e = d ∧ ∃ front back, frames = front ++ act :: back ∧ below = back.map (⟨e, ·⟩) ++ rest) := by
  rcases List.append_eq_append_iff.1 split with ⟨mid, -, same⟩ | ⟨mid, new, same⟩
  · exact .inl ⟨pre ++ mid, by rw [before, same, List.append_assoc]⟩
  · cases mid with
    | nil => exact .inl ⟨pre, by rw [before, same, List.nil_append]⟩
    | cons f mid =>
      cases same
      obtain ⟨front, tail, rfl, -, tails⟩ := List.map_eq_append_iff.1 new
      obtain ⟨a, back, rfl, here, rfl⟩ := List.map_eq_cons_iff.1 tails
      cases here
      exact .inr ⟨rfl, front, back, rfl, rfl⟩

/-- Whoever looks for a free slot of a pool was called to do so. -/
theorem Moment.sought {P : Moment → Prop} {s : Setup} {x : Moment} {d : Nat} {act : Act} {above below : List Frame}
    (r : Run P (initial s) x) (stack : x.machine.stack = above ++ ⟨d, act⟩ :: below) (seeks : act.seeks) :
    ∃ z self k, Run P (initial s) z ∧ z.machine.stack = ⟨d, .perform self (.alloc k)⟩ :: below ∧
      Run (fun z => P z ∧ z.Within below) z x := by
  induction r generalizing above d act below with
  | here => cases above <;> cases stack
  | @more y z r next p ih =>
    have within : z.Within below := ⟨above, _, stack⟩
    have old : (∃ above', y.machine.stack = above' ++ ⟨d, act⟩ :: below) → ∃ z' self k, Run P (initial s) z' ∧
        z'.machine.stack = ⟨d, .perform self (.alloc k)⟩ :: below ∧ Run (fun z => P z ∧ z.Within below) z' z := by
      rintro ⟨above', stack'⟩
      obtain ⟨z', self, k, before, top, later⟩ := ih stack' seeks
      exact ⟨z', self, k, before, top, later.more next ⟨p, within⟩⟩
    cases next.machine.turn with
    | works e a rest δ t top _ l takes =>
      rcases old_or_new [_] _ top (takes.stack.symm.trans stack) with there | ⟨rfl, front, back, frames, rfl⟩
      · exact old there
      · obtain ⟨rfl, ⟨self, k, rfl⟩ | own⟩ := l.seeks frames seeks
        · exact ⟨y, self, k, r, top, Run.more (.here ⟨r.last, [], _, top⟩) next ⟨p, within⟩⟩
        · -- The search goes on.
          obtain ⟨z', self, k, before, top', later⟩ := ih (show y.machine.stack = [] ++ _ :: rest from top) own
          exact ⟨z', self, k, before, top', later.more next ⟨p, within⟩⟩
    | delivers e e' ms a rest δ t top _ l takes =>
      rcases old_or_new [_, _] _ top (takes.stack.symm.trans stack) with there | ⟨rfl, front, back, frames, rfl⟩
      · exact old there
      · have m : act ∈ t.frames := by rw [frames]; simp
        have none : ∀ b ∈ t.frames, b.seeks = false := by cases l <;> simp [Stride.frames, Act.seeks]
        rw [none act m] at seeks
        cases seeks
    | redirects e e' self op rest top _ top' =>
      rcases old_or_new [_] [.perform self op] top (top'.symm.trans stack) with
        there | ⟨rfl, front, back, frames, rfl⟩
      · exact old there
      · obtain ⟨-, rfl, rfl⟩ := List.append_eq_singleton_iff.1 frames.symm |>.resolve_right (by simp)
        cases seeks
    | answers e e' a b rest top _ _ top' =>
      exact old ⟨[_, _] ++ above, by rw [top, List.append_assoc, ← stack, top']; rfl⟩
    | finishes e a top _ top' => cases above <;> cases top'.symm.trans stack
    | calls e op top _ top' =>
      rcases old_or_new [] [.perform none op] top (top'.symm.trans stack) with
        there | ⟨rfl, front, back, frames, rfl⟩
      · exact old there
      · obtain ⟨-, rfl, rfl⟩ := List.append_eq_singleton_iff.1 frames.symm |>.resolve_right (by simp)
        cases seeks

end TimedTasks
