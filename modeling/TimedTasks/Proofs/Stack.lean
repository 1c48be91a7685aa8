import TimedTasks.Proofs.Leads

/-!
# Which frames lie on which

A frame gives something to the frame below it, an answer or a deadline or just its end, so not every frame can lie on
every other. `Act.Sits` says on which acts an act can lie, and `Stacked` that all frames of a stack lie as they can.
Every step keeps a stack in order (`Machine.Turn.stacked`).

Two things follow that all later proofs live on. An act that goes on after a call on the board has just the interrupts
of that call above it, or nothing. And of the frames that belong to one device, the topmost that is buried under frames
of other devices waits for an answer.
-/

namespace TimedTasks

namespace Act

/-- The act waits for the answer of the operation above it. -/
def takesAnswer : Act → Bool
  | report _ | discard => true
  | _ => false

/-- The act asked for the round above it. -/
def loops : Act → Bool
  | running | ticking => true
  | _ => false

/-- The act is a walk along the queue. -/
def walks : Act → Bool
  | survey _ | walking .. => true
  | _ => false

/-- The act goes on after a call on the board. -/
def resumes : Act → Bool
  | reading _ | locked _ | opening | closing _ | sleeping _ => true
  | _ => false

/-- The act is what an operation has come to, and ends in its answer. -/
def calls : Act → Bool
  | perform .. | claiming .. | opening | closing _ | running | ticking | answered _ => true
  | reading (.start ..) | reading (.elapsed ..) | reading (.remaining ..) | reading (.expired ..)
  | reading (.info _) => true
  | locked (.adopt ..) | locked (.fetch _) => false
  | locked _ => true
  | _ => false

/-- The first act can lie right above the second. -/
def Sits : Act → Act → Prop
  | round, b => b.loops
  | deadline _, b => b = round ∨ b.loops
  | checkCache, b | survey _, b | walking .., b | reading (.cached ..), b | reading .scan, b
  | locked (.adopt ..), b => b = round
  | dispatch _, b | settle _, b | reading (.due ..), b | reading (.renew _), b => b.walks
  | locked (.fetch i), b | handling i .., b => b = settle i
  | discard, b => ∃ i, b = settle i
  | sleeping _, b => b = running
  | block .., b => (∃ call bodies, b = interrupts call bodies) ∨ (∃ i k p, b = handling i k p) ∨ b = running
  | report _, b => ∃ self ops, b = block self ops
  | interrupts .., b => b.resumes
  | _, b => b.takesAnswer

/-- Wherever `a` can lie, `b` can lie in its place. -/
def Replaces (b a : Act) : Prop := (a.calls → b.calls) ∧ ∀ below, a.Sits below → b.Sits below

/-- The readings of a query can lie where the reading before them lay. -/
theorem replaces_of_asks {r r' : Reading} (h : r.asks) (h' : r'.asks) : (reading r').Replaces (reading r) := by
  cases r <;> cases r' <;> first | cases h; done | cases h'; done | exact ⟨id, fun _ => id⟩

/-- And so can the answer to it. -/
theorem answered_replaces_of_asks {r : Reading} {a : Answer} (h : r.asks) : (answered a).Replaces (reading r) := by
  cases r <;> first | cases h; done | exact ⟨id, fun _ => id⟩

/-- A query under the lock goes on with a reading in the same place. -/
theorem reading_replaces_of_asks {r : Reading} {i : Nat} {row : TaskRow} (h : r.asks) :
    (reading r).Replaces (locked (.dataLength i row)) := by
  cases r <;> first | cases h; done | exact ⟨id, fun _ => id⟩

/-- A refusal under the lock lies where the section lay. -/
theorem answered_replaces_of_refuses {s : Section} {a : Answer} (h : s.refuses) :
    (answered a).Replaces (locked s) := by
  cases s <;> first | cases h; done | exact ⟨id, fun _ => id⟩

/-- An operation that begins under the lock waits for it in its own place. -/
theorem locked_replaces_of_asks {σ : Scheduler} {self : Option Nat} {op : Op} {s : Section} (h : op.Asks σ self s) :
    (locked s).Replaces (perform self op) := by
  cases h <;> exact ⟨id, fun _ => id⟩

end Act

/-- The frame lies as it can on the frames below it. Only the operations go from one device to another. -/
def Frame.Seated (f : Frame) : List Frame → Prop
  | [] => f.act.calls
  | g :: _ => f.act.Sits g.act ∧ (f.act.calls ∨ g.device = f.device)

/-- All frames of a stack lie as they can. -/
def Stacked : List Frame → Prop
  | [] => True
  | f :: rest => f.Seated rest ∧ Stacked rest

namespace Stacked

variable {d : Nat} {a b : Act} {rest : List Frame}

/-- A stack stays in order when its top gives way to what can lie in its place. -/
theorem replace (h : Stacked (⟨d, a⟩ :: rest)) (r : b.Replaces a) : Stacked (⟨d, b⟩ :: rest) := by
  refine ⟨?_, h.2⟩
  cases rest with
  | nil => exact r.1 h.1
  | cons g rest => exact ⟨r.2 _ h.1.1, h.1.2.imp r.1 id⟩

/-- An act on top of another one of the same device. -/
theorem push (h : Stacked (⟨d, b⟩ :: rest)) (s : a.Sits b) : Stacked (⟨d, a⟩ :: ⟨d, b⟩ :: rest) :=
  ⟨⟨s, .inr rfl⟩, h⟩

end Stacked

/-- What a step puts in place of its act lies on the rest as it can. -/
theorem Leads.stacked {w : World} {δ : Device} {d : Nat} {act : Act} {s : Stride} {rest : List Frame}
    (l : Leads w δ act s) (h : Stacked (⟨d, act⟩ :: rest)) : Stacked (s.frames.map (⟨d, ·⟩) ++ rest) := by
  have same : ∀ {a b : Act}, (b.calls = a.calls) → b.Sits = a.Sits → b.Replaces a :=
    fun c s => ⟨fun h => c ▸ h, fun _ h => s ▸ h⟩
  cases l with simp only [Stride.frames, List.map_cons, List.map_nil, List.cons_append, List.nil_append]
  | answer => exact h.replace (same rfl rfl)
  | ask ask => exact .push (.replace h (Act.locked_replaces_of_asks ask)) rfl
  | start | update | stop | info => exact .push (.replace h (same rfl rfl)) rfl
  | alloc | run | advance | setNow | hook => exact h.replace (same rfl rfl)
  | init => exact .push (.replace h (same rfl rfl)) rfl
  | tick => exact .push (.push (.replace h (same rfl rfl)) rfl) rfl
  | blockEnd => exact h.2
  | blockNext => exact .push (.push (.replace h (same rfl rfl)) ⟨_, _, rfl⟩) rfl
  | interruptsEnd => exact h.2
  | interruptsNext => exact .push (.replace h (same rfl rfl)) (.inl ⟨_, _, rfl⟩)
  | stamp => exact .push (.replace h (same rfl rfl)) rfl
  | wait => exact h.replace ⟨id, fun _ => .inl⟩
  | retarget => exact h.replace (same rfl rfl)
  | dueFirst => exact .push (.replace h (same rfl rfl)) rfl
  | due => exact h.replace (same rfl rfl)
  | notDue => exact h.2
  | scan => exact .push (.replace h (same rfl rfl)) rfl
  | renew => exact .push (.push (.replace h (same rfl rfl)) rfl) rfl
  | asked r r' => exact .push (.replace h (Act.replaces_of_asks r r')) rfl
  | told r => exact h.replace (Act.answered_replaces_of_asks r)
  | refused s => exact h.replace (Act.answered_replaces_of_refuses s)
  | declared | configured | noted | forgotten | attached | written | lengthTold | begun | shutdown | sessionOver
  | claimed =>
    exact h.replace (same rfl rfl)
  | lengthAsked r => exact .push (.replace h (Act.reading_replaces_of_asks r)) rfl
  | adopted => exact h.replace ⟨id, fun _ => .inl⟩
  | unhandled => exact h.2
  | fetched => exact .push (.replace h (same rfl rfl)) (.inr (.inl ⟨_, _, _, rfl⟩))
  | ended => exact .push (.replace h (same rfl rfl)) rfl
  | enrolled | claimedMeanwhile => exact h.replace (same rfl rfl)
  | opened | closed => exact .push (.replace h (same rfl rfl)) rfl
  | woken => exact h.2
  | wokenLast => exact h.replace ⟨id, fun _ s => .inr (.inr s)⟩
  | anotherRound => exact .push (.push (.replace h (same rfl rfl)) rfl) rfl
  | lastRound => exact .push (.replace h (same rfl rfl)) rfl
  | remembered => exact .push (.replace h (same rfl rfl)) rfl
  | nothingRemembered | surveyed | passed => exact h.replace (same rfl rfl)
  | walked => exact .push (.replace h (same rfl rfl)) rfl
  | looked => exact .push (.push (.replace h (same rfl rfl)) rfl) rfl
  | renewing => exact .push (.replace h (same rfl rfl)) rfl
  | dispatched => exact .push (.push (.replace h (same rfl rfl)) rfl) rfl
  | notDispatched => exact h.2
  | handled => exact h.2
  | handledLast => exact .push (.push (.replace h ⟨id, fun _ s => ⟨_, s⟩⟩) rfl) rfl
  | settled => exact h.2
  | unclaimed | occupied => exact h.replace (same rfl rfl)
  | claiming => exact .push (.replace h (same rfl rfl)) rfl

/-! ## The steps of a machine -/

/-- What the frame that asked for a round makes of its deadline. -/
inductive Delivers (δ : Device) (ms : Option UInt32) : Act → Stride → Prop
  | round : Delivers δ ms .round ⟨{ δ.scheduler with inRound := false }, δ.board, none, [.deadline ms]⟩
  | ticking : Delivers δ ms .ticking ⟨δ.scheduler, δ.board, none, [.answered (.deadline ms)]⟩
  | sleeping : δ.scheduler.runState = .active → ms.getD Interval.longest ≠ 0 → δ.board.serves .sleep →
      Delivers δ ms .running
        ⟨δ.scheduler, δ.board, some .sleep, [.sleeping (ms.getD Interval.longest), .running]⟩
  | awake : (δ.scheduler.runState = .active → ms.getD Interval.longest ≠ 0 → δ.board.serves .sleep = false) →
      Delivers δ ms .running ⟨δ.scheduler, δ.board, none, [.running]⟩

/-- What becomes of the deadline of a round is in the list. -/
theorem World.takeDeadline_delivers {w : World} {d : Nat} {δ : Device} {ms : Option UInt32} {act : Act} {move : Move}
    (h : w.takeDeadline d δ ms act = .ok move) : ∃ s, Delivers δ ms act s ∧ move.Is w d s := by
  cases act with
  | round => cases h; exact ⟨_, .round, (Alike.refl w).leaving_is rfl⟩
  | ticking => cases h; exact ⟨_, .ticking, (Alike.refl w).leaving_is rfl⟩
  | running =>
    simp only [takeDeadline] at h
    split at h
    · rename_i nap
      cases h
      unfold sleep
      split
      · rename_i serves
        exact ⟨_, .sleeping nap.1 nap.2 serves, (alike_emit fun _ _ => rfl).calling_is rfl⟩
      · rename_i not
        exact ⟨_, .awake fun _ _ => Bool.eq_false_iff.2 not, (Alike.refl w).leaving_is rfl⟩
    · rename_i not
      cases h
      exact ⟨_, .awake fun active nap => absurd ⟨active, nap⟩ not, (Alike.refl w).leaving_is rfl⟩
  | _ => cases h

namespace Machine

/-- What can come after a machine: its next step, or, when nothing is in progress, a new operation. -/
inductive Next : Machine → Machine → Prop
  | step {m m'} : m.step = .next m' → Next m m'
  | finish {m a w} : m.step = .done a w → Next m ⟨w, []⟩
  | call {m} (d : Nat) (op : Op) : m.stack = [] → Next m (Machine.call m.world d op)

/-- The move takes the place of the frames above `rest`. -/
structure Takes (m m' : Machine) (d : Nat) (s : Stride) (rest : List Frame) : Prop where
  stack : m'.stack = s.frames.map (⟨d, ·⟩) ++ rest
  devices : m'.world.devices = m.world.devices.setIfInBounds d s.device
  programs : m'.world.programs = m.world.programs
  wipes : m'.world.wipes = m.world.wipes
  invocations : ∀ e i, m'.world.invocations e i =
    m.world.invocations e i + if e = d ∧ s.invoked = some i then 1 else 0

/-- All that can happen to a machine. -/
inductive Turn (m m' : Machine) : Prop
  /-- The frame on top works. -/
  | works (d act rest δ s) : m.stack = ⟨d, act⟩ :: rest → m.world.devices[d]? = some δ → Leads m.world δ act s →
      m.Takes m' d s rest → Turn m m'
  /-- The frame below a deadline takes it. -/
  | delivers (d e ms act rest δ s) : m.stack = ⟨e, .deadline ms⟩ :: ⟨d, act⟩ :: rest →
      m.world.devices[d]? = some δ → Delivers δ ms act s → m.Takes m' d s rest → Turn m m'
  /-- An operation goes to another scheduler. -/
  | redirects (d e self op rest) : m.stack = ⟨d, .perform self (.on e op)⟩ :: rest → m'.world = m.world →
      m'.stack = ⟨e, .perform self op⟩ :: rest → Turn m m'
  /-- An answer is taken. -/
  | answers (d e a act rest) : m.stack = ⟨e, .answered a⟩ :: ⟨d, act⟩ :: rest → act.takesAnswer →
      m.world.Alike m'.world → m'.stack = rest → Turn m m'
  /-- The last answer: nothing is in progress any more. -/
  | finishes (d a) : m.stack = [⟨d, .answered a⟩] → m'.world = m.world → m'.stack = [] → Turn m m'
  | calls (d op) : m.stack = [] → m'.world = m.world → m'.stack = [⟨d, .perform none op⟩] → Turn m m'

/-- A machine goes on when the move of its top frame succeeds. -/
theorem onto_eq_next {rest : List Frame} {x : Except Fault Move} {m' : Machine} (h : onto rest x = .next m') :
    ∃ move, x = .ok move ∧ m' = ⟨move.world, move.frames ++ rest⟩ := by
  cases x with
  | error f => cases h
  | ok move => cases h; exact ⟨move, rfl, rfl⟩

/-- Putting a device where it is changes nothing. -/
theorem put_same {w : World} {d : Nat} {δ : Device} (h : w.devices[d]? = some δ) : (w.put d δ).devices = w.devices := by
  apply Array.ext_getElem?
  intro e
  rw [World.devices_put]
  split
  · rename_i same
    rw [← same, h]; rfl
  · rfl

/-- An answer is taken by a frame that waits for one, and leaves an alike world. -/
theorem takeAnswer_alike {w : World} {d : Nat} {δ : Device} {a : Answer} {act : Act} {move : Move}
    (found : w.devices[d]? = some δ) (h : w.takeAnswer d δ a act = .ok move) :
    act.takesAnswer ∧ w.Alike move.world ∧ move.frames = [] := by
  cases act with
  | report op =>
    cases h
    have told : w.Alike (w.emit (.performed op a)) := World.alike_emit fun _ _ => rfl
    exact ⟨rfl, ⟨put_same (w := w.emit _) found, told.programs, told.wipes, told.invocations⟩, rfl⟩
  | discard => cases h; exact ⟨rfl, ⟨put_same found, rfl, rfl, rfl⟩, rfl⟩
  | _ => cases h

/-- The frame on top works, unless it holds a result. -/
theorem turn_of_step {m m' : Machine} {d : Nat} {act : Act} {rest : List Frame} (top : m.stack = ⟨d, act⟩ :: rest)
    (h : onto rest (m.world.device d >>= fun δ => m.world.step d δ act) = .next m') : m.Turn m' := by
  obtain ⟨move, hm, rfl⟩ := onto_eq_next h
  obtain ⟨δ, hδ, hm⟩ := bind_eq_ok.1 hm
  have found := World.device_eq_ok_iff.1 hδ
  by_cases away : ∃ self e op, act = .perform self (.on e op)
  · obtain ⟨self, e, op, rfl⟩ := away
    cases hm
    exact .redirects d e self op rest top rfl rfl
  · have here : ∀ self e op, act ≠ .perform self (.on e op) := fun self e op same => away ⟨self, e, op, same⟩
    obtain ⟨s, l, is⟩ := World.step_listed here hm
    exact .works d act rest δ s top found l ⟨by simp [is.frames], is.devices, is.programs, is.wipes, is.invocations⟩

/-- Every step of a machine is one of its turns. -/
theorem Next.turn {m m' : Machine} (h : m.Next m') : m.Turn m' := by
  rcases m with ⟨w, stack⟩
  cases h with
  | call d op empty => exact .calls d op empty rfl rfl
  | finish done =>
    unfold Machine.step at done
    split at done
    · cases done
    · rename_i top
      cases done
      exact .finishes _ _ top rfl rfl
    all_goals
      unfold onto at done
      split at done <;> cases done
  | step next =>
    unfold Machine.step at next
    split at next
    · cases next
    · cases next
    · rename_i e a d act rest top
      obtain ⟨move, hm, rfl⟩ := onto_eq_next next
      obtain ⟨δ, hδ, hm⟩ := bind_eq_ok.1 hm
      obtain ⟨takes, alike, none⟩ := takeAnswer_alike (World.device_eq_ok_iff.1 hδ) hm
      exact .answers d e a act rest top takes alike (by simp [none])
    · rename_i e ms d act rest top
      obtain ⟨move, hm, rfl⟩ := onto_eq_next next
      obtain ⟨δ, hδ, hm⟩ := bind_eq_ok.1 hm
      obtain ⟨s, l, is⟩ := World.takeDeadline_delivers hm
      exact .delivers d e ms act rest δ s top (World.device_eq_ok_iff.1 hδ) l
        ⟨by simp [is.frames], is.devices, is.programs, is.wipes, is.invocations⟩
    · rename_i d act rest _ _ top
      exact turn_of_step top next

/-- Pools do not change their build. -/
theorem Turn.wipes_eq {m m' : Machine} (t : m.Turn m') : m'.world.wipes = m.world.wipes := by
  cases t with
  | works _ _ _ _ _ _ _ _ takes => exact takes.wipes
  | delivers _ _ _ _ _ _ _ _ _ _ takes => exact takes.wipes
  | redirects _ _ _ _ _ _ world => rw [world]
  | answers _ _ _ _ _ _ _ alike => exact alike.wipes
  | finishes _ _ _ world => rw [world]
  | calls _ _ _ world => rw [world]

end Machine

/-! ## Stacks stay in order -/

/-- What takes a deadline leaves the stack in order. -/
theorem Delivers.stacked {δ : Device} {d : Nat} {ms : Option UInt32} {act : Act} {s : Stride} {rest : List Frame}
    (l : Delivers δ ms act s) (h : Stacked (⟨d, act⟩ :: rest)) : Stacked (s.frames.map (⟨d, ·⟩) ++ rest) := by
  cases l with simp only [Stride.frames, List.map_cons, List.map_nil, List.cons_append, List.nil_append]
  | round => exact h.replace ⟨id, fun _ => .inr⟩
  | ticking => exact h.replace ⟨id, fun _ => id⟩
  | sleeping => exact .push (.push h rfl) rfl
  | awake => exact h

/-- An answer is given in the place of the operation that was handed on. -/
theorem Stacked.redirect {d e : Nat} {self : Option Nat} {op : Op} {rest : List Frame}
    (h : Stacked (⟨d, .perform self (.on e op)⟩ :: rest)) : Stacked (⟨e, .perform self op⟩ :: rest) := by
  refine ⟨?_, h.2⟩
  cases rest with
  | nil => exact rfl
  | cons g rest => exact ⟨h.1.1, .inl rfl⟩

/-- So does every turn. -/
theorem Machine.Turn.stacked {m m' : Machine} (t : m.Turn m') (h : Stacked m.stack) : Stacked m'.stack := by
  cases t with
  | works d act rest δ s top _ l takes =>
    rw [top] at h
    rw [takes.stack]
    exact l.stacked h
  | delivers d e ms act rest δ s top _ l takes =>
    rw [top] at h
    rw [takes.stack]
    exact l.stacked h.2
  | redirects d e self op rest top _ top' =>
    rw [top] at h
    rw [top']
    exact h.redirect
  | answers d e a act rest top _ _ top' =>
    rw [top] at h
    rw [top']
    exact h.2.2
  | finishes d a top _ top' => rw [top']; trivial
  | calls d op top _ top' => rw [top']; exact ⟨rfl, trivial⟩

/-- The deadline of a round goes to the device that it is about. -/
theorem Stacked.device_of_deadline {d e : Nat} {ms : Option UInt32} {act : Act} {rest : List Frame}
    (h : Stacked (⟨e, .deadline ms⟩ :: ⟨d, act⟩ :: rest)) : d = e :=
  h.1.2.resolve_left (by simp [Act.calls])

/-! ## The frames of one device -/

/-- What a frame does on device `d`. -/
def Frame.actOn (d : Nat) (f : Frame) : Option Act := if f.device = d then some f.act else none

/-- The calls in progress on device `d`, the innermost first. -/
def pending (d : Nat) (stack : List Frame) : List Act := stack.filterMap (Frame.actOn d)

section pending

variable {d e : Nat} {act : Act} {rest : List Frame}

@[simp] theorem pending_nil : pending d [] = [] := rfl

/-- The acts of a device are those of its frames. -/
theorem mem_pending : act ∈ pending d rest ↔ (⟨d, act⟩ : Frame) ∈ rest := by
  simp only [pending, List.mem_filterMap, Frame.actOn, Option.ite_none_right_eq_some, Option.some.injEq]
  constructor
  · rintro ⟨f, m, rfl, rfl⟩
    exact m
  · exact fun m => ⟨_, m, rfl, rfl⟩

@[simp] theorem pending_same : pending d (⟨d, act⟩ :: rest) = act :: pending d rest := by
  simp [pending, Frame.actOn]

theorem pending_other (h : e ≠ d) : pending d (⟨e, act⟩ :: rest) = pending d rest := by
  simp [pending, Frame.actOn, h]

/-- What a device puts on the stack is put on its own acts. -/
theorem pending_takes_same {acts : List Act} :
    pending d (acts.map (⟨d, ·⟩) ++ rest) = acts ++ pending d rest := by
  induction acts with
  | nil => rfl
  | cons a acts ih => simp only [List.map_cons, List.cons_append, pending_same, ih]

/-- And leaves the acts of all others as they are. -/
theorem pending_takes_other {acts : List Act} (h : e ≠ d) :
    pending d (acts.map (⟨e, ·⟩) ++ rest) = pending d rest := by
  induction acts with
  | nil => rfl
  | cons a acts ih => simp only [List.map_cons, List.cons_append, pending_other h, ih]

end pending

/-- All acts of one device lie as they can. -/
def Column : List Act → Prop
  | [] => True
  | [a] => a.calls
  | a :: b :: rest => a.Sits b ∧ Column (b :: rest)

namespace Act

variable {a b : Act}

/-- Operations lie on what waits for their answer, and on nothing else. -/
theorem sits_iff_of_calls (h : a.calls) : a.Sits b ↔ b.takesAnswer := by
  cases a with
  | reading r => cases r <;> first | cases h; done | exact Iff.rfl
  | locked s => cases s <;> first | cases h; done | exact Iff.rfl
  | _ => first | cases h; done | exact Iff.rfl

end Act

/-- Below what has come of an operation lies what waits for its answer. -/
theorem Column.takesAnswer_of_calls {a : Act} {acts : List Act} (h : Column (a :: acts)) (calls : a.calls) :
    ∀ b ∈ acts.head?, b.takesAnswer := by
  intro b hb
  cases acts with
  | nil => cases hb
  | cons b' acts =>
    cases hb
    exact (Act.sits_iff_of_calls calls).1 h.1

namespace Stacked

variable {d e : Nat} {a : Act} {stack rest : List Frame}

/-- The topmost act of a device that is buried under another device waits for an answer. -/
theorem takesAnswer_of_buried (h : Stacked (⟨e, a⟩ :: rest)) (away : e ≠ d) :
    ∀ b ∈ (pending d rest).head?, b.takesAnswer := by
  induction rest generalizing e a with
  | nil => intro b hb; cases hb
  | cons g rest ih =>
    rcases g with ⟨e', a'⟩
    by_cases here : e' = d
    · subst here
      have calls : a.calls := h.1.2.resolve_right fun same => away same.symm
      intro b hb
      rw [pending_same, List.head?_cons, Option.mem_some_iff] at hb
      subst hb
      exact (Act.sits_iff_of_calls calls).1 h.1.1
    · rw [pending_other here]
      exact ih h.2 here

/-- The acts of one device lie on each other as they would on a stack of their own. -/
theorem column (h : Stacked stack) (d : Nat) : Column (pending d stack) := by
  induction stack with
  | nil => trivial
  | cons f rest ih =>
    rcases f with ⟨e, a⟩
    by_cases here : e = d
    · subst here
      rw [pending_same]
      have below := ih h.2
      cases rest with
      | nil => exact h.1
      | cons g rest =>
        rcases g with ⟨e', a'⟩
        by_cases same : e' = e
        · subst same
          rw [pending_same] at below ⊢
          exact ⟨h.1.1, below⟩
        · have calls : a.calls := h.1.2.resolve_right same
          have buried := takesAnswer_of_buried h.2 same
          rw [pending_other same] at below ⊢
          cases hp : pending e rest with
          | nil => exact calls
          | cons b acts =>
            rw [hp] at below buried
            exact ⟨(Act.sits_iff_of_calls calls).2 (buried b rfl), below⟩
    · rw [pending_other here]
      exact ih h.2

/-- Below an operation, the topmost act of any device waits for an answer. -/
theorem takesAnswer_of_calls (h : Stacked (⟨e, a⟩ :: rest)) (calls : a.calls) :
    ∀ b ∈ (pending d rest).head?, b.takesAnswer := by
  by_cases here : e = d
  · subst here
    have col := h.column e
    rw [pending_same] at col
    exact Column.takesAnswer_of_calls col calls
  · exact takesAnswer_of_buried h here

end Stacked

end TimedTasks
