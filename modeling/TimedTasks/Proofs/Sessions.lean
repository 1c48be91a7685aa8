import TimedTasks.Proofs.Beside
import TimedTasks.Proofs.Course

/-!
# The history of sessions

What a session shows of itself are its deeds: the word to the board with which it opens, the handlers that are invoked,
the sleeps, and the word to the board with which it closes. `bracketed` reads a history of deeds and says whether it
ends within a session, or that it is no history of sessions at all. With interrupts that begin no session and no round,
the deeds of every device are bracketed, and the state of the device says where the history stands
(`View.sessionOpen`).
-/

namespace TimedTasks

/-- What a session does that is seen outside. -/
inductive Deed
  | opens
  /-- The handler of a task is invoked. -/
  | runs (i : Nat)
  | sleeps (ms : UInt32)
  | closes
  deriving DecidableEq, Repr

namespace Deed

/-- Whether a session is open after the deed, if the deed has its place there at all. -/
def after : Deed → (within : Bool) → Option Bool
  | opens, false => some true
  | runs _, true | sleeps _, true => some true
  | closes, true => some false
  | _, _ => none

/-- The call on the board that the deed is; a handler is not called there. -/
def call : Deed → Option BoardCall
  | opens => some .init
  | runs _ => none
  | sleeps _ => some .sleep
  | closes => some .deinit

/-- Something comes of the deed on this board. -/
def shown (b : Board) (deed : Deed) : Bool := deed.call.all b.serves

end Deed

/-- Reads a history of deeds. Sessions open and close in turns, beginning with an opening, and handlers and sleeps have
their place within a session. Says whether the history ends within one. -/
def bracketed (deeds : List Deed) : Option Bool := deeds.foldlM (fun within deed => deed.after within) false

/-- What a device is about to do, with these acts in progress. -/
def Device.deed (δ : Device) : List Act → Option Deed
  | .perform _ .init :: _ => if δ.scheduler.runState = .stopped then some .opens else none
  | .locked (.fetch i) :: _ => (δ.scheduler.life i).handler.map fun _ => .runs i
  | .deadline ms :: .running :: _ =>
    if δ.scheduler.runState = .active ∧ ms.getD Interval.longest ≠ 0 then some (.sleeps (ms.getD Interval.longest))
    else none
  | .locked .endSession :: _ => some .closes
  | _ => none

namespace View

variable {v v' : View}

/-- A session is open: the board was told so and was not told of its end. -/
def sessionOpen (v : View) : Bool :=
  !v.acts.any Act.leaves && (v.scheduler.runState ≠ .stopped || v.acts.any Act.begins)

/-- What the device is about to do. -/
def deed (v : View) : Option Deed := v.device.deed v.acts

/-- The history after what the device is about to do. -/
def tell (v : View) (deeds : List Deed) : List Deed := deeds ++ v.deed.toList

/-- A session is open when no frame is past its end, and it goes on or is just being begun. -/
theorem sessionOpen_iff : v.sessionOpen = true ↔ (∀ a ∈ v.acts, a.leaves = false) ∧
    (v.scheduler.runState ≠ .stopped ∨ ∃ a ∈ v.acts, a.begins = true) := by
  simp [sessionOpen]

/-- Whether one is open depends on these three things only. -/
theorem sessionOpen_congr (leaves : v'.acts.any Act.leaves = v.acts.any Act.leaves)
    (begins : v'.acts.any Act.begins = v.acts.any Act.begins)
    (stopped : v'.scheduler.runState = .stopped ↔ v.scheduler.runState = .stopped) : v'.sessionOpen = v.sessionOpen := by
  simp only [sessionOpen, leaves, begins, ne_eq, stopped]

end View

/-! ## What a step makes of a session -/

/-- The step opens or closes a session, or is on the way to it. -/
def Act.marks : Act → Bool
  | perform _ .init | opening | locked .beginSession | locked .endSession | closing _ | locked (.sessionOver _) => true
  | _ => false

/-- A step of an act that is not part of a session's begin or end puts no such act on the stack. -/
theorem Leads.unmarked {w : World} {δ : Device} {act : Act} {s : Stride} (l : Leads w δ act s) (no : act.marks = false) :
    s.frames.any Act.leaves = false ∧ s.frames.any Act.begins = false := by
  constructor
  · rw [List.any_eq_false]
    intro a m leaves
    cases l.proceeds m (Act.engages_of_lives (Act.lives_of_leaves leaves)) <;> first | cases leaves; done | cases no
  · rw [List.any_eq_false]
    intro a m begins
    cases l.proceeds m (Act.engages_of_begins begins) <;> first | cases begins; done | cases no

namespace View

variable {v v' : View}

/-- What a step other than those that open and close sessions leaves of a session. -/
theorem sessionOpen_of_unmarked {w : World} {act : Act} {s : Stride} {rest : List Act} {past : Chronicle}
    (acts : v.acts = act :: rest) (l : Leads w v.device act s) (no : act.marks = false) :
    (take s rest past).sessionOpen = v.sessionOpen := by
  obtain ⟨leaves, begins⟩ := l.unmarked no
  have own : act.leaves = false ∧ act.begins = false := by
    cases act with
    | locked s => cases s <;> first | exact ⟨rfl, rfl⟩ | cases no
    | _ => first | exact ⟨rfl, rfl⟩ | cases no
  have restates : act.Restates v.scheduler.runState (take s rest past).scheduler.runState := by
    show act.Restates _ s.device.scheduler.runState
    rw [Stride.scheduler_device]
    exact l.restates
  refine sessionOpen_congr ?_ ?_ ⟨fun stopped => ?_, fun stopped => ?_⟩
  · rw [acts, take, List.any_append, leaves, List.any_cons, own.1]
  · rw [acts, take, List.any_append, begins, List.any_cons, own.2]
  · by_contra some
    exact restates.ne_stopped some (fun n same => by rw [same] at no; cases no) stopped
  · exact restates.stopped stopped fun begun => by rw [begun] at no; cases no

/-- While what interrupts cannot bring is about to happen in a session, the session is open. -/
theorem Calm.sessionOpen {act : Act} {rest : List Act} (h : v.Calm) (acts : v.acts = act :: rest)
    (major : act.minor = false) (stays : act.leaves = false) (some : v.scheduler.runState ≠ .stopped) :
    v.sessionOpen = true := by
  refine sessionOpen_iff.2 ⟨fun a m => ?_, .inl some⟩
  rw [acts] at m
  rcases List.mem_cons.1 m with rfl | m
  · exact stays
  · exact Bool.eq_false_iff.2 fun leaves => by
      have still := h.still acts major a m
      rw [Act.resumes_of_leaves leaves] at still
      cases still

/-- Such an act is about to do no deed, unless it invokes a handler or ends a round. -/
theorem deed_of_unmarked {act : Act} {rest : List Act} (acts : v.acts = act :: rest) (no : act.marks = false)
    (fetch : ∀ i, act ≠ .locked (.fetch i)) (deadline : ∀ ms, act ≠ .deadline ms) : v.deed = none := by
  rw [deed, acts]
  cases act with
  | perform self op => cases op <;> first | rfl | cases no
  | locked s => cases s <;> first | rfl | cases no; done | exact absurd rfl (fetch _)
  | deadline ms => exact absurd rfl (deadline ms)
  | _ => rfl

/-- Past the end of a session it is not open. -/
theorem not_sessionOpen_of_leaves {a : Act} (m : a ∈ v.acts) (leaves : a.leaves) : v.sessionOpen = false :=
  Bool.eq_false_iff.2 fun within => by
    have stays := (sessionOpen_iff.1 within).1 a m
    rw [leaves] at stays
    cases stays

/-- Nor is it while the scheduler is stopped and none is being begun. -/
theorem not_sessionOpen_of_stopped (stopped : v.scheduler.runState = .stopped)
    (none : ∀ a ∈ v.acts, a.begins = false) : v.sessionOpen = false :=
  Bool.eq_false_iff.2 fun within => by
    rcases (sessionOpen_iff.1 within).2 with some | ⟨a, m, begins⟩
    · exact some stopped
    · rw [none a m] at begins
      cases begins

/-- The steps that open and close a session do so in turns. -/
theorem Engaged.deed_of_marks {w : World} {act : Act} {s : Stride} {rest : List Act} {past : Chronicle} (h : v.Engaged)
    (calm : v.Calm) (acts : v.acts = act :: rest) (l : Leads w v.device act s) (marks : act.marks) :
    v.deed.toList.foldlM (fun within deed => deed.after within) v.sessionOpen = some (take s rest past).sessionOpen := by
  have sound : TimedTasks.Sound v.scheduler (act :: rest) := acts ▸ calm.sound
  have top : act ∈ v.acts := acts ▸ List.mem_cons_self
  -- Where the run state says that there is no session, nothing of one is in progress.
  have stays : v.scheduler.runState = .stopped → ∀ a ∈ rest, a.leaves = false := fun stopped a m =>
    Bool.eq_false_iff.2 fun leaves =>
      h.lives a (acts ▸ List.mem_cons_of_mem _ m) (Act.lives_of_leaves leaves) stopped
  have unbegun : (∀ a ∈ rest, a.engages = false) → ∀ a ∈ rest, a.begins = false := fun free a m =>
    Bool.eq_false_iff.2 fun begins =>
      Bool.false_ne_true ((free a m).symm.trans (Act.engages_of_begins begins))
  cases l with
  | @answer self op a _ answers =>
    cases op with
    | init =>
      have none : v.deed = none := by simp only [View.deed, acts, Device.deed]; exact if_neg answers.1
      have same : (take ⟨v.device.scheduler, v.device.board, Option.none, [.answered a]⟩ rest past).sessionOpen = v.sessionOpen :=
        sessionOpen_congr (by rw [acts]; rfl) (by rw [acts]; rfl) Iff.rfl
      rw [none, same]
      rfl
    | _ => cases marks
  | ask ask => cases ask <;> cases marks
  | @init self stopped =>
    have stopped : v.scheduler.runState = .stopped := stopped
    have none : Act.round ∉ rest := fun m => sound.session (List.mem_cons_of_mem _ m) stopped
    have free := unbegun (calm.unengaged acts rfl rfl none)
    have before : v.sessionOpen = false := by
      refine not_sessionOpen_of_stopped stopped fun a m => ?_
      rw [acts] at m
      rcases List.mem_cons.1 m with rfl | m
      · rfl
      · exact free a m
    have after : (take ⟨v.device.scheduler, v.device.board, some .init, [.opening]⟩ rest past).sessionOpen = true := by
      refine sessionOpen_iff.2 ⟨fun a m => ?_, .inr ⟨.opening, by simp [take, Stride.frames], rfl⟩⟩
      simp only [take, Stride.frames, List.cons_append, List.nil_append, List.mem_cons] at m
      rcases m with rfl | rfl | m
      · rfl
      · rfl
      · exact stays stopped a m
    have opens : v.deed = some .opens := by simp only [View.deed, acts, Device.deed]; exact if_pos stopped
    rw [opens, before, after]
    rfl
  | opened =>
    have none : v.deed = none := by simp only [View.deed, acts, Device.deed]
    rw [none]
    refine congrArg some (Eq.symm (sessionOpen_congr ?_ ?_ ?_))
    · rw [acts]; rfl
    · rw [acts]; rfl
    · exact Iff.rfl
  | @begun σ b =>
    have none : v.deed = none := by simp only [View.deed, acts, Device.deed]
    have alone := calm.alone acts (.inl rfl)
    have stays := stays (h.begins _ top rfl)
    have before : v.sessionOpen = true := by
      refine sessionOpen_iff.2 ⟨fun a m => ?_, .inr ⟨_, top, rfl⟩⟩
      rw [acts] at m
      rcases List.mem_cons.1 m with rfl | m
      · rfl
      · exact stays a m
    have after : (take ⟨{ σ with runState := .active }, v.device.board, Option.none, [.answered .done]⟩ rest past).sessionOpen =
        true := by
      refine sessionOpen_iff.2 ⟨fun a m => ?_, .inl fun stopped => RunState.noConfusion stopped⟩
      rcases List.mem_cons.1 m with rfl | m
      · rfl
      · exact stays a m
    rw [none, before, after]
    rfl
  | @ended count σ e =>
    have closes : v.deed = some .closes := by simp only [View.deed, acts, Device.deed]
    have before := calm.sessionOpen acts rfl rfl (h.lives _ top rfl)
    have after : (take ⟨σ, v.device.board, some .deinit, [.closing count]⟩ rest past).sessionOpen = false :=
      not_sessionOpen_of_leaves (a := .closing count) (by simp [take, Stride.frames]) rfl
    rw [closes, before, after]
    rfl
  | @closed count =>
    have none : v.deed = none := by simp only [View.deed, acts, Device.deed]
    rw [none]
    refine congrArg some (Eq.symm (sessionOpen_congr ?_ ?_ ?_))
    · rw [acts]; rfl
    · rw [acts]; rfl
    · exact Iff.rfl
  | @sessionOver count =>
    have none : v.deed = none := by simp only [View.deed, acts, Device.deed]
    have alone := unbegun (calm.alone acts (.inr ⟨count, rfl⟩))
    have before : v.sessionOpen = false := not_sessionOpen_of_leaves top rfl
    have after : (take ⟨{ v.device.scheduler with runState := .stopped }, v.device.board, Option.none, [.answered .done]⟩
        rest past).sessionOpen = false := by
      refine not_sessionOpen_of_stopped rfl fun a m => ?_
      rcases List.mem_cons.1 m with rfl | m
      · rfl
      · exact alone a m
    rw [none, before, after]
    rfl
  | @refused s a refuses => cases s <;> first | cases refuses; done | cases marks
  | _ => cases marks

/-- Each deed has its place in the session that the device is in. -/
theorem Engaged.deed (h : v.Engaged) (calm : v.Calm) (t : Turn v v') :
    v.deed.toList.foldlM (fun within deed => deed.after within) v.sessionOpen = some v'.sessionOpen := by
  cases t with
  | @works w act s _ rest acts l =>
    by_cases marks : act.marks = true
    · exact h.deed_of_marks calm acts l marks
    · have no : act.marks = false := by simpa using marks
      rw [sessionOpen_of_unmarked acts l no]
      by_cases fetch : ∃ i, act = .locked (.fetch i)
      · obtain ⟨i, rfl⟩ := fetch
        have sound : TimedTasks.Sound v.scheduler (.locked (.fetch i) :: rest) := acts ▸ calm.sound
        have round := sound.column.round_of_settle (sound.column.settle_of_fetch List.mem_cons_self)
        rw [calm.sessionOpen acts rfl rfl (sound.session round)]
        simp only [View.deed, acts, Device.deed]
        cases (v.device.scheduler.life i).handler <;> rfl
      · have none : v.deed = none :=
          deed_of_unmarked acts no (fun i same => fetch ⟨i, same⟩) fun ms same => by subst same; cases l
        rw [none]
        rfl
  | @delivers ms act s _ rest acts l =>
    have same : (take s rest v.past).sessionOpen = v.sessionOpen := by
      refine sessionOpen_congr ?_ ?_ ?_
      · rw [acts]; cases l <;> rfl
      · rw [acts]; cases l <;> rfl
      · cases l <;> exact Iff.rfl
    rw [same]
    cases deed : v.deed with
    | none => rfl
    | some x =>
      -- The one deed that a deadline leads to is a sleep, and only while the session is active.
      obtain ⟨active, ms, rfl⟩ : v.scheduler.runState = .active ∧ ∃ ms, x = .sleeps ms := by
        simp only [View.deed, acts, Device.deed] at deed
        cases l with
        | sleeping | awake =>
          simp only at deed
          split at deed
          · rename_i nap
            exact ⟨nap.1, _, (Option.some.inj deed).symm⟩
          · cases deed
        | _ => cases deed
      rw [calm.sessionOpen acts rfl rfl fun stopped => RunState.noConfusion (active.symm.trans stopped)]
      rfl

end View

/-! ## What the record of a run says of it -/

/-- The deed of device `d` that the event tells of. -/
def Event.deed (d : Nat) : Event → Option Deed
  | .opened e => if e = d then some .opens else none
  | .closed e => if e = d then some .closes else none
  | .slept e ms => if e = d then some (.sleeps ms) else none
  | .ran e id .. => if e = d then some (.runs id.index) else none
  | _ => none

namespace World

variable {w w' : World} {d e : Nat} {δ : Device}

/-- The deeds of device `d` that the record tells of. -/
def deeds (w : World) (d : Nat) : List Deed := w.trace.toList.filterMap (Event.deed d)

/-- An event adds its deed to the history of its device, if it is one. -/
@[simp] theorem deeds_emit {event : Event} : (w.emit event).deeds d = w.deeds d ++ (event.deed d).toList := by
  cases told : event.deed d <;> simp [deeds, emit, told]

@[simp] theorem deeds_leaving {acts : List Act} : (w.leaving e δ acts).world.deeds d = w.deeds d := rfl

@[simp] theorem deeds_answering {a : Answer} : (w.answering e δ a).world.deeds d = w.deeds d := rfl

@[simp] theorem deeds_calling {call : BoardCall} {acts : List Act} :
    (w.calling e δ call acts).world.deeds d = w.deeds d := rfl

@[simp] theorem deeds_invoke {k : Nat} : (w.invoke k).2.deeds d = w.deeds d := by
  unfold invoke
  split <;> rfl

@[simp] theorem deeds_log {message : Log} : (w.log message).deeds d = w.deeds d := by
  simp [log, Event.deed]

theorem deeds_of_trace (h : w'.trace = w.trace) : w'.deeds d = w.deeds d := by rw [deeds, h, deeds]

end World

/-- What the device is about to do, if its board shows it. -/
def Device.shows (δ : Device) (acts : List Act) : List Deed := (δ.deed acts).toList.filter (·.shown δ.board)

namespace World

variable {w : World} {d e : Nat} {δ : Device} {move : Move} {act : Act} {rest : List Act}

/-- Opening a session is a deed of its device, where the board is told. -/
theorem openSession_deeds {self : Option Nat} : (w.openSession e δ).world.deeds d =
    w.deeds d ++ if e = d then δ.shows (.perform self .init :: rest) else [] := by
  unfold openSession
  split
  · rename_i stopped
    cases serves : δ.board.serves .init <;> by_cases here : e = d <;>
      simp [serves, here, Event.deed, Device.shows, Device.deed, stopped, Deed.shown, Deed.call]
  · rename_i some
    simp [Device.shows, Device.deed, some]

/-- And so is closing it. -/
theorem closeSession_deeds {count : Nat} : (w.closeSession e δ count).world.deeds d =
    w.deeds d ++ if e = d then δ.shows (.locked .endSession :: rest) else [] := by
  unfold closeSession
  cases serves : δ.board.serves .deinit <;> by_cases here : e = d <;>
    simp [serves, here, Event.deed, Device.shows, Device.deed, Deed.shown, Deed.call]

/-- The invocation of a handler is a deed of its device. -/
theorem callHandler_deeds {i : Nat} (h : w.callHandler e δ i = .ok move) : move.world.deeds d =
    w.deeds d ++ if e = d then δ.shows (.locked (.fetch i) :: rest) else [] := by
  obtain ⟨t, found, h⟩ := bind_eq_ok.1 h
  have handler : (δ.scheduler.life i).handler = t.handler := congrArg Life.handler (Arena.life_of_slot found)
  split at h
  · rename_i none
    cases h
    simp [Device.shows, Device.deed, handler, none]
  · rename_i k some
    obtain ⟨bytes, -, h⟩ := bind_eq_ok.1 h
    rw [← Except.ok.inj h]
    show (World.invoke _ k).2.deeds d = _
    rw [deeds_invoke]
    by_cases here : e = d <;> simp [here, Event.deed, Device.shows, Device.deed, handler, some, Deed.shown, Deed.call]

/-- What a step records is just the deed that its device was about to do. -/
theorem step_deeds (rest : List Act) (h : w.step e δ act = .ok move) :
    move.world.deeds d = w.deeds d ++ if e = d then δ.shows (act :: rest) else [] := by
  have idle : ∀ {move : Move}, move.world.deeds d = w.deeds d → δ.deed (act :: rest) = none →
      move.world.deeds d = w.deeds d ++ if e = d then δ.shows (act :: rest) else [] := fun same none => by
    simp [same, Device.shows, none]
  cases silent : act.silent with
  | true =>
    refine idle (deeds_of_trace (step_leaves_beside silent h).2) ?_
    cases act with
    | perform self op => cases op <;> first | rfl | cases silent
    | locked s => cases s <;> first | rfl | cases silent
    | deadline ms => cases h
    | _ => rfl
  | false =>
    cases act with
    | perform self op =>
      cases op with
      | init => cases h; exact openSession_deeds
      | run =>
        cases h
        refine idle ?_ rfl
        unfold World.run
        split
        · rfl
        · split
          · rfl
          · simp
      | alloc k =>
        obtain ⟨p, -, h⟩ := bind_eq_ok.1 h
        split at h <;> cases h <;> exact idle rfl rfl
      | pool k =>
        obtain ⟨p, -, h⟩ := bind_eq_ok.1 h
        split at h <;> cases h <;> exact idle rfl rfl
      | _ => cases silent
    | interrupts call bodies =>
      cases bodies with
      | nil => cases silent
      | cons body bodies => cases h; exact idle (by simp [Event.deed]) rfl
    | locked s =>
      cases s with
      | attach i data =>
        obtain ⟨r, -, h⟩ := bind_eq_ok.1 h
        rcases r with _ | ⟨σ, ps⟩ <;> cases h <;> exact idle rfl rfl
      | write i data =>
        obtain ⟨r, -, h⟩ := bind_eq_ok.1 h
        rcases r with _ | ⟨kept, σ, ps⟩ <;> cases h <;> exact idle rfl rfl
      | beginSession =>
        obtain ⟨σ, -, h⟩ := bind_eq_ok.1 h
        cases h
        exact idle (by simp) rfl
      | fetch i => exact callHandler_deeds h
      | endSession =>
        obtain ⟨⟨count, σ⟩, -, h⟩ := bind_eq_ok.1 h
        cases h
        exact @closeSession_deeds _ _ _ (δ.withScheduler σ) rest _
      | sessionOver count => cases h; exact idle (by simp) rfl
      | enroll k =>
        obtain ⟨p, -, h⟩ := bind_eq_ok.1 h
        obtain ⟨r, -, h⟩ := bind_eq_ok.1 h
        rcases r with _ | ⟨first, σ, ps⟩
        · cases h; exact idle (by simp) rfl
        · cases h; exact idle rfl rfl
      | claim i left =>
        obtain ⟨t, -, ⟨-, rfl⟩ | ⟨-, σ, ps, -, -, rfl⟩⟩ := claim_eq_ok h <;> exact idle rfl rfl
      | _ => cases silent
    | _ => cases silent

/-- The end of a round records a sleep, or nothing. -/
theorem takeDeadline_deeds (rest : List Act) {ms : Option UInt32} (h : w.takeDeadline e δ ms act = .ok move) :
    move.world.deeds d = w.deeds d ++ if e = d then δ.shows (.deadline ms :: act :: rest) else [] := by
  cases act with
  | round => cases h; simp [Device.shows, Device.deed]
  | ticking => cases h; simp [Device.shows, Device.deed]
  | running =>
    simp only [takeDeadline] at h
    split at h
    · rename_i nap
      cases h
      unfold sleep
      cases serves : δ.board.serves .sleep <;> by_cases here : e = d <;>
        simp [serves, here, Event.deed, Device.shows, Device.deed, nap, Deed.shown, Deed.call]
    · rename_i awake
      cases h
      simp [Device.shows, Device.deed, awake]
  | _ => cases h

/-- An answer is no deed. -/
theorem takeAnswer_deeds {a : Answer} (h : w.takeAnswer e δ a act = .ok move) : move.world.deeds d = w.deeds d := by
  cases act with
  | report op => cases h; simp [Event.deed]
  | discard => cases h; rfl
  | _ => cases h

end World

namespace Device

variable {δ : Device} {acts : List Act}

/-- An answer does nothing, and neither does an act that waits for one. -/
theorem deed_of_waits (h : ∀ act ∈ acts.head?, act.waits) : δ.deed acts = none := by
  cases acts with
  | nil => rfl
  | cons act rest =>
    have waits := h act rfl
    cases act with
    | perform self op => cases op <;> first | rfl | cases waits
    | locked s => cases waits
    | deadline ms => cases waits
    | _ => rfl

/-- A device whose act waits for another is about to do nothing. -/
theorem shows_of_waits (h : ∀ act ∈ acts.head?, act.waits) : δ.shows acts = [] := by
  rw [shows, deed_of_waits h]
  rfl

end Device

namespace Moment

variable {x y : Moment} {d : Nat} {v : View}

/-- The record tells of what a device is about to do as far as its board shows it, and of nothing else. -/
theorem Next.deeds (next : x.Next y) (stacked : Stacked x.machine.stack) (h : x.view d = some v) :
    y.machine.world.deeds d = x.machine.world.deeds d ++ v.device.shows v.acts := by
  obtain ⟨found, acts, -⟩ := view_eq_some h
  have buried : ∀ {e act rest}, x.machine.stack = ⟨e, act⟩ :: rest → e ≠ d → v.device.shows v.acts = [] := by
    intro e act rest top away
    refine Device.shows_of_waits fun a ha => ?_
    rw [acts, top, pending_other away] at ha
    have takes := Stacked.takesAnswer_of_buried (top ▸ stacked) away a ha
    rw [Act.waits, takes, Bool.true_or]
  have given : ∀ {e a rest}, x.machine.stack = ⟨e, .answered a⟩ :: rest → v.device.shows v.acts = [] := by
    intro e a rest top
    by_cases here : e = d
    · subst here
      refine Device.shows_of_waits fun b hb => ?_
      rw [acts, top, pending_same] at hb
      cases hb
      rfl
    · exact buried top here
  have worked : ∀ {e act rest move δ}, x.machine.stack = ⟨e, act⟩ :: rest → x.machine.world.devices[e]? = some δ →
      x.machine.world.step e δ act = .ok move →
      move.world.deeds d = x.machine.world.deeds d ++ v.device.shows v.acts := by
    intro e act rest move δ top found' step
    by_cases here : e = d
    · subst here
      cases found.symm.trans found'
      rw [World.step_deeds (pending e rest) step, if_pos rfl, acts, top, pending_same]
    · rw [World.step_deeds [] step, if_neg here, buried top here]
  cases next.machine.goes with
  | calls e op idle eq =>
    have shows : v.device.shows v.acts = [] := Device.shows_of_waits (by rw [acts, idle]; simp)
    rw [eq, shows, List.append_nil]
    rfl
  | finishes e a top eq => rw [eq, given top, List.append_nil]
  | answers e a e' act rest δ move top _ takes eq => rw [eq, given top, World.takeAnswer_deeds takes, List.append_nil]
  | delivers e ms e' act rest δ move top found' takes eq =>
    have same : e' = e := Stacked.device_of_deadline (top ▸ stacked)
    subst same
    rw [eq, World.takeDeadline_deeds (pending e' rest) takes]
    by_cases here : e' = d
    · subst here
      cases found.symm.trans found'
      rw [if_pos rfl, acts, top, pending_same, pending_same]
    · rw [if_neg here, buried top here]
  | works e act rest δ move top found' step eq => rw [eq]; exact worked top found' step

end Moment

/-! ## Boards stay what they are -/

@[simp] theorem Stride.clockOnly_device (s : Stride) : s.device.board.clockOnly = s.board.clockOnly := by
  unfold device
  split
  · rfl
  · rw [Board.called]; split <;> rfl

namespace View

variable {v v' : View}

/-- A board stays what it is. -/
theorem Turn.clockOnly (t : Turn v v') : v'.device.board.clockOnly = v.device.board.clockOnly := by
  cases t with
  | works acts l =>
    refine (Stride.clockOnly_device _).trans ?_
    cases l <;> rfl
  | delivers acts l =>
    refine (Stride.clockOnly_device _).trans ?_
    cases l <;> rfl

/-- It does so for ever. -/
theorem Later.clockOnly (l : v.Later v') : v'.device.board.clockOnly = v.device.board.clockOnly := by
  rcases l with turned | shifted
  · exact turned.clockOnly
  · induction shifted with
    | refl => rfl
    | tail _ step ih => cases step <;> exact ih

end View

/-- Which deeds a board shows depends on whether it has more than a clock. -/
theorem Deed.shown_congr {b b' : Board} (h : b'.clockOnly = b.clockOnly) : Deed.shown b' = Deed.shown b := by
  have serves : b'.serves = b.serves := by
    funext call
    simp only [Board.serves, h]
  funext deed
  rw [shown, shown, serves]

/-! ## Sessions one after the other -/

/-- With a round in progress, no session is on its way out. -/
theorem Layered.stays {acts : List Act} (h : Layered acts) (column : Column acts) (guarded : Guarded Act.minor acts)
    (m : Act.round ∈ acts) : ∀ a ∈ acts, a.leaves = false := by
  induction acts with
  | nil => simp
  | cons c rest ih =>
    intro a ma
    by_cases top : c = .round
    · subst top
      rcases List.mem_cons.1 ma with rfl | ma
      · rfl
      · exact Bool.eq_false_iff.2 fun leaves => by
          have still := Column.unresumed column tame_calm guarded rfl a ma
          rw [Act.resumes_of_leaves leaves] at still
          cases still
    · have below : Act.round ∈ rest := (List.mem_cons.1 m).resolve_left (Ne.symm top)
      rcases List.mem_cons.1 ma with rfl | ma
      · refine Bool.eq_false_iff.2 fun leaves => ?_
        have rests := h.1
        cases a with
        | closing n => exact rests below
        | locked s => cases s <;> first | cases leaves; done | exact rests below
        | _ => cases leaves
      · exact ih h.2 column.tail guarded.tail below a ma

/-- A round is in progress within a session only. -/
theorem View.Calm.sessionOpen_of_round {v : View} (h : v.Calm) (m : Act.round ∈ v.acts) : v.sessionOpen = true :=
  sessionOpen_iff.2 ⟨h.sound.layered.stays h.sound.column h.guarded m, .inl (h.sound.session m)⟩

namespace Moment

variable {P : Moment → Prop} {s : Setup} {y : Moment} {d : Nat} {v : View} {deeds : List Deed}

/-- The record of a run tells of all deeds that the board shows. -/
theorem deeds_of_traced (t : Traced P (recording d View.tell) [] (initial s) y deeds) (h : y.view d = some v) :
    y.machine.world.deeds d = deeds.filter (·.shown v.device.board) := by
  induction t generalizing v with
  | here => simp [World.deeds, initial, Setup.world]
  | @more y z b r next _ ih =>
    have stacked := stacked_of_run r.run
    obtain ⟨u, hu, later⟩ := next.view_later stacked h
    have told : recording d View.tell y b = b ++ u.deed.toList := by simp [recording, hu, View.tell]
    rw [told, List.filter_append, next.deeds stacked hu, ih hu, Deed.shown_congr later.clockOnly]
    rfl

/-- On every device, whatever is called and whatever handlers do, sessions come one after the other, as long as
interrupts begin neither a session nor a round. Handlers run and the board sleeps within a session, and only then is a
round in progress; the record tells of all this as far as the board shows it. A call for a session or a round that is
refused is refused with its first step, and leaves everything as it was. -/
theorem sessions_bracketed (t : Traced P (recording d View.tell) [] (initial s) y deeds)
    (calm : ∀ z, P z → Confined Op.calm z.machine.stack) (h : y.view d = some v) :
    bracketed deeds = some v.sessionOpen ∧ (v.sessionOpen = false → .round ∉ v.acts) ∧
      y.machine.world.deeds d = deeds.filter (·.shown v.device.board) ∧
      ∀ x self op below d' e, Run (fun z => P z ∧ z.Within below) x y → Run P (initial s) x → op.session →
        x.machine.stack = ⟨d, .perform self op⟩ :: below → y.machine.stack = ⟨d', .answered (.failed e)⟩ :: below →
        x.Next y ∧ y.machine.world = x.machine.world := by
  have known : ∀ z, Run P (initial s) z → ∀ u, z.view d = some u → u.Calm ∧ u.Engaged :=
    fun z r u hu => ⟨Moment.calm r calm hu, engaged r calm hu⟩
  have within : bracketed deeds = some v.sessionOpen := by
    refine view_of_record (I := fun u deeds => bracketed deeds = some u.sessionOpen)
      (Q := fun u => u.Calm ∧ u.Engaged) (t.also known) (fun z u p hu => p.2 u hu) (fun u deeds waits => ?_) (fun u fresh => ?_)
      (fun u u' deeds h q turn => ?_) (fun u u' deeds h shift => h.trans (congrArg some ?_)) h
    · rw [View.tell, View.deed, Device.deed_of_waits waits, Option.toList_none, List.append_nil]
    · obtain ⟨capacity, new⟩ := fresh.scheduler
      simp [View.sessionOpen, fresh.acts, new, Scheduler.fresh, bracketed]
    · rw [View.tell, bracketed, List.foldlM_append]
      refine Eq.trans (congrArg (· >>= _) h) ?_
      exact q.2.deed q.1 turn
    · cases shift with
      | @drops act _ rest acts drops =>
        have idle : act.leaves = false ∧ act.begins = false := by cases act <;> first | exact ⟨rfl, rfl⟩ | cases drops
        refine View.sessionOpen_congr ?_ ?_ Iff.rfl
        · rw [acts, List.any_cons, idle.1, Bool.false_or]
        · rw [acts, List.any_cons, idle.2, Bool.false_or]
      | arrives self op => exact View.sessionOpen_congr rfl rfl Iff.rfl
  refine ⟨within, fun no m => ?_, deeds_of_traced t h, fun x self op below d' e r r' session top answer => ?_⟩
  · rw [(known y t.run v h).1.sessionOpen_of_round m] at no
    cases no
  · exact Run.refused r (stacked_of_run r') session top answer

/-- One slot, and a handler whose second invocation asks for the end of the session. -/
def twice : Setup := ⟨[⟨1, 0, [], []⟩], false, [], [[[], [.shutdown]]], 9, false⟩

/-- A session that is run to its end, at which an interrupt starts the task again, and a round that comes too late. -/
def twiceCalls : List (Nat × Op) :=
  [(0, .declare), (0, .init), (0, .configure (.slot 0) 0 10 true), (0, .start (.slot 0)),
    (0, .hook .deinit 0 [.shutdown, .start (.slot 0)]), (0, .run), (0, .tick)]

/-- A session with two sleeps and two invocations of a handler, and a round that is refused after it. -/
theorem sessions_bracketed_of_run : ∃ (x y : Moment) (v : View) (deeds : List Deed), y.view 0 = some v ∧
    bracketed deeds = some false ∧ v.sessionOpen = false ∧ Act.round ∉ v.acts ∧
    y.machine.world.deeds 0 = deeds.filter (·.shown v.device.board) ∧
    y.machine.world.deeds 0 = [.opens, .sleeps 10, .runs 0, .sleeps 10, .runs 0, .closes] ∧
    x.machine.stack = [⟨0, .perform none .tick⟩] ∧ y.machine.stack = [⟨0, .answered (.failed .notInitialized)⟩] ∧
    x.Next y ∧ y.machine.world = x.machine.world := by
  let at' := fun n => ((initial twice).steps n twiceCalls).1
  have top : (at' 112).machine.stack = [⟨0, .perform none .tick⟩] := by rfl
  have answer : (at' 113).machine.stack = [⟨0, .answered (.failed .notInitialized)⟩] := by rfl
  have first : Run (fun z => Confined Op.calm z.machine.stack) (initial twice) (at' 112) := run_steps (by decide +kernel)
  have next : (at' 112).Next (at' 113) := next_steps (n := 112) (by decide +kernel)
  have calm : Confined Op.calm (at' 113).machine.stack := by decide +kernel
  have shown : ((at' 113).view 0).any (fun v => !v.sessionOpen) = true := by decide +kernel
  obtain ⟨v, hv, shut⟩ := (Option.any_eq_true _ _).1 shown
  obtain ⟨deeds, t⟩ := (first.more next calm).traced (recording 0 View.tell) []
  obtain ⟨within, round, told, refused⟩ := sessions_bracketed t (fun z p => p) hv
  have shut : v.sessionOpen = false := by simpa using shut
  have call : Run (fun z => Confined Op.calm z.machine.stack ∧ z.Within []) (at' 112) (at' 113) :=
    .more (.here ⟨first.last, [], _, top⟩) next ⟨calm, [], _, answer⟩
  obtain ⟨once, world⟩ := refused _ none .tick [] 0 .notInitialized call first rfl top answer
  exact ⟨at' 112, at' 113, v, deeds, hv, within.trans (congrArg some shut), shut, round shut, told, by decide +kernel, top,
    answer, once, world⟩

end Moment

end TimedTasks
