import TimedTasks.Proofs.Calm
import TimedTasks.Proofs.Engaged

/-!
# Runs whose handlers begin no session and no round

An operation of a handler or an interrupt is proper when it begins neither a session nor a round, names only what is
there, and arms interrupts whose operations are proper in their turn (`Op.proper`). A client may also call for sessions
and rounds (`Op.fits`). When all that is called, armed and written in handlers is of this kind, so is everything that
comes on the stack (`Machine.Turn.proper`).

Above the operations of a handler or an interrupt there is then only what begins nothing (`Light`).
-/

namespace TimedTasks

/-! ## Operations -/

/-- There is a task that is meant; `own` says whether there is one whose handler runs the operation. -/
def TaskRef.proper (own : Bool) : TaskRef → Bool
  | .self => own
  | .slot _ => true

mutual

/-- The operation begins neither a session nor a round, names only what there is in a world that is set up like this, and
arms only interrupts that do the same. -/
def Op.proper (s : Setup) (own : Bool) : Op → Bool
  | .init | .run | .tick => false
  | .configure ref .. | .start ref | .stop ref | .update ref _ | .attach ref _ | .write ref _ | .query ref | .task ref =>
    ref.proper own
  | .alloc k | .pool k => k < s.pools.length
  | .hook _ _ body => Op.allProper s false body
  | .on e op => e < s.devices.length && op.proper s own
  | _ => true

/-- All operations of a handler or an interrupt are proper. -/
def Op.allProper (s : Setup) (own : Bool) : List Op → Bool
  | [] => true
  | op :: ops => op.proper s own && Op.allProper s own ops

end

/-- A client may call this operation: it is proper, or begins a session or a round. -/
def Op.fits (s : Setup) : Op → Bool
  | .init | .run | .tick => true
  | .on e op => e < s.devices.length && op.fits s
  | op => op.proper s false

namespace Op

variable {s : Setup} {own : Bool} {op : Op} {ops : List Op}

/-- Whoever begins neither a session nor a round leaves the loop of a run alone. -/
theorem calm_of_proper (h : op.proper s own) : op.calm := by
  induction op using Op.calm.induct with
  | case4 d op ih =>
    rw [proper, Bool.and_eq_true] at h
    exact ih h.2
  | case5 op _ _ _ other => cases op <;> first | rfl | cases h | exact (other _ _ rfl).elim
  | _ => cases h

/-- The operations of a list are proper one by one. -/
theorem allProper_iff : allProper s own ops ↔ ∀ op ∈ ops, op.proper s own := by
  induction ops with
  | nil => simp [allProper]
  | cons op ops ih => simp [allProper, ih]

theorem all_calm_of_proper (h : allProper s own ops) : ops.all calm :=
  List.all_eq_true.2 fun op m => calm_of_proper (allProper_iff.1 h op m)

/-- The interrupts that a proper operation arms begin neither sessions nor rounds. -/
theorem armsCalm_of_proper (h : op.proper s own) : op.armsCalm := by
  induction op using Op.armsCalm.induct (motive_2 := fun ops => ∀ own, allProper s own ops → calmThroughout ops)
    generalizing own with
  | case1 call after body ih => exact ih false h
  | case2 e op ih =>
    rw [proper, Bool.and_eq_true] at h
    exact ih h.2
  | case3 op hook on => cases op <;> first | rfl | exact (hook _ _ _ rfl).elim | exact (on _ _ rfl).elim
  | case4 => rfl
  | case5 op ops ih ihs =>
    rename_i own h
    rw [allProper, Bool.and_eq_true] at h
    rw [calmThroughout, Bool.and_eq_true, Bool.and_eq_true]
    exact ⟨⟨calm_of_proper h.1, ih h.1⟩, ihs own h.2⟩

/-- This goes for the interrupts that they arm in their turn. -/
theorem calmThroughout_of_proper (h : allProper s own ops) : calmThroughout ops :=
  calmThroughout_iff.2 ⟨all_calm_of_proper h, List.all_eq_true.2 fun op m => armsCalm_of_proper (allProper_iff.1 h op m)⟩

/-- What a client calls for may begin sessions; what it arms may not. -/
theorem armsCalm_of_fits (h : op.fits s) : op.armsCalm := by
  induction op using Op.fits.induct with
  | case4 e op ih =>
    rw [fits, Bool.and_eq_true] at h
    exact ih h.2
  | case5 op init run tick on =>
    cases op with
    | init => exact (init rfl).elim
    | run => exact (run rfl).elim
    | tick => exact (tick rfl).elim
    | on e op => exact (on e op rfl).elim
    | _ => exact armsCalm_of_proper h
  | _ => rfl

end Op

/-! ## Machines -/

/-- All that the act calls, or lets come, is proper, or is what a client may call, and the pool that it is about is
there. -/
def Act.proper (s : Setup) : Act → Bool
  | .perform self op => op.proper s self.isSome || op.fits s
  | .locked (.enroll k) => k < s.pools.length
  | .block self ops => Op.allProper s self.isSome ops
  | .interrupts _ bodies => bodies.all (Op.allProper s false)
  | _ => true

/-- All interrupts that are armed on the board are proper. -/
def Board.Proper (s : Setup) (b : Board) : Prop := ∀ i ∈ b.interrupts, Op.allProper s false i.body

/-- All that handlers do is proper. -/
def World.Proper (s : Setup) (w : World) : Prop := ∀ bodies ∈ w.programs, ∀ body ∈ bodies, Op.allProper s true body

/-- All that handlers, interrupts and clients do is proper, and happens on devices that are there. -/
structure Machine.Proper (s : Setup) (m : Machine) : Prop where
  acts : ∀ f ∈ m.stack, f.act.proper s
  devices : ∀ f ∈ m.stack, f.device < s.devices.length
  boards : ∀ (d : Nat) (δ : Device), m.world.devices[d]? = some δ → δ.board.Proper s
  world : m.world.Proper s

variable {s : Setup}

/-- A call on the board fires interrupts of proper operations, and leaves such. -/
theorem Board.Proper.called {b : Board} (h : b.Proper s) (call : BoardCall) :
    (b.called call).1.Proper s ∧ ∀ body ∈ (b.called call).2, Op.allProper s false body := by
  unfold Board.called
  split
  · constructor
    · intro i m
      obtain ⟨j, mj, rfl⟩ := List.mem_map.1 m
      have body : (j.passed call).body = j.body := by unfold Interrupt.passed; split <;> rfl
      rw [body]
      exact h j (List.mem_of_mem_filter mj)
    · intro body m
      obtain ⟨j, mj, rfl⟩ := List.mem_map.1 m
      exact h j (List.mem_of_mem_filter mj)
  · exact ⟨h, by simp⟩

/-- The next body of a handler is proper. -/
theorem World.Proper.invoke {w : World} (h : w.Proper s) (k : Nat) : Op.allProper s true (w.invoke k).1 := by
  unfold World.invoke
  cases found : w.handlers[k]? with
  | none => rfl
  | some handler =>
    have program : handler.bodies ∈ w.programs := Array.mem_map.2 ⟨handler, Array.mem_of_getElem? found, rfl⟩
    show Op.allProper s true ((handler.bodies[min handler.calls (handler.bodies.length - 1)]?).getD [])
    cases hb : handler.bodies[min handler.calls (handler.bodies.length - 1)]? with
    | none => rfl
    | some body => exact h _ program body (List.mem_of_getElem? hb)

section

variable {w : World} {δ : Device} {act : Act} {t : Stride}

/-- What a step leaves is proper, if all that it finds is. -/
theorem Leads.proper (l : Leads w δ act t) (h : act.proper s) (board : δ.board.Proper s) (world : w.Proper s) :
    (∀ a ∈ t.acts, a.proper s) ∧ t.board.Proper s := by
  cases l with
  | ask ask =>
    cases ask with
    | alloc => exact ⟨by simpa [Act.proper, Op.proper, Op.fits] using h, board⟩
    | _ => exact ⟨by simp [Act.proper], board⟩
  | fetched => exact ⟨by simp [Act.proper, world.invoke], board⟩
  | @hook self call after body =>
    refine ⟨by simp [Act.proper], fun i m => ?_⟩
    rcases List.mem_append.1 m with old | new
    · exact board i old
    · cases List.mem_singleton.1 new
      simpa [Act.proper, Op.proper, Op.fits] using h
  | @blockNext self op ops =>
    simp only [Act.proper, Op.allProper, Bool.and_eq_true] at h
    exact ⟨by simp [Act.proper, h.1, h.2], board⟩
  | @interruptsNext call body rest =>
    simp only [Act.proper, List.all_cons, Bool.and_eq_true] at h
    refine ⟨?_, board⟩
    simp only [List.forall_mem_cons, Act.proper]
    exact ⟨h.1, h.2, by simp⟩
  | _ => exact ⟨by simp [Act.proper, Op.allProper, Op.proper], board⟩

/-- A stride with proper acts and a proper board leaves proper frames. -/
theorem Stride.proper (acts : ∀ a ∈ t.acts, a.proper s) (board : t.board.Proper s) :
    (∀ a ∈ t.frames, a.proper s) ∧ t.device.board.Proper s := by
  unfold frames device
  cases t.call with
  | none => exact ⟨acts, board⟩
  | some call =>
    obtain ⟨after, bodies⟩ := board.called call
    refine ⟨fun a m => ?_, after⟩
    rcases List.mem_cons.1 m with rfl | m
    · exact List.all_eq_true.2 bodies
    · exact acts a m

end

namespace Machine

variable {m m' : Machine} {d : Nat} {t : Stride} {rest : List Frame} {δ : Device}

/-- A step whose stride is proper leads to a proper machine. -/
theorem Takes.proper (takes : m.Takes m' d t rest) (h : m.Proper s) (here : d < s.devices.length)
    (below : ∀ f ∈ rest, f ∈ m.stack) (found : m.world.devices[d]? = some δ) (acts : ∀ a ∈ t.acts, a.proper s)
    (board : t.board.Proper s) : m'.Proper s := by
  obtain ⟨frames, device⟩ := Stride.proper acts board
  refine ⟨fun f mem => ?_, fun f mem => ?_, fun e ε found' => ?_, ?_⟩
  · rw [takes.stack] at mem
    rcases List.mem_append.1 mem with new | old
    · obtain ⟨a, ma, rfl⟩ := List.mem_map.1 new
      exact frames a ma
    · exact h.acts f (below f old)
  · rw [takes.stack] at mem
    rcases List.mem_append.1 mem with new | old
    · obtain ⟨a, ma, rfl⟩ := List.mem_map.1 new
      exact here
    · exact h.devices f (below f old)
  · by_cases same : d = e
    · subst same
      cases (takes.device_same found).symm.trans found'
      exact device
    · rw [takes.device same] at found'
      exact h.boards e ε found'
  · rw [World.Proper, takes.programs]
    exact h.world

/-- As long as clients call what they may call, everything stays proper. -/
theorem Turn.proper (turn : m.Turn m') (h : m.Proper s)
    (called : ∀ d op, m.stack = [] → m'.stack = [⟨d, .perform none op⟩] → op.fits s ∧ d < s.devices.length) :
    m'.Proper s := by
  cases turn with
  | works d act rest δ t top found l takes =>
    have mem : (⟨d, act⟩ : Frame) ∈ m.stack := by rw [top]; exact List.mem_cons_self
    obtain ⟨acts, board⟩ := l.proper (h.acts _ mem) (h.boards d δ found) h.world
    exact takes.proper h (h.devices _ mem) (fun f mf => by rw [top]; exact List.mem_cons_of_mem _ mf) found acts board
  | delivers d e ms act rest δ t top found l takes =>
    have mem : (⟨d, act⟩ : Frame) ∈ m.stack := by rw [top]; exact List.mem_cons_of_mem _ List.mem_cons_self
    have brought : (∀ a ∈ t.acts, a.proper s) ∧ t.board.Proper s := by
      cases l <;> exact ⟨by simp [Act.proper], h.boards d δ found⟩
    exact takes.proper h (h.devices _ mem)
      (fun f mf => by rw [top]; exact List.mem_cons_of_mem _ (List.mem_cons_of_mem _ mf)) found brought.1 brought.2
  | redirects d e self op rest top world top' =>
    have own := h.acts ⟨d, .perform self (.on e op)⟩ (by rw [top]; exact List.mem_cons_self)
    simp only [Act.proper, Op.proper, Op.fits, Bool.or_eq_true, Bool.and_eq_true, decide_eq_true_eq] at own
    have below : ∀ f ∈ rest, f ∈ m.stack := fun f mf => by rw [top]; exact List.mem_cons_of_mem _ mf
    refine ⟨fun f mem => ?_, fun f mem => ?_, world ▸ h.boards, world ▸ h.world⟩
    · rw [top'] at mem
      rcases List.mem_cons.1 mem with rfl | old
      · simp only [Act.proper, Bool.or_eq_true]
        exact own.imp And.right And.right
      · exact h.acts f (below f old)
    · rw [top'] at mem
      rcases List.mem_cons.1 mem with rfl | old
      · exact own.elim And.left And.left
      · exact h.devices f (below f old)
  | answers d e a act rest top _ alike top' =>
    have below : ∀ f ∈ rest, f ∈ m.stack := fun f mf => by
      rw [top]; exact List.mem_cons_of_mem _ (List.mem_cons_of_mem _ mf)
    refine ⟨fun f mem => ?_, fun f mem => ?_, alike.devices ▸ h.boards, ?_⟩
    · exact h.acts f (below f (top' ▸ mem))
    · exact h.devices f (below f (top' ▸ mem))
    · rw [World.Proper, alike.programs]
      exact h.world
  | finishes d a top world top' =>
    refine ⟨fun f mem => ?_, fun f mem => ?_, world ▸ h.boards, world ▸ h.world⟩
    · rw [top'] at mem; cases mem
    · rw [top'] at mem; cases mem
  | calls d op top world top' =>
    obtain ⟨fits, here⟩ := called d op top top'
    refine ⟨fun f mem => ?_, fun f mem => ?_, world ▸ h.boards, world ▸ h.world⟩
    · rw [top', List.mem_singleton] at mem
      subst mem
      simp [Act.proper, fits]
    · rw [top', List.mem_singleton] at mem
      subst mem
      exact here

theorem Proper.confined (h : m.Proper s) : Confined Op.calm m.stack := by
  intro f mem body mb
  have proper := h.acts f mem
  cases act : f.act with
  | interrupts call bodies =>
    rw [act] at proper mb
    exact Op.all_calm_of_proper (List.all_eq_true.1 proper body mb)
  | _ => rw [act] at mb; cases mb

/-- What is proper arms calm interrupts only. -/
theorem Proper.armsCalm (h : m.Proper s) : m.ArmsCalm := by
  refine ⟨fun f mem => ?_, fun d δ found i mi => Op.calmThroughout_of_proper (h.boards d δ found i mi), fun bodies mb body m => ?_⟩
  · have proper := h.acts f mem
    cases act : f.act with
    | perform self op =>
      rw [act, Act.proper, Bool.or_eq_true] at proper
      exact proper.elim Op.armsCalm_of_proper Op.armsCalm_of_fits
    | block self ops =>
      rw [act] at proper
      exact List.all_eq_true.2 fun op mo => Op.armsCalm_of_proper (Op.allProper_iff.1 proper op mo)
    | interrupts call bodies =>
      rw [act] at proper
      exact List.all_eq_true.2 fun body mb => Op.calmThroughout_of_proper (List.all_eq_true.1 proper body mb)
    | _ => rfl
  · exact List.all_eq_true.2 fun op mo => Op.armsCalm_of_proper (Op.allProper_iff.1 (h.world bodies mb body m) op mo)

end Machine

/-! ## What lies above operations -/

/-- The act is operations of a handler or an interrupt. -/
def Act.isBlock : Act → Bool
  | block .. => true
  | _ => false

/-- Above the operations of handlers and interrupts there is only what begins nothing. -/
def Light (stack : List Frame) : Prop := stack.Pairwise fun f g => g.act.isBlock → f.act.minor

/-- What a step puts on the stack above a block begins nothing. -/
theorem Leads.light {w : World} {δ : Device} {act : Act} {t : Stride} (l : Leads w δ act t) (proper : act.proper s) :
    t.frames.Pairwise fun a b => b.isBlock → a.minor := by
  cases l with
  | @blockNext self op ops =>
    simp only [Act.proper, Op.allProper, Bool.and_eq_true] at proper
    have calm : op.calm := Op.calm_of_proper proper.1
    simp [Stride.frames, Act.isBlock, Act.minor, calm]
  | _ => simp [Stride.frames, Act.isBlock]

/-- So a step keeps the stack light. -/
theorem Machine.Turn.light {m m' : Machine} (turn : m.Turn m') (h : Light m.stack) (proper : m.Proper s) :
    Light m'.stack := by
  cases turn with
  | works d act rest δ t top _ l takes =>
    rw [top] at h
    have mem : (⟨d, act⟩ : Frame) ∈ m.stack := by rw [top]; exact List.mem_cons_self
    rw [takes.stack]
    refine List.pairwise_append.2 ⟨List.pairwise_map.2 (l.light (proper.acts _ mem)), h.tail, fun f mf g mg block => ?_⟩
    obtain ⟨a, ma, rfl⟩ := List.mem_map.1 mf
    have minor := (List.pairwise_cons.1 h).1 g mg block
    exact tame_calm.frames l minor (proper.confined _ mem) a ma
  | delivers d e ms act rest δ t top _ l takes =>
    rw [top] at h
    -- The deadline of a round is above no operations.
    have none : ∀ g ∈ rest, g.act.isBlock = false := fun g mg => Bool.eq_false_iff.2 fun block => by
      have minor := (List.pairwise_cons.1 h).1 g (List.mem_cons_of_mem _ mg) block
      cases minor
    rw [takes.stack]
    refine List.pairwise_append.2 ⟨?_, h.tail.tail, fun f _ g mg block => ?_⟩
    · cases l <;> simp [Stride.frames, Act.isBlock]
    · rw [none g mg] at block
      cases block
  | redirects d e self op rest top _ top' =>
    rw [top] at h
    rw [top']
    exact List.Pairwise.cons (fun g mg block => (List.pairwise_cons.1 h).1 g mg block) h.tail
  | answers d e a act rest top _ _ top' => rw [top] at h; rw [top']; exact h.tail.tail
  | finishes d a top _ top' => rw [top']; exact List.Pairwise.nil
  | calls d op top _ top' => rw [top']; exact List.pairwise_singleton _ _

namespace Moment

variable {y : Moment}

/-- And a run, from the first world on. -/
theorem light (r : Run (fun z => z.machine.Proper s) (initial s) y) : Light y.machine.stack :=
  r.invariant (I := fun y => Light y.machine.stack) List.Pairwise.nil fun _ _ h p next _ => next.machine.turn.light h p

end Moment

/-! ## Runs of proper handlers -/

/-- All that the handlers of the setup do is proper. -/
def Setup.Proper (s : Setup) : Prop := ∀ bodies ∈ s.handlers, ∀ body ∈ bodies, Op.allProper s true body

instance (s : Setup) : Decidable s.Proper :=
  inferInstanceAs (Decidable (∀ bodies ∈ s.handlers, ∀ body ∈ bodies, Op.allProper s true body))

/-- If the frame is a call of a client, he may call this. -/
def Frame.fits (s : Setup) : Frame → Bool
  | ⟨d, .perform none op⟩ => op.fits s && d < s.devices.length
  | _ => true

namespace Moment

/-- If a client calls something, he may call this. -/
def Fits (s : Setup) (z : Moment) : Prop := z.machine.stack.length = 1 → ∀ f ∈ z.machine.stack, f.fits s

instance (s : Setup) (z : Moment) : Decidable (z.Fits s) :=
  inferInstanceAs (Decidable (z.machine.stack.length = 1 → ∀ f ∈ z.machine.stack, f.fits s))

theorem proper_initial (h : s.Proper) : (initial s).machine.Proper s := by
  refine ⟨fun f m => ?_, fun f m => ?_, fun d δ found i m => ?_, fun bodies mb body m => ?_⟩
  · cases m
  · cases m
  · simp only [initial, Setup.world, List.getElem?_toArray, List.getElem?_map, Option.map_eq_some_iff] at found
    obtain ⟨dev, -, rfl⟩ := found
    cases m
  · simp only [initial, World.programs, Setup.world, List.map_toArray, List.map_map, List.mem_toArray, List.mem_map,
      Function.comp_apply] at mb
    obtain ⟨bodies, mb, rfl⟩ := mb
    exact h bodies mb body m

/-- When handlers do what is proper, and clients call what they may call, all that happens is proper. -/
theorem proper_of_fits {y : Moment} (h : s.Proper) (r : Run (fun z => z.Fits s) (initial s) y) :
    Run (fun z => z.machine.Proper s) (initial s) y := by
  induction r with
  | here => exact .here (proper_initial h)
  | more _ next fits ih =>
    refine ih.more next (next.machine.turn.proper ih.last fun d op _ call => ?_)
    have own := fits (by rw [call]; rfl) _ (call ▸ List.mem_cons_self)
    simpa [Frame.fits] using own

end Moment

end TimedTasks
