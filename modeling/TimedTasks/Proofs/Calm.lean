import TimedTasks.Proofs.Tame

/-!
# Calm hooks

Whether interrupts begin a session or a round can be read off the operations that arm them. An operation arms calm
interrupts (`Op.armsCalm`) when the operations of its hooks are calm, and arm calm interrupts in their turn. When this
is so of all operations that handlers and clients call, it is so of everything that comes on the stack or waits on a
board (`Machine.Turn.armsCalm`), and all interrupts that ever come are calm (`Machine.ArmsCalm.confined`).
-/

namespace TimedTasks

variable {m m' : Machine} {d : Nat} {w : World} {δ : Device} {act : Act} {s : Stride}

/-! ## Operations -/

mutual

/-- The interrupts that the operation arms begin neither a session nor a round, nor do those that they arm. -/
def Op.armsCalm : Op → Bool
  | .hook _ _ body => Op.calmThroughout body
  | .on _ op => op.armsCalm
  | _ => true

/-- The operations of an interrupt that is calm itself, and arms calm interrupts. -/
def Op.calmThroughout : List Op → Bool
  | [] => true
  | op :: ops => op.calm && op.armsCalm && Op.calmThroughout ops

end

theorem Op.calmThroughout_iff {ops : List Op} : calmThroughout ops ↔ ops.all calm ∧ ops.all armsCalm := by
  induction ops with
  | nil => simp [calmThroughout]
  | cons op ops ih =>
    simp only [calmThroughout, Bool.and_eq_true, List.all_cons, ih]
    constructor
    · rintro ⟨⟨calm, arms⟩, calms, armss⟩
      exact ⟨⟨calm, calms⟩, arms, armss⟩
    · rintro ⟨⟨calm, calms⟩, arms, armss⟩
      exact ⟨⟨calm, arms⟩, calms, armss⟩

/-- All interrupts that the act arms, or lets come, are calm. -/
def Act.armsCalm : Act → Bool
  | .perform _ op => op.armsCalm
  | .block _ ops => ops.all Op.armsCalm
  | .interrupts _ bodies => bodies.all Op.calmThroughout
  | _ => true

/-- All interrupts that are armed on the board are calm. -/
def Board.ArmsCalm (b : Board) : Prop := ∀ i ∈ b.interrupts, Op.calmThroughout i.body

/-- All that handlers do arms calm interrupts only. -/
def World.ArmsCalm (w : World) : Prop := ∀ bodies ∈ w.programs, ∀ body ∈ bodies, body.all Op.armsCalm

/-! ## A step -/

theorem Board.ArmsCalm.called {b : Board} (h : b.ArmsCalm) (call : BoardCall) :
    (b.called call).1.ArmsCalm ∧ ∀ body ∈ (b.called call).2, Op.calmThroughout body := by
  unfold Board.called
  split
  · constructor
    · intro i mem
      obtain ⟨j, mj, rfl⟩ := List.mem_map.1 mem
      have body : (j.passed call).body = j.body := by unfold Interrupt.passed; split <;> rfl
      rw [body]
      exact h j (List.mem_of_mem_filter mj)
    · intro body mem
      obtain ⟨j, mj, rfl⟩ := List.mem_map.1 mem
      exact h j (List.mem_of_mem_filter mj)
  · exact ⟨h, by simp⟩

theorem World.ArmsCalm.invoke (h : w.ArmsCalm) (k : Nat) : (w.invoke k).1.all Op.armsCalm := by
  unfold World.invoke
  cases found : w.handlers[k]? with
  | none => rfl
  | some handler =>
    have program : handler.bodies ∈ w.programs :=
      Array.mem_map.2 ⟨handler, Array.mem_of_getElem? found, rfl⟩
    show ((handler.bodies[min handler.calls (handler.bodies.length - 1)]?).getD []).all Op.armsCalm
    cases hb : handler.bodies[min handler.calls (handler.bodies.length - 1)]? with
    | none => rfl
    | some body => exact h _ program body (List.mem_of_getElem? hb)

/-- What a step leaves arms calm interrupts, if all that it finds does. -/
theorem Leads.armsCalm (l : Leads w δ act s) (h : act.armsCalm) (board : δ.board.ArmsCalm) (world : w.ArmsCalm) :
    s.acts.all Act.armsCalm ∧ s.board.ArmsCalm := by
  cases l with
  | fetched => exact ⟨by simp [Act.armsCalm, world.invoke], board⟩
  | @hook _ call after body =>
    refine ⟨rfl, fun i mem => ?_⟩
    rcases List.mem_append.1 mem with old | new
    · exact board i old
    · cases List.mem_singleton.1 new
      exact h
  | blockNext =>
    simp only [Act.armsCalm, List.all_cons, Bool.and_eq_true] at h
    exact ⟨by simp [Act.armsCalm, h.1, h.2], board⟩
  | interruptsNext =>
    simp only [Act.armsCalm, List.all_cons, Bool.and_eq_true] at h
    exact ⟨by simp [Act.armsCalm, (Op.calmThroughout_iff.1 h.1).2, h.2], board⟩
  | _ => exact ⟨rfl, board⟩

theorem Stride.armsCalm (acts : s.acts.all Act.armsCalm) (board : s.board.ArmsCalm) :
    (∀ a ∈ s.frames, a.armsCalm) ∧ s.device.board.ArmsCalm := by
  have acts := List.all_eq_true.1 acts
  unfold frames device
  cases s.call with
  | none => exact ⟨acts, board⟩
  | some call =>
    obtain ⟨after, bodies⟩ := board.called call
    refine ⟨fun a mem => ?_, after⟩
    rcases List.mem_cons.1 mem with rfl | mem
    · exact List.all_eq_true.2 bodies
    · exact acts a mem

/-! ## Machines -/

namespace Machine

/-- All interrupts that are armed or will be armed, or that come just now, are calm. -/
structure ArmsCalm (m : Machine) : Prop where
  acts : ∀ f ∈ m.stack, f.act.armsCalm
  boards : ∀ (d : Nat) (δ : Device), m.world.devices[d]? = some δ → δ.board.ArmsCalm
  world : m.world.ArmsCalm

theorem ArmsCalm.confined (h : m.ArmsCalm) : Confined Op.calm m.stack := by
  intro f mem body mb
  have calm := h.acts f mem
  cases act : f.act with
  | interrupts call bodies =>
    rw [act] at calm mb
    exact (Op.calmThroughout_iff.1 (List.all_eq_true.1 calm body mb)).1
  | _ => rw [act] at mb; cases mb

/-- A stride puts calm acts, and a board with calm interrupts, in their places. -/
theorem Takes.armsCalm {rest : List Frame} (t : m.Takes m' d s rest) (h : m.ArmsCalm)
    (below : ∀ f ∈ rest, f ∈ m.stack) (found : m.world.devices[d]? = some δ)
    (acts : s.acts.all Act.armsCalm) (board : s.board.ArmsCalm) : m'.ArmsCalm := by
  obtain ⟨frames, device⟩ := Stride.armsCalm acts board
  refine ⟨fun f mem => ?_, fun e ε found' => ?_, ?_⟩
  · rw [t.stack] at mem
    rcases List.mem_append.1 mem with new | old
    · obtain ⟨a, ma, rfl⟩ := List.mem_map.1 new
      exact frames a ma
    · exact h.acts f (below f old)
  · by_cases same : d = e
    · subst same
      cases (t.device_same found).symm.trans found'
      exact device
    · rw [t.device same] at found'
      exact h.boards e ε found'
  · unfold World.ArmsCalm
    rw [t.programs]
    exact h.world

/-- As long as the operations that are called arm calm interrupts only, no other ones are armed. -/
theorem Turn.armsCalm (turn : m.Turn m') (h : m.ArmsCalm)
    (called : ∀ d op, m.stack = [] → m'.stack = [⟨d, .perform none op⟩] → op.armsCalm) : m'.ArmsCalm := by
  cases turn with
  | works d act rest δ s top found l takes =>
    have own := h.acts ⟨d, act⟩ (by rw [top]; exact List.mem_cons_self)
    obtain ⟨acts, board⟩ := l.armsCalm own (h.boards d δ found) h.world
    exact takes.armsCalm h (fun f mem => by rw [top]; exact List.mem_cons_of_mem _ mem) found acts board
  | delivers d e ms act rest δ s top found l takes =>
    have brought : s.acts.all Act.armsCalm ∧ s.board.ArmsCalm := by
      cases l <;> exact ⟨rfl, h.boards d δ found⟩
    exact takes.armsCalm h (fun f mem => by rw [top]; exact List.mem_cons_of_mem _ (List.mem_cons_of_mem _ mem)) found
      brought.1 brought.2
  | redirects d e self op rest top world top' =>
    refine ⟨fun f mem => ?_, world ▸ h.boards, world ▸ h.world⟩
    rw [top'] at mem
    rcases List.mem_cons.1 mem with rfl | old
    · have own := h.acts ⟨d, .perform self (.on e op)⟩ (by rw [top]; exact List.mem_cons_self)
      simpa [Act.armsCalm, Op.armsCalm] using own
    · exact h.acts f (by rw [top]; exact List.mem_cons_of_mem _ old)
  | answers d e a act rest top _ alike top' =>
    refine ⟨fun f mem => ?_, alike.devices ▸ h.boards, ?_⟩
    · rw [top'] at mem
      exact h.acts f (by rw [top]; exact List.mem_cons_of_mem _ (List.mem_cons_of_mem _ mem))
    · unfold World.ArmsCalm
      rw [alike.programs]
      exact h.world
  | finishes d a top world top' =>
    refine ⟨fun f mem => ?_, world ▸ h.boards, world ▸ h.world⟩
    rw [top'] at mem
    cases mem
  | calls d op top world top' =>
    refine ⟨fun f mem => ?_, world ▸ h.boards, world ▸ h.world⟩
    rw [top', List.mem_singleton] at mem
    exact mem ▸ called d op top top'

end Machine

end TimedTasks
