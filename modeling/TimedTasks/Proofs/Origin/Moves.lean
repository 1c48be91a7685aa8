import TimedTasks.Proofs.Origin.Pieces

/-!
# Steps on other clocks

A frame does the same on clocks that are ahead (`World.step_shift`), as long as the tally is right about the slots that
its step compares by their intervals (`Tally.Ready`). What a step leaves is the shifted move, with the tally after the
step: a stamp, and the two ends of a session, change which slots were started.
-/

namespace TimedTasks

variable {k : UInt32} {T T' : Tally} {d i n : Nat} {w : World} {δ : Device} {σ : Scheduler}

/-! ## Boards -/

namespace Board

variable {b : Board}

@[simp] theorem serves_shift {call : BoardCall} : (b.shift k).serves call = b.serves call := rfl

/-- A call on the shifted board fires the same interrupts, and lets the others come closer by as much. -/
theorem called_shift {call : BoardCall} : (b.shift k).called call =
    ((b.called call).1.shift k, (b.called call).2.map fun body => body.map (Op.shift k)) := by
  -- Which interrupts fire, and how close the others come, does not depend on what they are to do.
  have left : ((b.shift k).interrupts.filter fun i => !i.due call).map (·.passed call) =
      ((b.interrupts.filter fun i => !i.due call).map (·.passed call)).map (Interrupt.shift k) := by
    simp only [shift, List.filter_map, List.map_map]
    refine List.map_congr_left fun i _ => ?_
    by_cases same : i.call = call <;> simp [Interrupt.passed, Interrupt.shift, same]
  have fired : ((b.shift k).interrupts.filter fun i => i.due call).map (·.body) =
      ((b.interrupts.filter fun i => i.due call).map (·.body)).map (List.map (Op.shift k)) := by
    simp only [shift, List.filter_map, List.map_map]
    rfl
  unfold called
  rw [serves_shift, left, fired]
  split <;> rfl

/-- The reading is the one here and `k` more, and moves the clock on by as much. -/
theorem readClock_shift : (b.shift k).readClock = (b.clock + k, b.readClock.2.shift k) := by
  simp only [readClock, shift, Prod.mk.injEq, true_and]
  congr 1
  grind

/-- A sleep takes as long on every clock. -/
theorem slept_shift {ms : UInt32} : (b.shift k).slept ms = (b.slept ms).shift k := by
  simp only [slept, shift]
  congr 1
  grind

/-- A clock is moved on by the same amount wherever it stands. -/
theorem advance_shift {ms : UInt32} : (b.shift k).advance ms = (b.advance ms).shift k := by
  simp only [advance, shift]
  congr 1
  grind

/-- An interrupt with shifted operations is armed behind the others. -/
theorem arm_shift {int : Interrupt} : (b.shift k).arm (int.shift k) = (b.arm int).shift k := by
  simp [arm, shift]

end Board

/-! ## Moves -/

/-- The other tally knows the same of all devices but one, and of the record of events. -/
structure Tally.Beside (T T' : Tally) (d : Nat) : Prop where
  started : ∀ e, e ≠ d → T'.started e = T.started e
  told : T'.told = T.told

/-- A tally differs on no device from itself. -/
theorem Tally.Beside.refl (T : Tally) (d : Nat) : T.Beside T d := ⟨fun _ _ => rfl, rfl⟩

/-- The acts that lie above a stack of height `n`. -/
def shiftActs (k : UInt32) (asked : Nat → Bool) (n : Nat) : List Act → List Act
  | [] => []
  | act :: acts => act.shift k (asked (acts.length + n)) :: shiftActs k asked n acts

/-- The frames that lie above a stack of height `n`. -/
def shiftFrames (k : UInt32) (asked : Nat → Bool) (n : Nat) : List Frame → List Frame
  | [] => []
  | f :: fs => ⟨f.device, f.act.shift k (asked (fs.length + n))⟩ :: shiftFrames k asked n fs

/-- What a step puts on a stack is shifted by the heights at which it lies. -/
theorem shiftStack_append {asked : Nat → Bool} {fs rest : List Frame} :
    shiftStack k asked (fs ++ rest) = shiftFrames k asked rest.length fs ++ shiftStack k asked rest := by
  induction fs with
  | nil => rfl
  | cons f fs ih => rw [List.cons_append, shiftStack, shiftFrames, List.length_append, ih, List.cons_append]

/-- Frames of one device are its acts, shifted. -/
theorem shiftFrames_map {asked : Nat → Bool} {acts : List Act} :
    shiftFrames k asked n (acts.map (⟨d, ·⟩)) = (shiftActs k asked n acts).map (⟨d, ·⟩) := by
  induction acts with
  | nil => rfl
  | cons act acts ih => rw [List.map_cons, shiftFrames, shiftActs, List.length_map, ih, List.map_cons]

/-- The move on clocks that are `k` ahead, from a stack that is of height `n` without the frame that stepped. -/
def Move.shift (k : UInt32) (T : Tally) (n : Nat) (m : Move) : Move :=
  ⟨m.world.shift k T, shiftFrames k T.asked n m.frames⟩

namespace World

/-- Device `d` of the shifted world is the shifted device `d`. -/
theorem getElem?_devices_shift : (w.shift k T).devices[d]? = w.devices[d]?.map (·.shift k (T.offset k d)) := by
  simp [shift]

/-- It is found, or missing, where the one here is. -/
theorem device_shift : (w.shift k T).device d = (·.shift k (T.offset k d)) <$> w.device d := by
  unfold device
  rw [getElem?_devices_shift]
  cases w.devices[d]? <;> rfl

/-- A device is put in place; its slots may have come to other clocks with it. -/
theorem put_shift (h : T.Beside T' d) :
    (w.put d δ).shift k T' = (w.shift k T).put d (δ.shift k (T'.offset k d)) := by
  unfold put shift
  congr 1
  · apply Array.ext_getElem?
    intro e
    rw [Array.getElem?_setIfInBounds, Array.getElem?_mapIdx, Array.getElem?_mapIdx, Array.getElem?_setIfInBounds,
      Array.size_mapIdx]
    by_cases same : d = e
    · subst same
      by_cases bound : d < w.devices.size <;> simp [bound]
    · have offset : T'.offset k e = T.offset k e := by unfold Tally.offset; rw [h.started e (Ne.symm same)]
      simp only [same, if_false, offset]
  · rw [h.told]

/-- An event comes to the record, with the word on what it is about. -/
theorem record_shift {e : Event} {u : Bool} :
    (w.emit e).shift k { T with told := Function.update T.told w.trace.size u } = (w.shift k T).emit (e.shift k u) := by
  unfold emit shift
  congr 1
  rw [Array.mapIdx_push]
  dsimp only
  rw [Function.update_self]
  congr 1
  apply Array.ext_getElem?
  intro j
  rw [Array.getElem?_mapIdx, Array.getElem?_mapIdx]
  by_cases bound : j < w.trace.size
  · rw [Function.update_of_ne (Nat.ne_of_lt bound)]
  · simp [bound]

/-- An event is recorded as the tally says of its place in the record. -/
theorem emit_shift {e : Event} : (w.emit e).shift k T = (w.shift k T).emit (e.shift k (T.told w.trace.size)) := by
  rw [← record_shift, Function.update_eq_self]

theorem log_shift {message : Log} : (w.log message).shift k T = (w.shift k T).log message := emit_shift

/-- The next body of a handler is the shifted one, and is used up as the one here. -/
theorem invoke_shift {j : Nat} :
    (w.shift k T).invoke j = ((w.invoke j).1.map (Op.shift k), (w.invoke j).2.shift k T) := by
  unfold invoke
  rw [show (w.shift k T).handlers[j]? = w.handlers[j]?.map (Handler.shift k) by simp [shift]]
  cases w.handlers[j]? with
  | none => rfl
  | some h =>
    simp only [Option.map_some, Handler.invoke, Handler.shift, Prod.mk.injEq, List.length_map, List.getElem?_map]
    constructor
    · cases h.bodies[min h.calls (h.bodies.length - 1)]? <;> rfl
    · unfold shift
      congr 1
      simp [Array.map_setIfInBounds, Handler.shift]

/-- A step that leaves the shifted device leaves the shifted move, if the tally changed on this device only. -/
theorem leaving_shift (h : T.Beside T' d) {acts : List Act} : (w.leaving d δ acts).shift k T' n =
    (w.shift k T).leaving d (δ.shift k (T'.offset k d)) (shiftActs k T'.asked n acts) := by
  rw [leaving, leaving, Move.shift, put_shift h, shiftFrames_map]

/-- The same of a step that ends with an answer. -/
theorem answering_shift (h : T.Beside T' d) {a : Answer} : (w.answering d δ a).shift k T' n =
    (w.shift k T).answering d (δ.shift k (T'.offset k d)) (a.shift k (T'.asked n)) := by
  rw [answering, answering, leaving_shift h, shiftActs, shiftActs, List.length_nil, Nat.zero_add]
  rfl

/-- And of one that ends in a call on the board, with the shifted interrupts on top. -/
theorem calling_shift (h : T.Beside T' d) {call : BoardCall} {acts : List Act} :
    (w.calling d δ call acts).shift k T' n =
      (w.shift k T).calling d (δ.shift k (T'.offset k d)) call (shiftActs k T'.asked n acts) := by
  unfold calling
  rw [show (δ.shift k (T'.offset k d)).board = δ.board.shift k from rfl, Board.called_shift]
  exact leaving_shift h

end World

end TimedTasks
