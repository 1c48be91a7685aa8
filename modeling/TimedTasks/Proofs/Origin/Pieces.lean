import TimedTasks.Proofs.Cache
import TimedTasks.Proofs.Chain
import TimedTasks.Proofs.Origin.Shift

/-!
# Pieces of operations on other clocks

Each piece of an operation does the same to a scheduler on clocks that are ahead as it does to the scheduler itself. The
pieces that read no clock do so for any offsets of the slots. Those that compare intervals at a reading of the clock
need to know that the slots that they compare were started, which armed slots always were (`Dated`).
-/

namespace TimedTasks

open Except (map_ok)

variable {φ ψ : Nat → UInt32} {k now : UInt32} {i : Nat}

/-! ## Computations -/

section Except

variable {ε α β : Type} {a : α} {e : ε}

@[simp] theorem ok_bind {f : α → Except ε β} : (.ok a >>= f) = f a := rfl
@[simp] theorem error_bind {f : α → Except ε β} : (.error e >>= f) = .error e := rfl

end Except

/-! ## Slots -/

namespace Arena

variable {a : Arena}

@[simp] theorem size_shift : (a.shift φ).size = a.size := Array.size_mapIdx

/-- Each slot is on the clock of its own offset. -/
@[simp] theorem getElem?_shift : (a.shift φ)[i]? = a[i]?.map (·.shift (φ i)) := by
  simp [shift]

/-- A slot is found where the one here is found, and is a fault where that one is. -/
theorem slot_shift : (a.shift φ).slot i = (·.shift (φ i)) <$> a.slot i := by
  simp only [slot, getElem?_shift]
  cases a[i]? <;> rfl

/-- A change of one slot, which may leave the slot on another clock. -/
theorem alter_shift {f g : Task → Task} (slot : ∀ t, f (t.shift (φ i)) = (g t).shift (ψ i))
    (other : ∀ j, j ≠ i → ψ j = φ j) : (a.shift φ).alter i f = (·.shift ψ) <$> a.alter i g := by
  unfold alter
  by_cases bound : i < a.size
  · have bound' : i < (a.shift φ).size := by simpa using bound
    rw [dif_pos bound, dif_pos bound']
    show Except.ok _ = Except.ok _
    congr 1
    apply Array.ext_getElem?
    intro j
    rw [getElem?_shift, Array.getElem?_set, Array.getElem?_set, getElem?_shift]
    by_cases same : i = j
    · subst same
      simp [shift, slot]
    · simp [same, other j (Ne.symm same)]
  · have bound' : ¬i < (a.shift φ).size := by simpa using bound
    rw [dif_neg bound, dif_neg bound']
    rfl

/-- A change of one slot that does not look at its interval. -/
theorem alter_shift_same {f : Task → Task} (slot : ∀ t c, f (t.shift c) = (f t).shift c) :
    (a.shift φ).alter i f = (·.shift φ) <$> a.alter i f :=
  alter_shift (fun t => slot t _) fun _ _ => rfl

/-- A change of some slots that is about no clock value is the same change on every clock. -/
theorem alterAll_shift {f : Task → Task} {l : List Nat} (slot : ∀ t c, f (t.shift c) = (f t).shift c) :
    (a.shift φ).alterAll f l = (·.shift φ) <$> a.alterAll f l := by
  induction l generalizing a with
  | nil => rfl
  | cons i l ih =>
    rw [alterAll, alterAll, alter_shift_same slot]
    exact bind_of_map fun b _ => ih

/-- Slots that are reset bear no reading of the clock any more. -/
theorem unconfigureAll_shift {l : List Nat} (reset : ∀ j, ψ j = if j ∈ l then 0 else φ j) :
    (a.shift φ).alterAll Task.unconfigure l = (·.shift ψ) <$> a.alterAll Task.unconfigure l := by
  induction l generalizing a φ with
  | nil =>
    have same : ψ = φ := by
      funext j
      rw [reset j, if_neg (by simp)]
    rw [same]
    rfl
  | cons i l ih =>
    rw [alterAll, alterAll, alter_shift (ψ := Function.update φ i 0) (g := Task.unconfigure)]
    · refine bind_of_map fun b _ => ?_
      refine ih fun j => ?_
      rw [reset j]
      by_cases same : j = i
      · subst same
        simp
      · simp [same]
    · intro t
      rw [Function.update_self]
      exact Task.unconfigure_shift
    · intro j other
      exact Function.update_of_ne other _ _

end Arena

/-! ## The queue -/

namespace Queue

variable {q : Queue} {a : Arena}

/-- Links are the same on every clock. -/
theorem walk_shift {bound : Nat} {cursor : Option Nat} : walk (a.shift φ) bound cursor = walk a bound cursor := by
  induction bound generalizing cursor with
  | zero => cases cursor <;> rfl
  | succ bound ih =>
    cases cursor with
    | none => rfl
    | some i =>
      rw [walk, walk, Arena.slot_shift]
      cases a.slot i with
      | error e => rfl
      | ok t =>
        show (walk (a.shift φ) bound t.next >>= _) = _
        rw [ih]
        rfl

/-- So the queue has the same members. -/
@[simp] theorem members_shift : q.members (a.shift φ) = q.members a := by
  rw [members, walk_shift, Arena.size_shift, members]

/-- A slot is linked behind the same last one. -/
theorem push_shift : q.push (a.shift φ) i = Prod.map id (·.shift φ) <$> q.push a i := by
  unfold push
  split
  · rfl
  · rw [Arena.alter_shift_same (f := fun t => { t with next := none }) fun t c => rfl]
    refine bind_of_map fun b _ => ?_
    cases hq : q.tail with
    | none => rfl
    | some last =>
      dsimp only
      rw [Arena.alter_shift_same (f := fun t => { t with next := some i }) fun t c => rfl]
      cases b.alter last fun t => { t with next := some i } <;> rfl

/-- The slots of the queue bear no stamp any more once they were reset, so they are on no other clock. -/
theorem dismiss_shift (reset : ∀ l, q.members a = .ok l → ∀ j, ψ j = if j ∈ l then 0 else φ j) :
    q.dismiss (a.shift φ) = Prod.map id (·.shift ψ) <$> q.dismiss a := by
  unfold dismiss
  rw [members_shift]
  cases hl : q.members a with
  | error e => rfl
  | ok l =>
    simp only [ok_bind]
    rw [Arena.unconfigureAll_shift (reset l hl)]
    cases a.alterAll Task.unconfigure l <;> rfl

end Queue

/-! ## The cache -/

/-- All armed slots are on a clock that is `k` ahead. -/
def Arena.Dated (a : Arena) (φ : Nat → UInt32) (k : UInt32) : Prop := ∀ i, (a.life i).state.armed → φ i = k

namespace Arena

variable {a : Arena} {j : Nat}

/-- An armed slot that was found was started, so that it is on the clock of its board. -/
theorem Dated.slot {t : Task} (h : a.Dated φ k) (found : a.slot i = .ok t) (armed : t.state.armed) : φ i = k :=
  h i (by rw [life_of_slot found]; exact armed)

/-- Which of two armed slots expires first is the same on clocks that are ahead by as much. -/
theorem expiresBefore_shift (h : a.Dated φ k) (here : φ i = k) :
    (a.shift φ).expiresBefore i j (now + k) = a.expiresBefore i j now := by
  unfold expiresBefore
  rw [slot_shift, slot_shift, here]
  cases hj : a.slot j with
  | error e => rfl
  | ok other =>
    by_cases armed : other.state.armed
    · rw [h.slot hj armed]
      cases a.slot i <;> simp [armed]
    · simp [armed]

end Arena

namespace DueCache

variable {a : Arena} {c : DueCache}

/-- Which task the cache compares with is settled by states. -/
theorem rival_shift : c.rival (a.shift φ) i = c.rival a i := by
  unfold rival
  split
  · rfl
  · rename_i j _
    split
    · rfl
    · rw [Arena.slot_shift]
      cases a.slot j <;> rfl

/-- The latecomer is the same. -/
theorem lateWith_shift (h : a.Dated φ k) (here : φ i = k) :
    c.lateWith (a.shift φ) i (now + k) = c.lateWith a i now := by
  unfold lateWith
  split
  · rfl
  · rw [Arena.expiresBefore_shift h here]

/-- A start tells the cache the same. -/
theorem noteArmed_shift (h : a.Dated φ k) (here : φ i = k) :
    c.noteArmed (a.shift φ) i (now + k) = c.noteArmed a i now := by
  unfold noteArmed
  rw [rival_shift, lateWith_shift h here]
  simp only [Arena.expiresBefore_shift h here]

/-- The better of two slots is the same. -/
theorem better_shift {chosen candidate : Option Nat} (h : a.Dated φ k) :
    better (a.shift φ) (now + k) chosen candidate = better a now chosen candidate := by
  unfold better
  cases candidate with
  | none => rfl
  | some i =>
    by_cases same : chosen = some i
    · simp only [same, if_true]
    · simp only [same, if_false, Arena.slot_shift]
      cases hi : a.slot i with
      | error e => rfl
      | ok t =>
        by_cases active : t.state = .active
        · have here : φ i = k := h.slot hi (by rw [active]; rfl)
          simp only [map_ok, ok_bind, Task.state_shift, active, if_true, Arena.expiresBefore_shift h here]
        · simp only [map_ok, ok_bind, Task.state_shift, active, if_false]

/-- The better of two slots is the one that was chosen before, or it waits. -/
theorem dated_of_better {chosen candidate r : Option Nat} (h : a.Dated φ k) (hb : better a now chosen candidate = .ok r)
    (dated : ∀ i, chosen = some i → φ i = k) : ∀ i, r = some i → φ i = k := by
  intro i same
  cases better_eq_ok hb with
  | kept => exact dated i same
  | @changed j _ waits =>
    cases same
    exact h i (by rw [show (a.life i).state = .active from waits]; rfl)

/-- A scan leaves the same in the cache, and the same time until then. -/
theorem adopt_shift {best : Option Nat} (h : a.Dated φ k) (dated : ∀ i, best = some i → φ i = k) :
    c.adopt (a.shift φ) best (now + k) = c.adopt a best now := by
  unfold adopt
  rw [better_shift h]
  cases first : better a now best c.soonest with
  | error e => rfl
  | ok r =>
    simp only [ok_bind]
    rw [better_shift h]
    cases second : better a now r c.latecomer with
    | error e => rfl
    | ok chosen =>
      simp only [ok_bind]
      cases chosen with
      | none => rfl
      | some i =>
        have here : φ i = k := dated_of_better h second (dated_of_better h first dated) i rfl
        simp only [Arena.slot_shift, here]
        cases a.slot i <;> simp

end DueCache

/-! ## Pools -/

/-- What is known of the slots of a list, up to what the offsets change. -/
theorem mapM_shift {a : Arena} {α : Type} {g : Task → α} (same : ∀ t c, g (t.shift c) = g t) (l : List Nat) :
    (l.mapM fun i => (a.shift φ)[i]?).map (List.map g) = (l.mapM fun i => a[i]?).map (List.map g) := by
  induction l with
  | nil => rfl
  | cons i l ih =>
    rw [List.mapM_cons, List.mapM_cons, Arena.getElem?_shift]
    cases a[i]? with
    | none => rfl
    | some t =>
      have ih := ih
      cases h : l.mapM fun i => (a.shift φ)[i]? <;> cases h' : l.mapM fun i => a[i]? <;> rw [h, h'] at ih <;>
        simp_all

/-- The counts of a pool are about no clock. -/
theorem Pool.row?_shift {p : Pool} {a : Arena} : p.row? (a.shift φ) = p.row? a := by
  unfold row?
  split
  · rfl
  · rename_i first _
    have slots := mapM_shift (a := a) (φ := φ) (g := Task.allocated) (fun _ _ => rfl) (List.range' first p.slots)
    have counted : ∀ (ts ts' : List Task) (q : Bool → Bool), ts.map Task.allocated = ts'.map Task.allocated →
        ts.countP (fun t => q t.allocated) = ts'.countP fun t => q t.allocated := by
      intro ts ts' q same
      have left := List.countP_map (p := q) (f := Task.allocated) (l := ts)
      have right := List.countP_map (p := q) (f := Task.allocated) (l := ts')
      rw [same] at left
      exact left.symm.trans right
    cases h : (List.range' first p.slots).mapM fun i => (a.shift φ)[i]? with
    | none =>
      cases h' : (List.range' first p.slots).mapM fun i => a[i]? with
      | none => rfl
      | some ts' => rw [h, h'] at slots; cases slots
    | some ts =>
      cases h' : (List.range' first p.slots).mapM fun i => a[i]? with
      | none => rw [h, h'] at slots; cases slots
      | some ts' =>
        rw [h, h', Option.map_some, Option.map_some, Option.some.injEq] at slots
        have taken := counted ts ts' id slots
        have free := counted ts ts' (!·) slots
        show some (PoolRow.mk _ _ _ (ts.countP _) (ts.countP _)) = some (PoolRow.mk _ _ _ (ts'.countP _) (ts'.countP _))
        rw [show ts.countP (·.allocated) = ts'.countP (·.allocated) from taken, free]

namespace Scheduler

variable {σ : Scheduler} {ps : Pools}

/-- The scheduler finds the shifted slot, if it handed the slot out. -/
theorem lookup_shift : (σ.shift φ).lookup i = Option.map (·.shift (φ i)) <$> σ.lookup i := by
  unfold lookup
  show (if i < σ.declared then some <$> (σ.arena.shift φ).slot i else .ok none) = _
  rw [Arena.slot_shift]
  split
  · cases σ.arena.slot i <;> rfl
  · rfl

/-- A change of one slot, which may leave the slot on another clock. -/
theorem alter_shift {f g : Task → Task} (slot : ∀ t, f (t.shift (φ i)) = (g t).shift (ψ i))
    (other : ∀ j, j ≠ i → ψ j = φ j) : (σ.shift φ).alter i f = (·.shift ψ) <$> σ.alter i g := by
  unfold alter
  show ((σ.arena.shift φ).alter i f >>= _) = _
  rw [Arena.alter_shift slot other]
  cases σ.arena.alter i g <;> rfl

/-- A change of a slot that is about no clock value is the same for the scheduler. -/
theorem alter_shift_same {f : Task → Task} (slot : ∀ t c, f (t.shift c) = (f t).shift c) :
    (σ.shift φ).alter i f = (·.shift φ) <$> σ.alter i f :=
  alter_shift (fun t => slot t _) fun _ _ => rfl

@[simp] theorem queued_shift : (σ.shift φ).queued = σ.queued := Queue.members_shift

/-! ## The life of a task -/

/-- A slot is linked into the queue behind the same one. -/
theorem enqueue_shift : (σ.shift φ).enqueue i = (·.shift φ) <$> σ.enqueue i := by
  unfold enqueue
  show ((σ.queue.push (σ.arena.shift φ) i) >>= _) = _
  rw [Queue.push_shift]
  cases σ.queue.push σ.arena i <;> rfl

/-- A slot is configured or refused as here; its stamp stays, and so does its offset. -/
theorem configure_shift {handler : Nat} {ms : UInt32} {repeats : Bool} :
    (σ.shift φ).configure i handler ms repeats = Except.map (·.shift φ) <$> σ.configure i handler ms repeats := by
  -- What is left to do once the slot is in the queue.
  have configured : ∀ τ : Scheduler,
      ((τ.shift φ).alter i (·.configure handler ms repeats) >>= fun υ =>
        (.ok (.ok { υ with cache := υ.cache.forget i }) : Except Fault (Except Error Scheduler))) =
      Except.map (·.shift φ) <$> (τ.alter i (·.configure handler ms repeats) >>= fun υ =>
        (.ok (.ok { υ with cache := υ.cache.forget i }) : Except Fault (Except Error Scheduler))) := by
    intro τ
    rw [alter_shift_same fun t c => rfl]
    cases τ.alter i _ <;> rfl
  unfold configure
  show ((σ.arena.shift φ).slot i >>= _) = _
  rw [Arena.slot_shift]
  refine bind_of_map fun t _ => ?_
  simp only [Task.state_shift]
  by_cases busy : t.state.inHandler = true
  · simp only [busy, if_true]
    rfl
  · by_cases first : t.state = .uninit
    · simp only [first, if_true]
      rw [enqueue_shift]
      exact bind_of_map fun τ _ => configured τ
    · simp only [busy, first, if_false]
      exact configured σ

/-- The state that a start leads to does not depend on stamps. -/
theorem startState_shift : (σ.shift φ).startState i = σ.startState i := by
  unfold startState
  rw [lookup_shift]
  cases σ.lookup i with
  | error e => rfl
  | ok found => cases found <;> rfl

/-- A start stamps its slot with the clock. -/
theorem start_shift {next : TaskState} (here : ψ i = k) (other : ∀ j, j ≠ i → ψ j = φ j) :
    (σ.shift φ).start i next (now + k) = (·.shift ψ) <$> σ.start i next now :=
  alter_shift (fun t => by rw [here, Task.start_shift]) other

/-- The scheduler takes note of a start as the one here does. -/
theorem noteArmed_shift (h : σ.arena.Dated φ k) (here : φ i = k) :
    (σ.shift φ).noteArmed i (now + k) = (·.shift φ) <$> σ.noteArmed i now := by
  unfold noteArmed
  show (σ.cache.noteArmed (σ.arena.shift φ) i (now + k) >>= _) = _
  rw [DueCache.noteArmed_shift h here]
  cases σ.cache.noteArmed σ.arena i now <;> rfl

/-- A new interval changes the length and not the stamp. -/
theorem relength_shift {ms : UInt32} :
    (σ.shift φ).relength i ms = Except.map (·.shift φ) <$> σ.relength i ms := by
  unfold relength
  rw [lookup_shift]
  refine bind_of_map fun found _ => ?_
  cases found with
  | none => rfl
  | some t =>
    by_cases fresh : t.state = .uninit
    · simp only [map_ok, Option.map_some, Task.state_shift, fresh, if_true]
      rfl
    · simp only [Option.map_some, Task.state_shift, fresh, if_false]
      rw [alter_shift_same fun t c => rfl]
      cases σ.alter i _ <;> rfl

/-- A stop is refused for the same slots, and leaves stamps alone. -/
theorem stop_shift : (σ.shift φ).stop i = Except.map (·.shift φ) <$> σ.stop i := by
  unfold stop
  rw [lookup_shift]
  refine bind_of_map fun found _ => ?_
  cases found with
  | none => rfl
  | some t =>
    by_cases fresh : t.state = .uninit
    · simp only [map_ok, Option.map_some, Task.state_shift, fresh, if_true]
      rfl
    · simp only [Option.map_some, Task.state_shift, fresh, if_false]
      rw [alter_shift_same fun t c => Task.stop_shift]
      cases σ.alter i _ <;> rfl

/-- Bytes are attached or refused as here. -/
theorem attach_shift {data : List UInt8} :
    (σ.shift φ).attach ps i data = Except.map (Prod.map (·.shift φ) id) <$> σ.attach ps i data := by
  unfold attach
  show ((σ.arena.shift φ).slot i >>= _) = _
  rw [Arena.slot_shift]
  refine bind_of_map fun t _ => ?_
  simp only [Task.state_shift, Task.payload_shift]
  by_cases stopped : t.state = .stopped
  · simp only [stopped, if_true]
    cases t.payload with
    | attached _ =>
      simp only
      rw [alter_shift_same fun t c => rfl]
      cases σ.alter i _ <;> rfl
    | copied segment length =>
      refine bind_of_same fun copied _ => ?_
      rw [alter_shift_same fun t c => rfl]
      cases σ.alter i _ <;> rfl
  · simp only [stopped, if_false]
    rfl

/-- And written, as many of them. -/
theorem write_shift {data : List UInt8} :
    (σ.shift φ).write ps i data = Except.map (Prod.map id (Prod.map (·.shift φ) id)) <$> σ.write ps i data := by
  unfold write
  show ((σ.arena.shift φ).slot i >>= _) = _
  rw [Arena.slot_shift]
  refine bind_of_map fun t _ => ?_
  simp only [Task.state_shift, Task.payload_shift]
  by_cases stopped : t.state = .stopped
  · simp only [stopped, if_true]
    cases t.payload with
    | attached _ => rfl
    | copied segment length =>
      refine bind_of_same fun copied _ => ?_
      rw [alter_shift_same fun t c => rfl]
      cases σ.alter i _ <;> rfl
  · simp only [stopped, if_false]
    rfl

/-! ## Sessions and rounds -/

/-- A session begins with the queued slots reset, on no other clock than this. -/
theorem beginSession_shift (reset : ∀ l, σ.queued = .ok l → ∀ j, ψ j = if j ∈ l then 0 else φ j) :
    (σ.shift φ).beginSession = (·.shift ψ) <$> σ.beginSession := by
  unfold beginSession
  show (σ.queue.dismiss (σ.arena.shift φ) >>= _) = _
  rw [Queue.dismiss_shift reset]
  cases σ.queue.dismiss σ.arena <;> rfl

/-- So it ends, with the same number of tasks. -/
theorem endSession_shift (reset : ∀ l, σ.queued = .ok l → ∀ j, ψ j = if j ∈ l then 0 else φ j) :
    (σ.shift φ).endSession = Prod.map id (·.shift ψ) <$> σ.endSession := by
  unfold endSession
  show (σ.queue.dismiss (σ.arena.shift φ) >>= _) = _
  rw [Queue.dismiss_shift reset]
  refine bind_of_map fun dismissed _ => ?_
  rcases dismissed with ⟨count, a⟩
  show ((a.shift ψ).alterAll Task.giveBack (List.range σ.declared) >>= _) =
    _ <$> (a.alterAll Task.giveBack (List.range σ.declared) >>= _)
  rw [Arena.alterAll_shift fun t c => Task.giveBack_shift]
  cases a.alterAll Task.giveBack (List.range σ.declared) <;> rfl

theorem shutdown_shift : (σ.shift φ).shutdown = σ.shutdown.shift φ := by
  unfold shutdown
  show (if σ.runState = .stopped then _ else _) = _
  split <;> rfl

/-- Of the slots of a list the same one has least time left. -/
theorem soonestOf_shift {a : Arena} {l : List Nat} {best : Option (Nat × UInt32)} (h : a.Dated φ k) :
    soonestOf (a.shift φ) (now + k) l best = soonestOf a now l best := by
  induction l generalizing best with
  | nil => rfl
  | cons i l ih =>
    rw [soonestOf, soonestOf, Arena.slot_shift]
    cases hi : a.slot i with
    | error e => rfl
    | ok t =>
      by_cases active : t.state = .active
      · have here : φ i = k := h.slot hi (by rw [active]; rfl)
        simp only [map_ok, ok_bind, Task.state_shift, Task.timing_shift, active, if_true, here, Interval.remaining_shift]
        exact ih
      · simp only [map_ok, ok_bind, Task.state_shift, active, if_false]
        exact ih

/-- The scan of the queue finds the same slot. -/
theorem scan_shift (h : σ.arena.Dated φ k) : (σ.shift φ).scan (now + k) = σ.scan now := by
  unfold scan
  rw [queued_shift]
  cases σ.queued with
  | error e => rfl
  | ok l =>
    simp only [ok_bind]
    rw [show (σ.shift φ).arena = σ.arena.shift φ from rfl, soonestOf_shift h]

/-- The scheduler adopts the result of a scan as the one here does. -/
theorem adopt_shift {best : Option Nat} (h : σ.arena.Dated φ k) (dated : ∀ i, best = some i → φ i = k) :
    (σ.shift φ).adopt best (now + k) = Prod.map (·.shift φ) id <$> σ.adopt best now := by
  unfold adopt
  show (σ.cache.adopt (σ.arena.shift φ) best (now + k) >>= _) = _
  rw [DueCache.adopt_shift h dated]
  cases σ.cache.adopt σ.arena best now <;> rfl

/-- All that a scheduler says about itself is the same, but for the clock. -/
theorem row_shift {runState : RunState} :
    (σ.shift φ).row runState (now + k) = (fun row => { row with now := row.now + k }) <$> σ.row runState now := by
  unfold row
  rw [queued_shift]
  cases σ.queued <;> rfl

/-! ## Handing out slots -/

theorem takeSlots_shift {count : Nat} :
    (σ.shift φ).takeSlots count = (σ.takeSlots count).map (Prod.map id (·.shift φ)) := by
  unfold takeSlots
  have room : (σ.shift φ).capacity = σ.capacity := Arena.size_shift
  rw [room]
  show (if σ.declared + count ≤ σ.capacity then _ else _) = _
  split <;> rfl

/-- Slots become slots of a pool on whatever clock they are. -/
theorem enrollSlots_shift {a : Arena} {pool slotSize first count : Nat} :
    enrollSlots (a.shift φ) pool slotSize first count = (·.shift φ) <$> enrollSlots a pool slotSize first count := by
  induction count with
  | zero => rfl
  | succ count ih =>
    rw [enrollSlots, enrollSlots, ih]
    exact bind_of_map fun b _ =>
      Arena.alter_shift_same (f := fun t => t.enroll ⟨pool, count * slotSize, slotSize⟩) fun t c => rfl

/-- A pool is bound to the same slots. -/
theorem enrollPool_shift {pool : Nat} :
    (σ.shift φ).enrollPool ps pool = Option.map (Prod.map id (Prod.map (·.shift φ) id)) <$> σ.enrollPool ps pool := by
  unfold enrollPool
  cases ps.pool pool with
  | error e => rfl
  | ok p =>
    simp only [ok_bind]
    cases p.first with
    | some first => rfl
    | none =>
      simp only [takeSlots_shift]
      cases σ.takeSlots p.slots with
      | none => rfl
      | some taken =>
        rcases taken with ⟨first, τ⟩
        show (enrollSlots (τ.arena.shift φ) pool p.slotSize first p.slots >>= _) =
          _ <$> (enrollSlots τ.arena pool p.slotSize first p.slots >>= _)
        rw [enrollSlots_shift]
        cases enrollSlots τ.arena pool p.slotSize first p.slots <;> rfl

end Scheduler

end TimedTasks
