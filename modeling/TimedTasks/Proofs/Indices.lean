import TimedTasks.Proofs.Allocation

/-!
# No index leaves the arena

A scheduler keeps indices in many places: the ends of its queue, the links of its slots, the cache, and what is in progress.
All of them are indices of slots that were handed out, so nothing that a scheduler does leaves its arena
(`Moment.indices_inside`). Only a pool can be used with another scheduler than the one that its slots belong to. Whether the
arena of that scheduler reaches as far as the pool's slots is all that decides then whether its counts are to be had, and a
call for a slot leaves the arena when each slot of the pool that lies in it is taken.
-/

namespace TimedTasks

/-- Each index that a scheduler keeps is one of a slot that was handed out. -/
structure Scheduler.Bounded (σ : Scheduler) : Prop where
  declared : σ.declared ≤ σ.capacity
  head : ∀ i ∈ σ.queue.head, i < σ.declared
  tail : ∀ i ∈ σ.queue.tail, i < σ.declared
  links : ∀ (i j : Nat) (t : Task), σ.arena[i]? = some t → t.next = some j → j < σ.declared
  soonest : ∀ i ∈ σ.cache.soonest, i < σ.declared
  latecomer : ∀ i ∈ σ.cache.latecomer, i < σ.declared
  /-- The queue has a head just if it has a tail. -/
  ends : σ.queue.head = none ↔ σ.queue.tail = none

/-- Places whose tasks are all found lie in the arena. -/
theorem Arena.inside_of_tasks {a : Arena} {is : List Nat} {ts : List Task} (tasks : (is.mapM fun i => a[i]?) = some ts) :
    ∀ i ∈ is, i < a.size := by
  induction is generalizing ts with
  | nil => simp
  | cons i is ih =>
    rw [List.mapM_cons] at tasks
    obtain ⟨t, slot, tasks⟩ := Option.bind_eq_some_iff.1 tasks
    obtain ⟨ts, rest, -⟩ := Option.bind_eq_some_iff.1 tasks
    exact List.forall_mem_cons.2 ⟨(Array.getElem?_eq_some_iff.1 slot).1, ih rest⟩

/-- The counts of a pool are not to be had just if the arena does not reach as far as its slots. -/
theorem Pool.row?_eq_none_iff {p : Pool} {first : Nat} {a : Arena} (bound : p.first = some first) (slots : 0 < p.slots) :
    p.row? a = none ↔ a.size < first + p.slots := by
  have inside : (∀ j ∈ List.range' first p.slots, j < a.size) ↔ first + p.slots ≤ a.size := by
    simp only [List.mem_range'_1]
    constructor
    · intro all
      have := all (first + p.slots - 1) (by omega)
      omega
    · intro room j between
      omega
  rw [← Nat.not_le, ← inside, Pool.row?, bound]
  constructor
  · intro none all
    obtain ⟨ts, tasks, -⟩ := Arena.counts all
    simp [tasks] at none
  · intro beyond
    cases tasks : (List.range' first p.slots).mapM fun i => a[i]? with
    | none => simp [tasks]
    | some ts => exact absurd (Arena.inside_of_tasks tasks) beyond

/-! ## The links of the queue -/

namespace Chain

variable {link : Nat → Option (Option Nat)} {c : Option Nat} {l : List Nat}

/-- Each link leads to a slot of the list. -/
theorem mem_of_link (h : Chain link c l) {i j : Nat} (m : i ∈ l) (leads : link i = some (some j)) : j ∈ l := by
  induction l generalizing c with
  | nil => cases m
  | cons k l ih =>
    obtain ⟨-, next, own, rest⟩ := h
    rcases List.mem_cons.1 m with rfl | m
    · cases own.symm.trans leads
      exact List.mem_cons_of_mem _ (List.mem_of_mem_head? (by rw [← rest.eq_head?]; rfl))
    · exact List.mem_cons_of_mem _ (ih rest m)

end Chain

/-- What is kept inside, with a queue that holds slots, is bounded. -/
theorem Enrolled.bounded {σ : Scheduler} {acts : List Act} {roster : List Nat} (h : Enrolled σ acts roster)
    (inside : Inside σ acts) : σ.Bounded := by
  have head : σ.queue.head = roster.head? := h.holds.chain.eq_head?
  refine ⟨inside.declared, fun i same => h.declared i (List.mem_of_mem_head? (head ▸ same)),
    fun i same => h.declared i (List.mem_of_getLast? (h.holds.tail ▸ same)), fun i j t slot leads => ?_, inside.soonest,
    inside.latecomer, by rw [head, h.holds.tail]; cases roster <;> simp⟩
  have link : σ.arena.link i = some (some j) := by rw [Arena.link, slot, Option.map_some, leads]
  by_cases m : i ∈ roster
  · exact h.declared j (h.holds.chain.mem_of_link m link)
  · -- A slot that is not queued leads nowhere.
    cases (h.loose i (Array.getElem?_eq_some_iff.1 slot).1 m).symm.trans link

/-! ## Steps that leave the arena -/

/-- No frame of the move tells that a slot was asked for that is not there. -/
def Move.Stays (move : Move) : Prop := ∀ f ∈ move.frames, f.act ≠ .answered .outOfBounds

/-- The act is about to look at a slot that is not there. -/
inductive World.Leaves (w : World) (δ : Device) : Act → Prop
  | task {self ref i} : TaskRef.resolve self ref = .ok i → δ.scheduler.capacity ≤ i → Leaves w δ (.perform self (.task ref))
  | pool {self k p} : w.pools[k]? = some p → p.row? δ.scheduler.arena = none → Leaves w δ (.perform self (.pool k))
  | claiming {i left} : δ.scheduler.capacity ≤ i → Leaves w δ (.claiming i (left + 1))

namespace World

variable {w : World} {d i : Nat} {δ : Device} {move : Move} {row : TaskRow}

/-- A step whose acts do not say so does not leave the arena. -/
theorem stays_leaving {acts : List Act} (h : .answered .outOfBounds ∉ acts) : (w.leaving d δ acts).Stays := by
  intro f m
  obtain ⟨a, ma, rfl⟩ := List.mem_map.1 m
  exact fun same => h (same ▸ ma)

theorem stays_answering {a : Answer} (h : a ≠ .outOfBounds) : (w.answering d δ a).Stays :=
  stays_leaving (by simpa using h.symm)

theorem stays_calling {call : BoardCall} {acts : List Act} (h : .answered .outOfBounds ∉ acts) :
    (w.calling d δ call acts).Stays :=
  stays_leaving (by simpa using h)

theorem askExpired_stays (h : w.askExpired d δ i row = .ok move) : move.Stays := by
  obtain ⟨found, -, h⟩ := bind_eq_ok.1 h
  cases found with
  | none => cases h; exact stays_answering (by simp)
  | some t =>
    dsimp only at h
    split at h <;> cases h
    · exact stays_calling (by simp)
    · exact stays_answering (by simp)

theorem askRemaining_stays (h : w.askRemaining d δ i row = .ok move) : move.Stays := by
  obtain ⟨found, -, h⟩ := bind_eq_ok.1 h
  cases found with
  | none => exact askExpired_stays h
  | some t =>
    dsimp only at h
    split at h
    · cases h; exact stays_calling (by simp)
    · exact askExpired_stays h

/-- No query leaves the arena. -/
theorem askElapsed_stays (h : w.askElapsed d δ i row = .ok move) : move.Stays := by
  obtain ⟨found, -, h⟩ := bind_eq_ok.1 h
  cases found with
  | none => exact askRemaining_stays h
  | some t =>
    dsimp only at h
    split at h
    · exact askRemaining_stays h
    · cases h; exact stays_calling (by simp)

/-- Nor does an operation that begins under the lock. -/
theorem lockedOn_stays {s : Section} (h : w.lockedOn d δ i s = .ok move) : move.Stays := by
  obtain ⟨found, -, h⟩ := bind_eq_ok.1 h
  cases found <;> cases h
  · exact stays_answering (by simp)
  · exact stays_calling (by simp)

/-- Nor a start. -/
theorem start_stays (h : w.start d δ i = .ok move) : move.Stays := by
  obtain ⟨next, -, h⟩ := bind_eq_ok.1 h
  cases next <;> cases h
  · exact stays_answering (by simp)
  · exact stays_calling (by simp)

theorem update_stays {ms : UInt32} (h : w.update d δ i ms = .ok move) : move.Stays := by
  obtain ⟨r, -, h⟩ := bind_eq_ok.1 h
  cases r with
  | error e => cases h; exact stays_answering (by simp)
  | ok σ => exact start_stays h

theorem stop_stays (h : w.stop d δ i = .ok move) : move.Stays := by
  obtain ⟨r, -, h⟩ := bind_eq_ok.1 h
  cases r <;> cases h
  · exact stays_answering (by simp)
  · exact stays_calling (by simp)

theorem query_stays (h : w.query d δ i = .ok move) : move.Stays := by
  obtain ⟨found, -, h⟩ := bind_eq_ok.1 h
  cases found <;> cases h
  · exact stays_answering (by simp)
  · exact stays_calling (by simp)

/-- Only the counts of a pool, and a client that looks at the arena itself, ask for a slot that is not there at once. -/
theorem perform_stays {self : Option Nat} {op : Op} (h : w.perform d δ self op = .ok move) :
    move.Stays ∨ w.Leaves δ (.perform self op) ∧ move = w.answering d δ .outOfBounds := by
  have kept : ∀ {α : Type} {x : Except Fault α} {f : α → Except Fault Move}, (x >>= f) = .ok move →
      (∀ a, f a = .ok move → move.Stays) → move.Stays := fun h stays => by
    obtain ⟨a, -, h⟩ := bind_eq_ok.1 h
    exact stays a h
  cases op with
  | declare | shutdown | info => cases h; exact .inl (stays_calling (by simp))
  | capacity | advance | setNow | hook => cases h; exact .inl (stays_answering (by simp))
  | configure ref handler ms repeats => exact .inl (kept h fun _ => lockedOn_stays)
  | start ref => exact .inl (kept h fun _ => start_stays)
  | stop ref => exact .inl (kept h fun _ => stop_stays)
  | update ref ms => exact .inl (kept h fun _ => update_stays)
  | attach ref data => exact .inl (kept h fun _ => lockedOn_stays)
  | write ref data => exact .inl (kept h fun _ => lockedOn_stays)
  | query ref => exact .inl (kept h fun _ => query_stays)
  | alloc k =>
    refine .inl (kept (show w.alloc d δ k = .ok move from h) fun p h => ?_)
    split at h <;> cases h
    · exact stays_leaving (by simp)
    · exact stays_calling (by simp)
  | pool k =>
    obtain ⟨p, hp, h⟩ := bind_eq_ok.1 (show w.countPool d δ k = .ok move from h)
    cases row : p.row? δ.scheduler.arena with
    | none =>
      rw [row] at h
      cases h
      exact .inr ⟨.pool (Pools.pool_eq_ok hp) row, rfl⟩
    | some row' =>
      rw [row] at h
      cases h
      exact .inl (stays_answering (by simp))
  | init =>
    cases h
    rw [openSession]
    split
    · exact .inl (stays_calling (by simp))
    · exact .inl (stays_answering (by simp))
  | run =>
    cases h
    rw [run]
    split
    · exact .inl (stays_answering (by simp))
    · split
      · exact .inl (stays_answering (by simp))
      · exact .inl (stays_leaving (by simp))
  | tick =>
    cases h
    rw [tick]
    split
    · exact .inl (stays_answering (by simp))
    · split
      · exact .inl (stays_answering (by simp))
      · exact .inl (stays_leaving (by simp))
  | task ref =>
    obtain ⟨i, meant, h⟩ := bind_eq_ok.1 h
    cases slot : δ.scheduler.arena[i]? with
    | none =>
      rw [slot] at h
      cases h
      exact .inr ⟨.task meant (Array.getElem?_eq_none_iff.1 slot), rfl⟩
    | some t =>
      rw [slot] at h
      cases h
      exact .inl (stays_answering (by simp))
  | on e op =>
    cases h
    exact .inl fun f m => by cases List.mem_singleton.1 m; simp

/-- Nor what becomes of a reading. -/
theorem resume_stays {now : UInt32} {r : Reading} (h : w.resume d δ now r = .ok move) : move.Stays := by
  cases r with
  | start | scan | renew =>
    obtain ⟨σ, -, h⟩ := bind_eq_ok.1 h
    cases h
    exact stays_calling (by simp)
  | cached =>
    cases h
    rw [resumeCached]
    split
    · split <;> exact stays_leaving (by simp)
    · exact stays_leaving (by simp)
  | due => cases h; exact stays_leaving (by split <;> simp)
  | elapsed => exact askRemaining_stays h
  | remaining => exact askExpired_stays h
  | expired => cases h; exact stays_answering (by simp)
  | info =>
    obtain ⟨row, -, h⟩ := bind_eq_ok.1 h
    cases h
    exact stays_answering (by simp)

/-- Nor any work under the lock. -/
theorem work_stays {s : Section} (h : w.work d δ s = .ok move) : move.Stays := by
  cases s with
  | declare =>
    rw [work] at h
    split at h <;> cases h <;> exact stays_answering (by simp)
  | forget | shutdown | sessionOver => cases h; exact stays_answering (by simp)
  | configure | attach | write =>
    obtain ⟨r, -, h⟩ := bind_eq_ok.1 h
    cases r <;> cases h <;> exact stays_answering (by simp)
  | noteArmed | beginSession =>
    obtain ⟨σ, -, h⟩ := bind_eq_ok.1 h
    cases h
    exact stays_answering (by simp)
  | dataLength =>
    obtain ⟨t, -, h⟩ := bind_eq_ok.1 h
    exact askElapsed_stays h
  | adopt =>
    obtain ⟨r, -, h⟩ := bind_eq_ok.1 h
    cases h
    exact stays_leaving (by simp)
  | fetch i =>
    obtain ⟨t, -, h⟩ := bind_eq_ok.1 (show w.callHandler d δ i = .ok move from h)
    dsimp only at h
    split at h
    · cases h; exact stays_leaving (by simp)
    · obtain ⟨bytes, -, h⟩ := bind_eq_ok.1 h
      cases h
      exact stays_leaving (by simp)
  | endSession =>
    obtain ⟨r, -, h⟩ := bind_eq_ok.1 h
    cases h
    exact stays_calling (by simp)
  | enroll k =>
    obtain ⟨p, -, h⟩ := bind_eq_ok.1 (show w.enroll d δ k = .ok move from h)
    obtain ⟨r, -, h⟩ := bind_eq_ok.1 h
    rcases r with _ | ⟨first, σ, ps⟩ <;> cases h
    · exact stays_answering (by simp)
    · exact stays_leaving (by simp)
  | claim i left =>
    obtain ⟨t, -, ⟨-, rfl⟩ | ⟨-, σ, ps, -, -, rfl⟩⟩ := claim_eq_ok h
    · exact stays_leaving (by simp)
    · exact stays_answering (by simp)

/-- A step stays in the arena, unless it is one of the three that can leave it. -/
theorem step_stays {act : Act} (h : w.step d δ act = .ok move) :
    move.Stays ∨ w.Leaves δ act ∧ move = w.answering d δ .outOfBounds := by
  cases act with
  | perform self op => exact perform_stays h
  | block self ops => cases ops <;> cases h <;> exact .inl (stays_leaving (by simp))
  | interrupts call bodies => cases bodies <;> cases h <;> exact .inl (stays_leaving (by simp))
  | reading r => exact .inl (resume_stays h)
  | locked s => exact .inl (work_stays h)
  | opening | closing => cases h; exact .inl (stays_calling (by simp))
  | survey => cases h; exact .inl (stays_leaving (by simp))
  | sleeping =>
    cases h
    exact .inl (stays_leaving (by split <;> simp))
  | running =>
    cases h
    rw [loop]
    split
    · exact .inl (stays_leaving (by simp))
    · exact .inl (stays_calling (by simp))
  | checkCache =>
    have h : w.checkCache d δ = .ok move := h
    rw [checkCache] at h
    split at h
    · cases h; exact .inl (stays_leaving (by simp))
    · obtain ⟨t, -, h⟩ := bind_eq_ok.1 h
      split at h <;> cases h
      · exact .inl (stays_calling (by simp))
      · exact .inl (stays_leaving (by simp))
  | walking skip c =>
    cases c with
    | none => cases h; exact .inl (stays_calling (by simp))
    | some i =>
      obtain ⟨t, -, h⟩ := bind_eq_ok.1 (show w.walk d δ skip (some i) = .ok move from h)
      split at h <;> cases h
      · exact .inl (stays_calling (by simp))
      · exact .inl (stays_leaving (by simp))
  | dispatch i =>
    obtain ⟨t, -, h⟩ := bind_eq_ok.1 (show w.dispatch d δ i = .ok move from h)
    split at h
    · split at h
      · cases h; exact .inl (stays_calling (by simp))
      · obtain ⟨σ, -, h⟩ := bind_eq_ok.1 h
        cases h
        exact .inl (stays_calling (by simp))
    · cases h; exact .inl (stays_leaving (by simp))
  | handling =>
    cases h
    rw [countRun]
    dsimp only
    split
    · exact .inl (stays_calling (by simp))
    · exact .inl (stays_leaving (by simp))
  | settle i =>
    obtain ⟨σ, -, h⟩ := bind_eq_ok.1 h
    cases h
    exact .inl (stays_leaving (by simp))
  | claiming i left =>
    cases h
    cases left with
    | zero => exact .inl (stays_answering (by simp))
    | succ left =>
      cases slot : δ.scheduler.arena[i]? with
      | none => exact .inr ⟨.claiming (Array.getElem?_eq_none_iff.1 slot), by rw [claiming, slot]⟩
      | some t =>
        rw [claiming, slot]
        dsimp only
        split
        · exact .inl (stays_leaving (by simp))
        · exact .inl (stays_calling (by simp))
  | report | discard | ticking | round | answered | deadline => cases h

/-- An answer that is taken leaves nothing to do. -/
theorem takeAnswer_frames {a : Answer} {act : Act} (h : w.takeAnswer d δ a act = .ok move) : move.frames = [] := by
  cases act <;> cases h <;> rfl

/-- The deadline of a round does not leave the arena. -/
theorem takeDeadline_stays {ms : Option UInt32} {act : Act} (h : w.takeDeadline d δ ms act = .ok move) : move.Stays := by
  cases act with
  | round => cases h; exact stays_leaving (by simp)
  | ticking => cases h; exact stays_answering (by simp)
  | running =>
    rw [takeDeadline] at h
    split at h <;> cases h
    · rw [sleep]
      split
      · exact stays_calling (by simp)
      · exact stays_leaving (by simp)
    · exact stays_leaving (by simp)
  | _ => cases h

end World

namespace Moment

/-- How the next step comes to ask device `d` for a slot that is not there. It is part of a call right above `below`, and the
holdings are `l`. -/
inductive Astray (P : Moment → Prop) (s : Setup) (x : Moment) (l : List Holding) (d : Nat) (δ : Device)
    (below : List Frame) : Prop
  /-- A client looks at its arena itself, behind the end. -/
  | task {self ref i} : x.machine.stack = ⟨d, .perform self (.task ref)⟩ :: below → ref.resolve self = .ok i →
      δ.scheduler.capacity ≤ i → Astray P s x l d δ below
  /-- The slots of a pool are counted, and they lie on another device. -/
  | counts {self k h} : x.machine.stack = ⟨d, .perform self (.pool k)⟩ :: below → h ∈ l → h.pool = some k →
      h.device ≠ d → δ.scheduler.capacity < h.first + h.count → Astray P s x l d δ below
  /-- A slot of such a pool is looked for. -/
  | searches {z self k h i left} : Run P (initial s) z → z.machine.stack = ⟨d, .perform self (.alloc k)⟩ :: below →
      Run (fun z => P z ∧ z.Within below) z x → x.machine.stack = ⟨d, .claiming i (left + 1)⟩ :: below → h ∈ l →
      h.pool = some k → h.device ≠ d → h.Has i → δ.scheduler.capacity ≤ i → Astray P s x l d δ below

variable {P : Moment → Prop} {s : Setup} {x y z : Moment} {d k i n : Nat} {δ : Device} {l : List Holding} {h : Holding}
  {self : Option Nat} {below : List Frame} {g g' : Frame}

/-- In every run, each index that a scheduler keeps is one of a slot that was handed out. -/
theorem bounded (r : Run P (initial s) x) (found : x.machine.world.devices[d]? = some δ) : δ.scheduler.Bounded :=
  (ordered r (view_of_device found)).enrolled.bounded (inside r (view_of_device found))

/-- In every run, what is in progress names slots that were handed out only, and so does the way of a round. -/
theorem named_lt (r : Run P (initial s) x) (found : x.machine.world.devices[d]? = some δ) {a : Act}
    (m : (⟨d, a⟩ : Frame) ∈ x.machine.stack) : (∀ i ∈ a.names, i < δ.scheduler.declared) ∧
      ∀ skip i, a = .walking skip (some i) → i < δ.scheduler.declared := by
  have acts : a ∈ pending d x.machine.stack := mem_pending.2 m
  have ordered := ordered r (view_of_device found)
  exact ⟨fun i name => (inside r (view_of_device found)).named a acts i name,
    fun skip i same => ordered.enrolled.declared i (ordered.marches.cursor skip i (same ▸ acts))⟩

/-- A step that asks for a slot that is not there is one of the three that can leave the arena. -/
theorem Next.leaves (next : x.Next y) (stacked : Stacked x.machine.stack) (found : x.machine.world.devices[d]? = some δ)
    (beyond : y.machine.stack = ⟨d, .answered .outOfBounds⟩ :: below) :
    ∃ act, x.machine.stack = ⟨d, act⟩ :: below ∧ x.machine.world.Leaves δ act := by
  -- What a step puts on the stack is on top, or nothing is put there and the answer would have been covered before.
  have fresh : ∀ (above : List Frame) {f : Frame} {rest : List Frame} {move : Move}, x.machine.stack = f :: above ++ rest →
      y.machine = ⟨move.world, move.frames ++ rest⟩ → ¬move.Stays := by
    intro above f rest move stack eq stays
    rw [eq] at beyond
    cases frames : move.frames with
    | nil =>
      rw [frames] at beyond
      rw [stack, show rest = _ from beyond] at stacked
      exact stacked.bare
    | cons f fs =>
      rw [frames] at beyond
      cases beyond
      exact stays _ (by rw [frames]; exact List.mem_cons_self) rfl
  cases next.machine.goes with
  | works e act rest ε move top there step eq =>
    rcases World.step_stays step with stays | ⟨leaves, rfl⟩
    · exact absurd stays (fresh [] top eq)
    · rw [eq] at beyond
      cases beyond
      cases found.symm.trans there
      exact ⟨act, top, leaves⟩
  | answers e a e' act rest ε move top there takes eq =>
    have stays : move.Stays := fun f m => by rw [World.takeAnswer_frames takes] at m; cases m
    exact absurd stays (fresh [_] top eq)
  | delivers e ms e' act rest ε move top there takes eq =>
    exact absurd (World.takeDeadline_stays takes) (fresh [_] top eq)
  | finishes e a top eq => rw [eq] at beyond; cases beyond
  | calls e op idle eq => rw [eq] at beyond; cases beyond

/-! ## Searches on any device -/

/-- What a call for a slot of pool `k` on device `d` has come to, wherever the slots of the pool lie. -/
inductive Seeks (d k : Nat) (z : Moment) : Frame → Prop
  | waits : Seeks d k z ⟨d, .locked (.enroll k)⟩
  | looks {p first act i n} : z.machine.world.pools[k]? = some p → p.first = some first → first ≤ i →
      i + n = first + p.slots → act.claims = some (i, n) → Seeks d k z ⟨d, act⟩
  | answered {a} : Seeks d k z ⟨d, .answered a⟩

namespace Seeks

/-- A call for a slot goes straight from slot to slot. -/
theorem straight (h : Seeks d k z g) : g.act.straight := by
  cases h with
  | waits | answered => rfl
  | @looks _ _ act _ _ _ _ _ _ claims =>
    cases act with
    | claiming => rfl
    | locked s => cases s <;> first | rfl | cases claims
    | _ => cases claims

/-- The slots of the pool stay where they are. -/
theorem kept (h : Seeks d k z g) (next : z.Next y) : Seeks d k y g := by
  cases h with
  | waits => exact .waits
  | answered => exact .answered
  | looks pool bound low size claims =>
    obtain ⟨q, pool', slots, bound'⟩ := next.keeps_first pool bound
    exact .looks pool' bound' low (size.trans (by rw [slots])) claims

/-- It goes on where the step leaves it. -/
theorem step {above : List Frame} (h : Seeks d k z g) (next : z.Next y) (stack : z.machine.stack = g :: below)
    (stack' : y.machine.stack = above ++ g' :: below) : Seeks d k y g' := by
  cases h with
  | answered => exact absurd ⟨above, g', stack'⟩ (next.not_within stack)
  | waits =>
    obtain ⟨δ, p, -, pool, enrolls⟩ := next.cases_of_enroll stack
    cases enrolls with
    | bound bound after =>
      rw [after] at stack'
      cases lowest_of_cons stack'
      exact .looks (by rw [after]; exact pool) bound (Nat.le_refl _) rfl rfl
    | fits _ _ _ after =>
      rw [after] at stack'
      cases lowest_of_cons stack'
      have inside := (Array.getElem?_eq_some_iff.1 pool).1
      refine .looks (p := { p with first := some δ.scheduler.declared }) ?_ rfl (Nat.le_refl _) rfl rfl
      rw [after]
      show (z.machine.world.pools.setIfInBounds k _)[k]? = _
      rw [Array.getElem?_setIfInBounds, if_pos rfl, if_pos inside]
    | full _ _ after =>
      rw [after] at stack'
      cases lowest_of_cons stack'
      exact .answered
  | @looks p first act i n pool bound low size claims =>
    obtain ⟨q, pool', slots, bound'⟩ := next.keeps_first pool bound
    have size : i + n = first + q.slots := size.trans (by rw [slots])
    have on : ∀ {j m : Nat} {act' : Act}, act'.claims = some (j, m) → first ≤ j → j + m = i + n →
        Seeks d k y ⟨d, act'⟩ := fun claims low same => .looks pool' bound' low (same.trans size) claims
    -- The search goes on with the same slots to go, with one less of them, or it is over.
    obtain ⟨δ, s, -, l, takes⟩ := next.leads_of_top stack (by cases act <;> first | rfl | cases claims)
    rw [takes.stack] at stack'
    cases l with
    | unclaimed => cases lowest_of_cons stack'; exact .answered
    | claimed => cases lowest_of_cons stack'; exact .answered
    | occupied => cases claims; cases lowest_of_cons stack'; exact on rfl (by omega) (by omega)
    | claimedMeanwhile => cases claims; cases lowest_of_cons stack'; exact on rfl (by omega) (by omega)
    | claiming => cases claims; cases lowest_of_cons_cons stack'; exact on rfl low rfl
    | refused => cases lowest_of_cons stack'; exact .answered
    | _ => cases claims

end Seeks

/-- Whoever looks for a free slot was called to do so, and what it has to go are the last slots of the pool. -/
theorem seeks {act : Act} (r : Run P (initial s) x) (top : x.machine.stack = ⟨d, act⟩ :: below)
    (claims : act.claims = some (i, n)) : ∃ z self k p first, Run P (initial s) z ∧
      z.machine.stack = ⟨d, .perform self (.alloc k)⟩ :: below ∧ Run (fun z => P z ∧ z.Within below) z x ∧
      x.machine.world.pools[k]? = some p ∧ p.first = some first ∧ first ≤ i ∧ i + n = first + p.slots := by
  have seeking : act.seeks := by
    cases act with
    | claiming => rfl
    | locked s => cases s <;> first | rfl | cases claims
    | _ => cases claims
  obtain ⟨z, self, k, before, called, later⟩ := sought r (show x.machine.stack = [] ++ _ :: below from top) seeking
  have begins : ∀ z' g above, z.Next z' → P z' → z'.machine.stack = above ++ g :: below → Seeks d k z' g := by
    intro z' g above next _ stack
    obtain ⟨p, pool, after⟩ := next.searches called
    cases bound : p.first with
    | some first =>
      rw [bound] at after
      rw [after] at stack
      cases lowest_of_cons stack
      exact .looks (by rw [after]; exact pool) bound (Nat.le_refl _) rfl rfl
    | none =>
      rw [bound] at after
      obtain ⟨bodies, after⟩ := after
      cases lowest_of_cons_cons (after.symm.trans stack)
      exact .waits
  obtain ⟨above, g, stack, stage⟩ := later.stages (I := Seeks d k) (stacked_of_run before) called rfl begins
    (fun _ _ h => h.straight) (fun _ _ _ h _ next _ _ => h.kept next)
    fun _ _ _ _ _ h _ next _ stack stack' => h.step next stack stack'
  obtain rfl : g = ⟨d, act⟩ := lowest_of_cons (top.symm.trans stack)
  rcases stage with ⟨-, same⟩ | h
  · cases same
    cases claims
  · cases h with
    | waits | answered => cases claims
    | looks pool bound low size claims' =>
      cases claims.symm.trans claims'
      exact ⟨z, self, k, _, _, before, called, later, pool, bound, low, size⟩

/-! ## What leaves the arena -/

/-- The slots of a holding lie in the arena of its device. -/
theorem not_here (t : Traced P handing [] (initial s) x l) (m : h ∈ l) (found : x.machine.world.devices[d]? = some δ)
    (beyond : δ.scheduler.capacity < h.first + h.count) : h.device ≠ d := by
  rintro rfl
  obtain ⟨tiles, room⟩ := (ledger t).tiles _ δ found
  have := tiles.le (List.mem_filter.2 ⟨m, by simp⟩)
  omega

/-- A call that leaves the arena went through every slot of its pool inside, and found each of them taken. -/
theorem Next.astray (next : x.Next y) (t : Traced P handing [] (initial s) x l) (found : x.machine.world.devices[d]? = some δ)
    (beyond : y.machine.stack = ⟨d, .answered .outOfBounds⟩ :: below) : Astray P s x l d δ below := by
  obtain ⟨act, top, leaves⟩ := next.leaves (stacked_of_run t.run) found beyond
  cases leaves with
  | task meant beyond => exact .task top meant beyond
  | @pool self k p pool row =>
    cases bound : p.first with
    | none => rw [Pool.row?, bound] at row; cases row
    | some first =>
      obtain ⟨h, m, own, rfl, count⟩ := (Moment.ledger t).of_bound pool bound
      have slots : 0 < p.slots := Nat.pos_of_ne_zero fun none => by
        rw [Pool.row?, bound, none] at row
        cases row
      have beyond : δ.scheduler.capacity < h.first + h.count := count ▸ (Pool.row?_eq_none_iff bound slots).1 row
      exact .counts top m own (not_here t m found beyond) beyond
  | @claiming i left beyond =>
    obtain ⟨z, self, k, p, first, before, called, later, pool, bound, low, size⟩ := seeks t.run top rfl
    obtain ⟨h, m, own, rfl, count⟩ := (Moment.ledger t).of_bound pool bound
    have has : h.Has i := ⟨low, by omega⟩
    exact .searches before called later top m own (not_here t m found (Nat.lt_of_le_of_lt beyond has.2)) has beyond

/-- On any device, the counts of a pool are to be had if and only if the arena reaches as far as its slots. -/
theorem answer_of_counts (t : Traced P handing [] (initial s) x l) (m : h ∈ l) (own : h.pool = some k) (slots : 0 < h.count)
    (found : x.machine.world.devices[d]? = some δ) (top : x.machine.stack = ⟨d, .perform self (.pool k)⟩ :: below) :
    ∃ y a, x.Next y ∧ y.machine.stack = ⟨d, .answered a⟩ :: below ∧
      (a = .outOfBounds ↔ δ.scheduler.capacity < h.first + h.count) := by
  obtain ⟨p, pool, bound, count, -⟩ := (ledger t).of_pool m own
  have beyond := Pool.row?_eq_none_iff (a := δ.scheduler.arena) bound (count ▸ slots)
  rw [← count] at beyond
  obtain ⟨a, does, decides⟩ : ∃ a, x.machine.world.countPool d δ k = .ok (x.machine.world.answering d δ a) ∧
      (a = .outOfBounds ↔ p.row? δ.scheduler.arena = none) := by
    rw [World.countPool, Pools.pool_succeeds pool]
    cases row : p.row? δ.scheduler.arena with
    | none => exact ⟨.outOfBounds, by simp [bind, Except.bind, row], by simp⟩
    | some row' => exact ⟨.pool row', by simp [bind, Except.bind, row], by simp⟩
  have step : x.machine.step = .next ⟨x.machine.world.put d δ, ⟨d, .answered a⟩ :: below⟩ := by
    rw [Machine.step, top]
    show Machine.onto below (x.machine.world.device d >>= fun δ => x.machine.world.countPool d δ k) = _
    rw [World.device_eq_ok_iff.2 found]
    show Machine.onto below (x.machine.world.countPool d δ k) = _
    rw [does]
    rfl
  exact ⟨⟨_, fun e => (x.past e).next x.machine _ e⟩, a, ⟨.step step, fun _ => rfl⟩, rfl, decides.trans beyond⟩

/-- On any device, a call for a slot leaves the arena if and only if the arena does not reach as far as the slots of the
pool, and each of them that lies in it is taken. -/
theorem answer_of_search {a : Answer} (t : Traced P handing [] (initial s) x l) (m : h ∈ l) (own : h.pool = some k)
    (slots : 0 < h.count) (found : x.machine.world.devices[d]? = some δ)
    (top : x.machine.stack = ⟨d, .perform self (.alloc k)⟩ :: below)
    (r : Run (fun z => z.Within below ∧ z.machine.Undisturbed) x y) (answered : y.machine.stack = ⟨d, .answered a⟩ :: below) :
    a = .outOfBounds ↔ δ.scheduler.capacity < h.first + h.count ∧
      ∀ i, h.first ≤ i → i < δ.scheduler.capacity → x.machine.world.marks d i = true := by
  obtain ⟨p, pool, bound, count, -⟩ := (ledger t).of_pool m own
  have stored := (Moment.stored t.run).scheduler found
  have answer := (World.concludes_alloc_searched below self found stored pool bound).of_run top r answered
  rw [answer, World.searched_eq_outOfBounds_iff found (count ▸ slots), count]

/-- In every run, whatever handlers and interrupts call: each index that a scheduler keeps is one of a slot that was handed
out, and so is each one that is in progress on the device. A step fails only when an operation is called on something that
is not there. Besides a client that looks at its arena itself, it is only the use of a pool on another device than the one of
its slots that asks for a slot that is not there. On any device, the counts of a pool are not to be had just if the arena
does not reach as far as the slots of the pool; and if no interrupt comes, a call for a slot leaves the arena just if it does
not reach as far and each slot of the pool that lies in it is taken. -/
theorem indices_inside (t : Traced P handing [] (initial s) x l) :
    (∀ (d : Nat) (δ : Device), x.machine.world.devices[d]? = some δ → δ.scheduler.Bounded ∧
      ∀ a, (⟨d, a⟩ : Frame) ∈ x.machine.stack → (∀ i ∈ a.names, i < δ.scheduler.declared) ∧
        ∀ skip i, a = .walking skip (some i) → i < δ.scheduler.declared) ∧
    (∀ f, x.machine.stack ≠ [] → x.machine.step = .fault f → x.machine.Strays f) ∧
    (∀ d δ below y, x.machine.world.devices[d]? = some δ → x.Next y →
      y.machine.stack = ⟨d, .answered .outOfBounds⟩ :: below → Astray P s x l d δ below) ∧
    ∀ h ∈ l, ∀ k, h.pool = some k → 0 < h.count → ∀ d δ self below, x.machine.world.devices[d]? = some δ →
      (x.machine.stack = ⟨d, .perform self (.pool k)⟩ :: below → ∃ y a, x.Next y ∧
        y.machine.stack = ⟨d, .answered a⟩ :: below ∧ (a = .outOfBounds ↔ δ.scheduler.capacity < h.first + h.count)) ∧
      (x.machine.stack = ⟨d, .perform self (.alloc k)⟩ :: below →
        (∀ y a, Run (fun z => z.Within below ∧ z.machine.Undisturbed) x y → y.machine.stack = ⟨d, .answered a⟩ :: below →
          (a = .outOfBounds ↔ δ.scheduler.capacity < h.first + h.count ∧
            ∀ i, h.first ≤ i → i < δ.scheduler.capacity → x.machine.world.marks d i = true)) ∧
        (δ.board.interrupts = [] → ∃ y a, Run (fun z => z.Within below ∧ z.machine.Undisturbed) x y ∧
          y.machine.stack = ⟨d, .answered a⟩ :: below)) := by
  refine ⟨fun d δ found => ⟨bounded t.run found, fun a m => named_lt t.run found m⟩,
    fun f busy fault => strays_of_fault t.run busy fault, fun d δ below y found next beyond => next.astray t found beyond,
    fun h m k own slots d δ self below found => ⟨fun top => answer_of_counts t m own slots found top, fun top =>
      ⟨fun y a r answered => answer_of_search t m own slots found top r answered, fun calm => ?_⟩⟩⟩
  obtain ⟨p, pool, bound, -⟩ := (ledger t).of_pool m own
  have concludes := World.concludes_alloc_searched below self found ((Moment.stored t.run).scheduler found) pool bound
  obtain ⟨y, a, r, answered, -⟩ := concludes.reaches top fun armed => armed calm
  exact ⟨y, a, r, answered⟩

/-- Two devices with two slots and with one, a pool of two slots and one of one slot. -/
def abroad : Setup := ⟨[⟨2, 0, [], []⟩, ⟨1, 0, [], []⟩], false, [(2, 4), (1, 4)], [], 9, false⟩

/-- Each pool comes to the slots of one device. Then the first one is used on the device of the second. -/
def abroadCalls : List (Nat × Op) := [(0, .alloc 0), (1, .alloc 1), (1, .alloc 0)]

/-- The only slot of the second device is taken, so the search of the first pool there leaves the arena. -/
theorem indices_inside_of_pools : ∃ (x y : Moment) (δ : Device) (l : List Holding),
    Traced (fun _ => True) handing [] (initial abroad) x l ∧ ⟨0, some 0, 0, 2⟩ ∈ l ∧
    x.machine.stack = [⟨1, .perform none (.alloc 0)⟩] ∧ x.machine.world.devices[1]? = some δ ∧ δ.scheduler.Bounded ∧
    Run (fun z => z.Within [] ∧ z.machine.Undisturbed) x y ∧ y.machine.stack = [⟨1, .answered .outOfBounds⟩] := by
  let at' := fun n => ((initial abroad).steps n abroadCalls).1
  let noted' := (initial abroad).noted handing 17 abroadCalls []
  have t : Traced (fun _ => True) handing [] (initial abroad) (at' 17) noted' := traced_steps (by decide +kernel)
  have m : ⟨0, some 0, 0, 2⟩ ∈ noted' := by decide +kernel
  have top : (at' 17).machine.stack = [⟨1, .perform none (.alloc 0)⟩] := by rfl
  have shown : ((at' 17).machine.world.devices[1]?.any fun δ =>
      δ.board.interrupts.isEmpty ∧ δ.scheduler.capacity = 1) = true := by decide +kernel
  obtain ⟨δ, found, shown⟩ := (Option.any_eq_true _ _).1 shown
  obtain ⟨calm, capacity⟩ := of_decide_eq_true shown
  have taken : (at' 17).machine.world.marks 1 0 = true := by decide +kernel
  obtain ⟨indices, -, -, pools⟩ := indices_inside t
  obtain ⟨-, search⟩ := pools _ m 0 rfl (by decide) 1 δ none [] found
  obtain ⟨decides, ends⟩ := search top
  obtain ⟨y, a, r, answered⟩ := ends (List.isEmpty_iff.1 calm)
  have beyond : a = .outOfBounds := by
    refine (decides y a r answered).2 ⟨by rw [capacity]; decide, fun i _ bound => ?_⟩
    obtain rfl : i = 0 := by omega
    exact taken
  subst beyond
  exact ⟨at' 17, y, δ, noted', t, m, top, found, (indices 1 δ found).1, r, answered⟩

end Moment

end TimedTasks
