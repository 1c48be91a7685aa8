import TimedTasks.Proofs.Slots
import TimedTasks.Proofs.Within

/-!
# Where the slots of a pool lie

A pool remembers the index of its first slot and not the scheduler on which that index means anything: that a pool is
used on the scheduler where its slots lie is left to the clients (`Machine.AtHome`). As long as they keep to it, all
slots that are about to be handed out are slots of pools (`Moment.claims_pooled`).
-/

namespace TimedTasks

namespace Payload

/-- The segment that bytes are copied into. -/
def segment? : Payload → Option Segment
  | attached _ => none
  | copied segment _ => some segment

/-- A slot without bytes still has its segment. -/
@[simp] theorem segment?_emptied (p : Payload) : p.emptied.segment? = p.segment? := by
  cases p <;> rfl

end Payload

/-- The slot belongs to a pool, and its bytes are in the segment. -/
def Task.LiesIn (t : Task) (segment : Segment) : Prop := t.pooled ∧ t.payload.segment? = some segment

instance (t : Task) (segment : Segment) : Decidable (t.LiesIn segment) := inferInstanceAs (Decidable (_ ∧ _))

/-- If pool `k` has its slots already, they lie on device `d`. -/
def World.Lies (w : World) (k d : Nat) : Prop :=
  ∀ p ∈ w.pools[k]?, ∀ first ∈ p.first, ∀ j < p.slots,
    ∃ δ ∈ w.devices[d]?, ∃ t ∈ δ.scheduler.arena[first + j]?, t.LiesIn ⟨k, j * p.slotSize, p.slotSize⟩

instance (w : World) (k d : Nat) : Decidable (w.Lies k d) :=
  inferInstanceAs (Decidable (∀ p ∈ w.pools[k]?, ∀ first ∈ p.first, ∀ j < p.slots,
    ∃ δ ∈ w.devices[d]?, ∃ t ∈ δ.scheduler.arena[first + j]?, t.LiesIn ⟨k, j * p.slotSize, p.slotSize⟩))

namespace Act

/-- The pool that the act is to find the slots of. -/
def draws : Act → Option Nat
  | perform _ (.alloc k) | locked (.enroll k) => some k
  | _ => none

/-- The slots that the act is to take one of: the first, and how many. -/
def claims : Act → Option (Nat × Nat)
  | claiming i left => some (i, left)
  | locked (.claim i left) => some (i, left + 1)
  | _ => none

end Act

/-- A pool is used only on the device where its slots lie, if it has any yet. -/
def Machine.AtHome (m : Machine) : Prop := ∀ f ∈ m.stack.head?, ∀ k ∈ f.act.draws, m.world.Lies k f.device

instance (m : Machine) : Decidable m.AtHome :=
  inferInstanceAs (Decidable (∀ f ∈ m.stack.head?, ∀ k ∈ f.act.draws, m.world.Lies k f.device))

/-! ## Belonging to a pool -/

namespace Task

variable (t : Task)

@[simp] theorem state_giveBack : t.giveBack.state = t.state := by
  unfold giveBack; split <;> rfl

@[simp] theorem pooled_giveBack : t.giveBack.pooled = t.pooled := by
  unfold giveBack; split <;> rfl

@[simp] theorem pooled_stop : t.stop.pooled = t.pooled := by
  unfold stop; split <;> simp

@[simp] theorem pooled_settle : t.settle.pooled = t.pooled := by
  unfold settle; split <;> simp

/-- The end of a session takes no slot out of its pool. -/
@[simp] theorem pooled_retire (queued declared : Bool) : (t.retire queued declared).pooled = t.pooled := by
  cases queued <;> cases declared <;> simp [retire, unconfigure]

end Task

/-- A slot of a pool stays one. -/
theorem Becomes.pooled {ps : Pools} {σ : Scheduler} {now : UInt32} {i : Nat} {act : Act} {t t' : Task}
    (b : Becomes ps σ now i act t t') (h : t.pooled) : t'.pooled := by
  cases b <;> simp_all [Task.withLength, Task.start, Task.beginAt, Task.configure, Task.handOut, Task.enroll]

/-- What happens to a machine makes of each slot of each device what the step of some act can make of it. -/
theorem Machine.Turn.slots {m m' : Machine} (t : m.Turn m') {d : Nat} {δ : Device} (h : m.world.devices[d]? = some δ) :
    ∃ δ', m'.world.devices[d]? = some δ' ∧ ∃ act, ∀ i : Nat,
      Option.Rel (Becomes m.world.pools δ.scheduler δ.board.clock i act) δ.scheduler.arena[i]? δ'.scheduler.arena[i]? := by
  have idle : m'.world.devices[d]? = m.world.devices[d]? → ∃ δ', m'.world.devices[d]? = some δ' ∧ ∃ act, ∀ i : Nat,
      Option.Rel (Becomes m.world.pools δ.scheduler δ.board.clock i act) δ.scheduler.arena[i]?
        δ'.scheduler.arena[i]? :=
    fun same => ⟨δ, same.trans h, .round, fun _ => rel_self fun _ _ => .same⟩
  cases t with
  | works e act rest δ' s top found l takes =>
    by_cases here : e = d
    · subst here
      cases found.symm.trans h
      exact ⟨s.device, takes.device_same found, act, fun i => by rw [Stride.scheduler_device]; exact l.slots i⟩
    · exact idle (takes.device here)
  | delivers e e' ms act rest δ' s top found l takes =>
    by_cases here : e = d
    · subst here
      cases found.symm.trans h
      refine ⟨s.device, takes.device_same found, act, fun i => ?_⟩
      rw [Stride.scheduler_device]
      cases l <;> exact rel_self fun _ _ => .same
    · exact idle (takes.device here)
  | redirects e e' self op rest top world => exact idle (by rw [world])
  | answers e e' a act rest top _ alike => exact idle (by rw [alike.devices])
  | finishes e a top world => exact idle (by rw [world])
  | calls e op top world => exact idle (by rw [world])

/-- The `n` slots of device `d` from `i` on are slots of pools. -/
def World.Pooled (w : World) (d i n : Nat) : Prop :=
  ∀ j, i ≤ j → j < i + n → ∃ δ t, w.devices[d]? = some δ ∧ δ.scheduler.arena[j]? = some t ∧ t.pooled

/-- Only slots of pools are about to be handed out. -/
def Machine.Claims (m : Machine) : Prop :=
  ∀ f ∈ m.stack, ∀ i n, f.act.claims = some (i, n) → m.world.Pooled f.device i n

namespace World.Pooled

variable {w w' : World} {d i n : Nat}

/-- A part of a range of slots of a pool is such a range. -/
theorem sub (h : w.Pooled d i n) {i' n' : Nat} (first : i ≤ i') (last : i' + n' ≤ i + n) : w.Pooled d i' n' :=
  fun j lo hi => h j (by omega) (by omega)

/-- The slots of a pool on its device are slots of pools. -/
theorem of_lies {k first : Nat} {p : Pool} (h : w.Lies k d) (found : w.pools[k]? = some p)
    (bound : p.first = some first) : w.Pooled d first p.slots := by
  intro j lo hi
  obtain ⟨δ, hδ, t, ht, lies⟩ := h p found first bound (j - first) (by omega)
  rw [Nat.add_sub_cancel' lo] at ht
  exact ⟨δ, t, hδ, ht, lies.1⟩

/-- Slots of pools stay so, whatever happens. -/
theorem turn {m m' : Machine} (h : m.world.Pooled d i n) (t : m.Turn m') : m'.world.Pooled d i n := by
  intro j lo hi
  obtain ⟨δ, u, hδ, hu, pooled⟩ := h j lo hi
  obtain ⟨δ', hδ', act, slots⟩ := t.slots hδ
  have slot := slots j
  rw [hu] at slot
  generalize after : δ'.scheduler.arena[j]? = o at slot
  cases slot with
  | some b => exact ⟨δ', _, hδ', after, b.pooled pooled⟩

end World.Pooled

/-- What a call for a slot still has to look at is part of what it had. -/
theorem Leads.claims {w : World} {δ : Device} {act : Act} {s : Stride} (l : Leads w δ act s) (free : act.draws = none) :
    ∀ a ∈ s.frames, ∀ i n, a.claims = some (i, n) → ∃ i' n', act.claims = some (i', n') ∧ i' ≤ i ∧ i + n ≤ i' + n' := by
  cases l with
  | @claimedMeanwhile i left | @occupied i left =>
    intro a m i' n claims
    rw [List.mem_singleton.1 m] at claims
    cases claims
    exact ⟨i, left + 1, rfl, by omega, by omega⟩
  | claiming => simp [Stride.frames, Act.claims]
  | ask ask => cases ask <;> simp [Stride.frames, Act.claims]
  | alloc | enrolled => cases free
  | _ => simp [Stride.frames, Act.claims]

namespace World

variable {w : World} {d : Nat} {δ : Device} {move : Move}

/-- Looking for a free slot begins with the slots of the pool. -/
theorem claims_alloc {k : Nat} (h : w.alloc d δ k = .ok move) (lies : w.Lies k d) :
    ∀ f ∈ move.frames, ∀ i n, f.act.claims = some (i, n) → w.Pooled f.device i n := by
  obtain ⟨p, hp, h⟩ := bind_eq_ok.1 h
  split at h
  · rename_i first bound
    cases h
    intro f m i n claims
    rw [List.mem_singleton.1 m] at claims ⊢
    cases claims
    exact .of_lies lies (Pools.pool_eq_ok hp) bound
  · cases h
    simp [calling, leaving, Act.claims]

/-- Slots that were just reserved for a pool are slots of pools. -/
theorem claims_enroll {k : Nat} (found : w.devices[d]? = some δ) (h : w.enroll d δ k = .ok move) (lies : w.Lies k d) :
    ∀ f ∈ move.frames, ∀ i n, f.act.claims = some (i, n) → move.world.Pooled f.device i n := by
  obtain ⟨p, hp, h⟩ := bind_eq_ok.1 h
  obtain ⟨r, hr, h⟩ := bind_eq_ok.1 h
  have hp := Pools.pool_eq_ok hp
  cases r with
  | none =>
    cases h
    simp [log, answering, leaving, Act.claims]
  | some r =>
    obtain ⟨first, σ, ps⟩ := r
    cases h
    intro f m i n claims
    rw [List.mem_singleton.1 m] at claims ⊢
    cases claims
    have placed : ∀ τ : Scheduler, ({ w with pools := ps }.leaving d (δ.withScheduler τ)
        [.claiming first p.slots]).world.devices[d]? = some (δ.withScheduler τ) := by
      intro τ
      rw [leaving, devices_put, if_pos rfl]
      simp [found]
    obtain ⟨q, hq, ⟨bound, rfl, -⟩ | ⟨-, rfl, room, ⟨a, ha, rfl⟩, -⟩⟩ := Scheduler.enrollPool_eq_ok hr
    · cases hp.symm.trans hq
      intro j lo hi
      obtain ⟨δ', t, hδ, ht, pooled⟩ := Pooled.of_lies lies hp bound j lo hi
      cases found.symm.trans hδ
      exact ⟨_, t, placed _, ht, pooled⟩
    · cases hp.symm.trans hq
      intro j lo hi
      have old : j < δ.scheduler.arena.size := by omega
      refine ⟨_, δ.scheduler.arena[j].enroll ⟨k, (j - δ.scheduler.declared) * p.slotSize, p.slotSize⟩, placed _, ?_, rfl⟩
      rw [show (δ.withScheduler _).scheduler.arena[j]? = a[j]? from rfl, Arena.getElem?_enrollSlots ha,
        if_pos ⟨lo, hi⟩]
      simp [old]

end World

namespace Machine

variable {m m' : Machine}

/-- A step leaves calls for slots among slots of pools, as long as clients use pools where they belong. -/
theorem Claims.next (h : m.Claims) (next : m.Next m') (home : m.AtHome) : m'.Claims := by
  have turn := next.turn
  -- Frames that stay keep their slots, so only new frames count.
  have new : ∀ (frames rest : List Frame), m'.stack = frames ++ rest → (∀ f ∈ rest, f ∈ m.stack) →
      (∀ f ∈ frames, ∀ i n, f.act.claims = some (i, n) → m'.world.Pooled f.device i n) → m'.Claims := by
    intro frames rest stack old new f hf i n claims
    rw [stack, List.mem_append] at hf
    exact hf.elim (fun hf => new f hf i n claims) fun hf => (h f (old f hf) i n claims).turn turn
  cases turn with
  | works d act rest δ s top found l takes =>
    by_cases draws : act.draws = none
    · refine new _ _ takes.stack (fun f hf => top ▸ List.mem_cons_of_mem _ hf) fun f hf i n claims => ?_
      obtain ⟨a, ha, rfl⟩ := List.mem_map.1 hf
      obtain ⟨i', n', own, first, last⟩ := l.claims draws a ha i n claims
      exact ((h ⟨d, act⟩ (top ▸ List.mem_cons_self) i' n' own).turn next.turn).sub first last
    · obtain ⟨k, draws⟩ := Option.ne_none_iff_exists'.1 draws
      have lies := home ⟨d, act⟩ (by simp [top]) k draws
      obtain ⟨δ', move, found, moved, rfl⟩ := next.moves top (by rintro a rfl; cases draws) (by rintro ms rfl; cases draws)
      refine new _ _ rfl (fun f hf => top ▸ List.mem_cons_of_mem _ hf) ?_
      cases act with
      | perform self op =>
        cases op <;> cases draws
        intro f hf i n claims
        exact (World.claims_alloc moved lies f hf i n claims).turn next.turn
      | locked s =>
        cases s <;> cases draws
        exact World.claims_enroll found moved lies
      | _ => cases draws
  | delivers d e ms act rest δ s top found l takes =>
    refine new _ _ takes.stack (fun f hf => top ▸ List.mem_cons_of_mem _ (List.mem_cons_of_mem _ hf)) fun f hf i n claims => ?_
    obtain ⟨a, ha, rfl⟩ := List.mem_map.1 hf
    cases l <;> simp [Stride.frames] at ha
    · subst ha; cases claims
    · subst ha; cases claims
    · rcases ha with rfl | rfl | rfl <;> cases claims
    · subst ha; cases claims
  | redirects d e self op rest top _ top' =>
    refine new [⟨e, .perform self op⟩] _ top' (fun f hf => top ▸ List.mem_cons_of_mem _ hf) ?_
    simp [Act.claims]
  | answers d e a act rest top _ _ top' =>
    exact new [] _ top' (fun f hf => top ▸ List.mem_cons_of_mem _ (List.mem_cons_of_mem _ hf)) (by simp)
  | finishes d a top _ top' => exact new [] [] top' (by simp) (by simp)
  | calls d op top _ top' =>
    refine new [⟨d, .perform none op⟩] [] top' (by simp) ?_
    simp [Act.claims]

end Machine

namespace Moment

variable {P : Moment → Prop} {s : Setup} {y : Moment}

/-- As long as pools are used where their slots lie, only slots of pools are about to be handed out. -/
theorem claims_pooled (r : Run P (initial s) y) (home : ∀ z, P z → z.machine.AtHome) : y.machine.Claims :=
  r.invariant (I := fun y => y.machine.Claims) (by simp [Machine.Claims, initial])
    fun _ _ h p next _ => h.next next.machine (home _ p)

end Moment

end TimedTasks
