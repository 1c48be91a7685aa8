import TimedTasks.Proofs.Beside
import TimedTasks.Proofs.Blank

/-!
# What a scheduler is furnished with

Slots are handed out one at a time, or as many as a pool has. A list of such reservations is kept beside the run
(`Moment.reserve`). What outlives the sessions of a scheduler is at any time just what these reservations make of a new
one (`Moment.furnished`), and the bytes of the pools among them are seen from no other scheduler.
-/

namespace TimedTasks

/-- The slots that are handed out at a time. -/
inductive Reservation
  | single
  /-- All slots of a pool. -/
  | pool (k : Nat)
  deriving DecidableEq, Repr

/-- Carries out a reservation, if there is room for it. -/
def Reservation.carryOut : Reservation → Scheduler × Pools → Option (Scheduler × Pools)
  | single, (σ, ps) => (σ.takeSlots 1).map fun r => (r.2, ps)
  | pool k, (σ, ps) =>
    match σ.enrollPool ps k with
    | .ok (some (_, σ, ps)) => some (σ, ps)
    | _ => none

/-- Carries out reservations one after the other. -/
def furnish (σ : Scheduler) (ps : Pools) (l : List Reservation) : Option (Scheduler × Pools) :=
  l.foldlM (fun furnished r => r.carryOut furnished) (σ, ps)

/-- The reservation that an act is about to make. -/
def World.reserves (w : World) (δ : Device) : Act → Option Reservation
  | .locked .declare => (δ.scheduler.takeSlots 1).map fun _ => .single
  | .locked (.enroll k) =>
    w.pools[k]?.bind fun p => if p.first = none then (δ.scheduler.takeSlots p.slots).map fun _ => .pool k else none
  | _ => none

/-- The reservations on device `d` after the next step. -/
def Moment.reserve (d : Nat) (x : Moment) (l : List Reservation) : List Reservation :=
  match x.machine.stack with
  | ⟨e, act⟩ :: _ =>
    if e = d then l ++ (x.machine.world.devices[d]?.bind fun δ => x.machine.world.reserves δ act).toList else l
  | [] => l

/-! ## Pools -/

/-- Pools that differ in their bytes at most. -/
structure Pool.Alike (p q : Pool) : Prop where
  slots : q.slots = p.slots
  slotSize : q.slotSize = p.slotSize
  first : q.first = p.first
  length : q.storage.length = p.storage.length

namespace Pool

variable {p q : Pool}

theorem Alike.refl (p : Pool) : p.Alike p := ⟨rfl, rfl, rfl, rfl⟩

/-- A write leaves a pool alike: the same slots and as many bytes. -/
theorem alike_of_write? {offset : Nat} {data : List UInt8} (h : p.write? offset data = some q) : p.Alike q := by
  unfold write? at h
  split at h
  · rename_i room
    cases h
    refine ⟨rfl, rfl, rfl, ?_⟩
    simp only [List.length_append, List.length_take, List.length_drop]
    omega
  · cases h

end Pool

/-- The same pools, but for their bytes. -/
def Pools.Alike (ps qs : Pools) : Prop := ∀ k : Nat, Option.Rel Pool.Alike ps[k]? qs[k]?

namespace Pools

variable {ps qs : Pools}

theorem Alike.refl (ps : Pools) : ps.Alike ps := fun k => by
  cases ps[k]? with
  | none => exact .none
  | some p => exact .some (.refl p)

/-- So does a copy to its pools. -/
theorem alike_of_copy {segment : Segment} {data : List UInt8} {kept : Nat} (h : ps.copy segment data = .ok (kept, qs)) :
    ps.Alike qs := by
  obtain ⟨-, p, q, found, written, rfl⟩ := copy_eq_ok h
  intro k
  rw [Array.getElem?_setIfInBounds]
  by_cases same : segment.pool = k
  · subst same
    rw [if_pos rfl, if_pos (Array.getElem?_eq_some_iff.1 found).1, found]
    exact .some (Pool.alike_of_write? written)
  · rw [if_neg same]
    exact Alike.refl ps k

/-- Wiping a segment copies zeros to all of it. -/
theorem wipe_eq_ok {p : Payload} (h : ps.wipe p = .ok qs) : (∃ bytes, p = .attached bytes) ∧ qs = ps ∨
    ∃ segment length kept, p = .copied segment length ∧
      ps.copy segment (List.replicate segment.size 0) = .ok (kept, qs) := by
  cases p with
  | attached bytes => cases h; exact .inl ⟨⟨bytes, rfl⟩, rfl⟩
  | copied segment length =>
    obtain ⟨⟨kept, rs⟩, copied, rfl⟩ := map_eq_ok.1 h
    exact .inr ⟨segment, length, kept, rfl, copied⟩

/-- And a wipe. -/
theorem alike_of_wipe {p : Payload} (h : ps.wipe p = .ok qs) : ps.Alike qs := by
  obtain ⟨-, rfl⟩ | ⟨segment, length, kept, -, copied⟩ := wipe_eq_ok h
  · exact .refl _
  · exact alike_of_copy copied

end Pools

/-- Whether bytes are wiped when a slot is handed out depends on the build. -/
theorem World.wiped_eq_ok {w : World} {p : Payload} {ps : Pools} (h : w.wiped p = .ok ps) :
    w.wipes = false ∧ ps = w.pools ∨ w.wipes = true ∧ w.pools.wipe p = .ok ps := by
  unfold wiped at h
  split at h
  · rename_i wipes
    exact .inr ⟨wipes, h⟩
  · rename_i keeps
    cases h
    exact .inl ⟨by simpa using keeps, rfl⟩

/-- The act is to copy bytes into a slot, or to attach them to it. -/
def Act.fills : Act → Bool
  | locked (.attach ..) | locked (.write ..) => true
  | _ => false

/-- The act can change pools. -/
def Act.stirs : Act → Bool
  | locked (.attach ..) | locked (.write ..) | locked (.enroll _) | locked (.claim ..) => true
  | _ => false

/-- Who leaves the stores alone fills no segment. -/
theorem Act.fills_of_not_stirs {act : Act} (h : act.stirs = false) : act.fills = false := by
  cases act with
  | locked s => cases s <;> first | rfl | cases h
  | _ => rfl

namespace World

variable {w : World} {d : Nat} {δ : Device} {move : Move} {act : Act}

/-- No answer changes a pool. -/
theorem takeAnswer_pools {a : Answer} (h : w.takeAnswer d δ a act = .ok move) : move.world.pools = w.pools := by
  cases act with
  | report op => cases h; rfl
  | discard => cases h; rfl
  | _ => cases h

/-- Nor does a deadline. -/
theorem takeDeadline_pools {ms : Option UInt32} (h : w.takeDeadline d δ ms act = .ok move) :
    move.world.pools = w.pools := by
  cases act with
  | round => cases h; rfl
  | ticking => cases h; rfl
  | running =>
    simp only [takeDeadline] at h
    split at h
    · cases h
      unfold sleep
      split <;> rfl
    · cases h
      rfl
  | _ => cases h

/-- Few steps change pools at all. -/
theorem step_keeps_pools (h : w.step d δ act = .ok move) (no : act.stirs = false) : move.world.pools = w.pools := by
  cases silent : act.silent with
  | true => exact (step_leaves_beside silent h).1
  | false =>
    cases act with
    | perform self op =>
      cases op with
      | init =>
        cases h
        unfold openSession
        split
        · split <;> rfl
        · rfl
      | run =>
        cases h
        unfold World.run
        split
        · rfl
        · split <;> rfl
      | alloc k | pool k =>
        obtain ⟨p, -, h⟩ := bind_eq_ok.1 h
        split at h <;> cases h <;> rfl
      | _ => cases silent
    | interrupts call bodies =>
      cases bodies with
      | nil => cases silent
      | cons body bodies => cases h; rfl
    | locked s =>
      cases s with
      | attach | write | enroll | claim => cases no
      | beginSession =>
        obtain ⟨σ, -, h⟩ := bind_eq_ok.1 h
        cases h
        rfl
      | fetch i =>
        obtain ⟨t, -, h⟩ := bind_eq_ok.1 h
        split at h
        · cases h; rfl
        · obtain ⟨bytes, -, h⟩ := bind_eq_ok.1 h
          rw [← Except.ok.inj h]
          show (World.invoke _ _).2.pools = _
          unfold World.invoke
          split <;> rfl
      | endSession =>
        obtain ⟨⟨count, σ⟩, -, h⟩ := bind_eq_ok.1 h
        cases h
        unfold closeSession
        split <;> rfl
      | sessionOver count => cases h; rfl
      | _ => cases silent
    | _ => cases silent

/-- Only the reservation of a pool changes more of a pool than its bytes. -/
theorem step_pools (h : w.step d δ act = .ok move) (other : ∀ k, act ≠ .locked (.enroll k)) :
    w.pools.Alike move.world.pools := by
  by_cases stirs : act.stirs = true
  · cases act with
    | locked s =>
      cases s with
      | attach i data =>
        obtain ⟨r, attached, h⟩ := bind_eq_ok.1 h
        rcases r with _ | ⟨σ, ps⟩
        · cases h; exact .refl _
        · cases h
          obtain ⟨t, -, attached⟩ := bind_eq_ok.1 attached
          split at attached
          · split at attached
            · obtain ⟨τ, -, attached⟩ := bind_eq_ok.1 attached
              cases attached
              exact .refl _
            · obtain ⟨⟨kept, qs⟩, copied, attached⟩ := bind_eq_ok.1 attached
              obtain ⟨τ, -, attached⟩ := bind_eq_ok.1 attached
              cases attached
              exact Pools.alike_of_copy copied
          · cases attached
      | write i data =>
        obtain ⟨r, written, h⟩ := bind_eq_ok.1 h
        rcases r with _ | ⟨kept, σ, ps⟩
        · cases h; exact .refl _
        · cases h
          obtain ⟨t, -, written⟩ := bind_eq_ok.1 written
          split at written
          · split at written
            · cases written
            · obtain ⟨⟨kept', qs⟩, copied, written⟩ := bind_eq_ok.1 written
              obtain ⟨τ, -, written⟩ := bind_eq_ok.1 written
              cases written
              exact Pools.alike_of_copy copied
          · cases written
      | enroll k => exact absurd rfl (other k)
      | claim i left =>
        obtain ⟨t, -, ⟨-, rfl⟩ | ⟨-, σ, ps, -, wiped, rfl⟩⟩ := claim_eq_ok h
        · exact .refl _
        · obtain ⟨-, rfl⟩ | ⟨-, wipe⟩ := wiped_eq_ok wiped
          · exact .refl _
          · exact Pools.alike_of_wipe wipe
      | _ => cases stirs
    | _ => cases stirs
  · exact step_keeps_pools h (by simpa using stirs) ▸ .refl _

end World

/-! ## Reservations on a blank scheduler -/

namespace Arena

/-- A change that goes along with a change of all slots. -/
theorem alter_map {a b : Arena} {f g : Task → Task} {i : Nat} (h : a.alter i g = .ok b) (same : ∀ t, g (f t) = f (g t)) :
    Arena.alter (a.map f) i g = .ok (b.map f) := by
  obtain ⟨bound, rfl⟩ := alter_eq_ok_iff.1 h
  refine alter_eq_ok_iff.2 ⟨by simpa using bound, ?_⟩
  rw [Array.map_set, Array.getElem_map, same]

end Arena

namespace Scheduler

variable {σ σ' : Scheduler} {ps qs : Pools} {k : Nat}

theorem size_enrollSlots {a b : Arena} {size first count : Nat} (h : enrollSlots a k size first count = .ok b) :
    b.size = a.size := by
  induction count generalizing b with
  | zero => cases h; rfl
  | succ count ih =>
    obtain ⟨c, hc, hb⟩ := bind_eq_ok.1 h
    rw [Arena.size_alter hb, ih hc]

/-- Blank slots become slots of a pool as others do. -/
theorem enrollSlots_blank {a b : Arena} {size first count : Nat} (h : enrollSlots a k size first count = .ok b) :
    enrollSlots (a.map Task.unconfigure) k size first count = .ok (b.map Task.unconfigure) := by
  induction count generalizing b with
  | zero => cases h; rfl
  | succ count ih =>
    obtain ⟨c, hc, hb⟩ := bind_eq_ok.1 h
    refine bind_eq_ok.2 ⟨_, ih hc, Arena.alter_map hb fun t => ?_⟩
    simp [Task.unconfigure, Task.enroll, Payload.emptied, Task.fresh]

/-- A pool is furnished on a blank scheduler as it is on one in use. -/
theorem carryOut_pool {p : Pool} {a : Arena} (room : σ.declared + p.slots ≤ σ.arena.size)
    (made : enrollSlots σ.arena k p.slotSize σ.declared p.slots = .ok a)
    (unbound : qs[k]? = some (.unbound p.slots p.slotSize)) :
    (Reservation.pool k).carryOut (σ.blank, qs) = some
      (({ σ with declared := σ.declared + p.slots, arena := a } : Scheduler).blank,
        qs.setIfInBounds k { Pool.unbound p.slots p.slotSize with first := some σ.declared }) := by
  have enrolled : σ.blank.enrollPool qs k = .ok (some (σ.declared,
      ({ σ with declared := σ.declared + p.slots, arena := a } : Scheduler).blank,
        qs.setIfInBounds k { Pool.unbound p.slots p.slotSize with first := some σ.declared })) := by
    have taken : σ.blank.takeSlots p.slots = some (σ.declared, { σ.blank with declared := σ.declared + p.slots }) := by
      rw [takeSlots, if_pos (by simpa [blank, capacity] using room)]
      rfl
    unfold enrollPool
    rw [show qs.pool k = .ok (Pool.unbound p.slots p.slotSize) by rw [Pools.pool, unbound]]
    simp only [bind, Except.bind, Pool.unbound, taken]
    refine bind_eq_ok.2 ⟨_, enrollSlots_blank made, rfl⟩
  rw [Reservation.carryOut, enrolled]

/-- A slot that is handed out alone is one reservation. -/
theorem carryOut_single {first : Nat} (h : σ.takeSlots 1 = some (first, σ')) :
    Reservation.single.carryOut (σ.blank, qs) = some (σ'.blank, qs) := by
  obtain ⟨-, room, rfl⟩ := takeSlots_slots h
  have taken : σ.blank.takeSlots 1 = some (σ.declared, { σ.blank with declared := σ.declared + 1 }) := by
    rw [takeSlots, if_pos (by simpa [blank, capacity] using room)]
    rfl
  rw [Reservation.carryOut, taken]
  rfl

end Scheduler

/-! ## Furnished schedulers -/

/-- The pool with its bytes as they were at first. -/
def Pool.cleared (p : Pool) : Pool := { p with storage := List.replicate (p.slots * p.slotSize) 0 }

theorem Pool.Alike.cleared {p q : Pool} (h : p.Alike q) : q.cleared = p.cleared := by
  rcases p with ⟨slots, slotSize, storage, first⟩
  rcases q with ⟨slots', slotSize', storage', first'⟩
  cases h.slots
  cases h.slotSize
  cases h.first
  rfl

/-- What the reservations on device `d` make of a new scheduler, with pools as they were at first, is what outlives the
sessions of the scheduler there. -/
structure Furnished (init : Pools) (d : Nat) (w : World) (l : List Reservation) : Prop where
  made : ∀ δ, w.devices[d]? = some δ → ∃ ps, furnish (.fresh δ.scheduler.capacity) init l = some (δ.scheduler.blank, ps) ∧
    ∀ k : Nat, ps[k]? = w.pools[k]?.map fun p => if .pool k ∈ l then p.cleared else .unbound p.slots p.slotSize
  length : ∀ (k : Nat) (p : Pool), w.pools[k]? = some p → p.storage.length = p.slots * p.slotSize
  bound : ∀ k, .pool k ∈ l → ∃ p ∈ w.pools[k]?, p.first.isSome
  /-- The bytes of a slot lie in a pool that is in use, on this device if it is one of those. -/
  home : ∀ (e : Nat) (δ : Device), w.devices[e]? = some δ → ∀ (i : Nat) (t : Task) (segment : Segment),
    δ.scheduler.arena[i]? = some t → t.payload.segment? = some segment →
    (∃ p ∈ w.pools[segment.pool]?, p.first.isSome) ∧ (.pool segment.pool ∈ l → e = d)

namespace Furnished

variable {init : Pools} {d : Nat} {w w' : World} {l : List Reservation}

/-- Nothing is reserved, and of a pool at most the bytes change. -/
theorem alike (h : Furnished init d w l) (pools : w.pools.Alike w'.pools)
    (blank : ∀ δ', w'.devices[d]? = some δ' → ∃ δ, w.devices[d]? = some δ ∧ δ'.scheduler.blank = δ.scheduler.blank)
    (segments : ∀ (e : Nat) (δ' : Device), w'.devices[e]? = some δ' → ∃ δ, w.devices[e]? = some δ ∧
      ∀ (i : Nat) (t' : Task), δ'.scheduler.arena[i]? = some t' → ∃ t, δ.scheduler.arena[i]? = some t ∧
        t'.payload.segment? = t.payload.segment?) : Furnished init d w' l := by
  have earlier : ∀ {k : Nat} {q : Pool}, w'.pools[k]? = some q → ∃ p, w.pools[k]? = some p ∧ p.Alike q := by
    intro k q hq
    have alike := pools k
    rw [hq] at alike
    generalize old : w.pools[k]? = o at alike
    cases alike with
    | some alike => exact ⟨_, rfl, alike⟩
  have later : ∀ {k : Nat}, (∃ p ∈ w.pools[k]?, p.first.isSome) → ∃ q ∈ w'.pools[k]?, q.first.isSome := by
    rintro k ⟨p, hp, first⟩
    have alike := pools k
    rw [hp] at alike
    generalize new : w'.pools[k]? = o at alike
    cases alike with
    | some alike => exact ⟨_, rfl, alike.first ▸ first⟩
  refine ⟨fun δ' hδ' => ?_, fun k q hq => ?_, fun k m => later (h.bound k m), fun e δ' hδ' i t' segment found seg => ?_⟩
  · obtain ⟨δ, hδ, same⟩ := blank δ' hδ'
    obtain ⟨ps, made, shown⟩ := h.made δ hδ
    have capacity : δ'.scheduler.capacity = δ.scheduler.capacity := by
      have size := congrArg (fun σ : Scheduler => σ.arena.size) same
      simpa [Scheduler.blank, Scheduler.capacity] using size
    refine ⟨ps, by rw [capacity, same]; exact made, fun k => (shown k).trans ?_⟩
    have alike := pools k
    generalize w.pools[k]? = o at alike
    generalize w'.pools[k]? = o' at alike
    cases alike with
    | none => rfl
    | some alike =>
      simp only [Option.map_some, alike.cleared, alike.slots, alike.slotSize]
  · obtain ⟨p, hp, alike⟩ := earlier hq
    rw [alike.length, alike.slots, alike.slotSize, h.length k p hp]
  · obtain ⟨δ, hδ, slots⟩ := segments e δ' hδ'
    obtain ⟨t, ht, same⟩ := slots i t' found
    obtain ⟨bound, here⟩ := h.home e δ hδ i t segment ht (same ▸ seg)
    exact ⟨later bound, here⟩

/-- The last reservation comes on top of what the others made. -/
theorem furnish_append {σ : Scheduler} {ps : Pools} {r : Reservation} :
    furnish σ ps (l ++ [r]) = (furnish σ ps l).bind r.carryOut := by
  simp [furnish, List.foldlM_append]

/-- A slot is handed out. -/
theorem single (h : Furnished init d w l) {δ : Device} {first : Nat} {σ : Scheduler} (found : w.devices[d]? = some δ)
    (taken : δ.scheduler.takeSlots 1 = some (first, σ)) (devices : w'.devices = w.devices.setIfInBounds d (δ.withScheduler σ))
    (pools : w'.pools = w.pools) : Furnished init d w' (l ++ [.single]) := by
  have bound : d < w.devices.size := (Array.getElem?_eq_some_iff.1 found).1
  obtain ⟨-, -, rfl⟩ := Scheduler.takeSlots_slots taken
  have none : ∀ {k : Nat}, Reservation.pool k ∈ l ++ [.single] ↔ .pool k ∈ l := by simp
  constructor
  · intro δ' hδ'
    rw [devices, Array.getElem?_setIfInBounds, if_pos rfl, if_pos bound] at hδ'
    cases hδ'
    obtain ⟨ps, made, shown⟩ := h.made δ found
    refine ⟨ps, ?_, fun k => by simp only [pools, none]; exact shown k⟩
    rw [furnish_append]
    refine (congrArg (Option.bind · _) made).trans ?_
    exact Scheduler.carryOut_single taken
  · rw [pools]; exact h.length
  · intro k m
    rw [pools]
    exact h.bound k (none.1 m)
  · intro e δ' hδ' i t segment ht seg
    rw [pools, none]
    rw [devices, Array.getElem?_setIfInBounds] at hδ'
    split at hδ'
    · rename_i here
      subst here
      cases hδ'
      exact h.home _ δ found i t segment ht seg
    · exact h.home e δ' hδ' i t segment ht seg

/-- The slots of a pool are handed out, here or on another device. -/
theorem pool (h : Furnished init d w l) {e k : Nat} {δ : Device} {p : Pool} {a : Arena} (found : w.devices[e]? = some δ)
    (hp : w.pools[k]? = some p) (unbound : p.first = none)
    (room : δ.scheduler.declared + p.slots ≤ δ.scheduler.arena.size)
    (made : Scheduler.enrollSlots δ.scheduler.arena k p.slotSize δ.scheduler.declared p.slots = .ok a)
    (devices : w'.devices = w.devices.setIfInBounds e
      (δ.withScheduler { δ.scheduler with declared := δ.scheduler.declared + p.slots, arena := a }))
    (pools : w'.pools = w.pools.setIfInBounds k { p with first := some δ.scheduler.declared }) :
    Furnished init d w' (l ++ if e = d then [.pool k] else []) := by
  have inside : e < w.devices.size := (Array.getElem?_eq_some_iff.1 found).1
  have kept : k < w.pools.size := (Array.getElem?_eq_some_iff.1 hp).1
  have new : w'.pools[k]? = some { p with first := some δ.scheduler.declared } := by
    rw [pools, Array.getElem?_setIfInBounds, if_pos rfl, if_pos kept]
  have old : ∀ {j : Nat}, j ≠ k → w'.pools[j]? = w.pools[j]? := fun other => by
    rw [pools, Array.getElem?_setIfInBounds, if_neg (Ne.symm other)]
  have free : Reservation.pool k ∉ l := fun m => by
    obtain ⟨q, hq, first⟩ := h.bound k m
    cases hp.symm.trans hq
    rw [unbound] at first
    cases first
  have mem : ∀ {j : Nat}, Reservation.pool j ∈ l ++ (if e = d then [.pool k] else []) ↔
      .pool j ∈ l ∨ (e = d ∧ j = k) := by
    intro j
    by_cases here : e = d <;> simp [here]
  have usable : ∀ {j : Nat}, (∃ q ∈ w.pools[j]?, q.first.isSome) → ∃ q ∈ w'.pools[j]?, q.first.isSome := by
    rintro j ⟨q, hq, first⟩
    by_cases same : j = k
    · subst same
      exact ⟨_, new, rfl⟩
    · exact ⟨q, (old same).trans hq, first⟩
  constructor
  · intro δ' hδ'
    rw [devices, Array.getElem?_setIfInBounds] at hδ'
    by_cases here : e = d
    · subst here
      rw [if_pos rfl, if_pos inside] at hδ'
      cases hδ'
      obtain ⟨ps, before, shown⟩ := h.made δ found
      have virgin : ps[k]? = some (.unbound p.slots p.slotSize) := by rw [shown k, hp, Option.map_some, if_neg free]
      have size : a.size = δ.scheduler.arena.size := Scheduler.size_enrollSlots made
      refine ⟨ps.setIfInBounds k { Pool.unbound p.slots p.slotSize with first := some δ.scheduler.declared }, ?_,
        fun j => ?_⟩
      · rw [if_pos rfl, furnish_append]
        refine (congrArg (Option.bind · _) (show _ = some (δ.scheduler.blank, ps) from ?_)).trans
          (Scheduler.carryOut_pool room made virgin)
        rw [← before]
        exact congrArg (fun n => furnish (.fresh n) init l) size
      · rw [Array.getElem?_setIfInBounds]
        by_cases same : k = j
        · subst same
          rw [if_pos rfl, if_pos (Array.getElem?_eq_some_iff.1 virgin).1, new, Option.map_some,
            if_pos (mem.2 (.inr ⟨rfl, rfl⟩))]
          rfl
        · have others : Reservation.pool j ∈ l ++ (if e = e then [.pool k] else []) ↔ .pool j ∈ l := by
            rw [mem]
            exact or_iff_left fun both => same both.2.symm
          rw [if_neg same, shown j, old (Ne.symm same)]
          refine congrArg (fun f => Option.map f _) (funext fun q => ?_)
          by_cases m : Reservation.pool j ∈ l
          · rw [if_pos m, if_pos (others.2 m)]
          · rw [if_neg m, if_neg (mt others.1 m)]
    · rw [if_neg here] at hδ'
      obtain ⟨ps, before, shown⟩ := h.made δ' hδ'
      refine ⟨ps, by rw [if_neg here, List.append_nil]; exact before, fun j => (shown j).trans ?_⟩
      rw [if_neg here, List.append_nil]
      by_cases same : j = k
      · subst same
        rw [hp, new, Option.map_some, Option.map_some, if_neg free, if_neg free]
      · rw [old same]
  · intro j q hq
    by_cases same : j = k
    · subst same
      cases new.symm.trans hq
      exact h.length j p hp
    · exact h.length j q ((old same).symm.trans hq)
  · intro j m
    rcases mem.1 m with m | ⟨-, rfl⟩
    · exact usable (h.bound j m)
    · exact ⟨_, new, rfl⟩
  · intro e' δ' hδ' i t segment ht seg
    -- A slot whose bytes lay somewhere before has them where they were, and not in this pool.
    have before : ∀ {δ₀ : Device}, w.devices[e']? = some δ₀ → δ₀.scheduler.arena[i]? = some t →
        (∃ q ∈ w'.pools[segment.pool]?, q.first.isSome) ∧
          (Reservation.pool segment.pool ∈ l ++ (if e = d then [.pool k] else []) → e' = d) := by
      intro δ₀ hδ₀ ht
      obtain ⟨⟨q, hq, first⟩, here⟩ := h.home e' δ₀ hδ₀ i t segment ht seg
      refine ⟨usable ⟨q, hq, first⟩, fun m => (mem.1 m).elim here fun both => ?_⟩
      rw [both.2, Option.mem_def, hp] at hq
      cases hq
      rw [unbound] at first
      cases first
    rw [devices, Array.getElem?_setIfInBounds] at hδ'
    by_cases here : e = e'
    · subst here
      rw [if_pos rfl, if_pos inside] at hδ'
      cases hδ'
      have ht : a[i]? = some t := ht
      rw [Arena.getElem?_enrollSlots made] at ht
      split at ht
      · obtain ⟨u, -, rfl⟩ := Option.map_eq_some_iff.1 ht
        cases seg
        exact ⟨⟨_, new, rfl⟩, fun m => (mem.1 m).elim (fun m => absurd m free) (·.1)⟩
      · exact before found ht
    · rw [if_neg here] at hδ'
      exact before hδ' ht

/-- A device works without handing out slots of a pool. -/
theorem works (h : Furnished init d w l) {e : Nat} {δ δ' : Device} (found : w.devices[e]? = some δ)
    (arena : δ'.scheduler.arena.map Task.unconfigure = δ.scheduler.arena.map Task.unconfigure)
    (blank : e = d → δ'.scheduler.blank = δ.scheduler.blank) (devices : w'.devices = w.devices.setIfInBounds e δ')
    (pools : w.pools.Alike w'.pools) : Furnished init d w' l := by
  have inside : e < w.devices.size := (Array.getElem?_eq_some_iff.1 found).1
  have here : w'.devices[e]? = some δ' := by rw [devices, Array.getElem?_setIfInBounds, if_pos rfl, if_pos inside]
  have other : ∀ {e' : Nat}, e ≠ e' → w'.devices[e']? = w.devices[e']? := fun away => by
    rw [devices, Array.getElem?_setIfInBounds, if_neg away]
  refine h.alike pools (fun δ₁ hδ₁ => ?_) fun e' δ₁ hδ₁ => ?_
  · by_cases same : e = d
    · subst same
      cases here.symm.trans hδ₁
      exact ⟨δ, found, blank rfl⟩
    · exact ⟨δ₁, (other same).symm.trans hδ₁, rfl⟩
  · by_cases same : e = e'
    · subst same
      cases here.symm.trans hδ₁
      refine ⟨δ, found, fun i t' ht' => ?_⟩
      have slot := congrArg (·[i]?) arena
      simp only [Array.getElem?_map, ht', Option.map_some] at slot
      obtain ⟨t, ht, same⟩ := Option.map_eq_some_iff.1 slot.symm
      have payload := congrArg (fun u : Task => u.payload.segment?) same
      exact ⟨t, ht, by simpa [Task.unconfigure] using payload.symm⟩
    · exact ⟨δ₁, (other same).symm.trans hδ₁, fun i t' ht' => ⟨t', ht', rfl⟩⟩

/-- Nothing happens to any device. -/
theorem idle (h : Furnished init d w l) (devices : w'.devices = w.devices) (pools : w'.pools = w.pools) :
    Furnished init d w' l := by
  refine h.alike (pools ▸ .refl _) (fun δ hδ => ⟨δ, devices ▸ hδ, rfl⟩) fun e δ hδ => ?_
  exact ⟨δ, devices ▸ hδ, fun i t ht => ⟨t, ht, rfl⟩⟩

end Furnished

namespace World

variable {w : World} {d e : Nat} {δ : Device} {move : Move} {init : Pools} {l : List Reservation}

/-- A declaration is noted as a reservation of its device. -/
theorem declare_furnished (h : Furnished init d w l) (found : w.devices[e]? = some δ)
    (step : w.step e δ (.locked .declare) = .ok move) :
    Furnished init d move.world (if e = d then l ++ (w.reserves δ (.locked .declare)).toList else l) := by
  have step : w.work e δ .declare = .ok move := step
  unfold work at step
  dsimp only at step
  split at step
  · rename_i full
    cases step
    have none : w.reserves δ (.locked .declare) = none := by simp [reserves, full]
    rw [none, Option.toList_none, List.append_nil, ite_self]
    exact h.idle (Machine.put_same found) rfl
  · rename_i first σ taken
    cases step
    have one : w.reserves δ (.locked .declare) = some .single := by simp [reserves, taken]
    by_cases here : e = d
    · subst here
      rw [if_pos rfl, one]
      exact h.single found taken rfl rfl
    · rw [if_neg here]
      obtain ⟨-, -, rfl⟩ := Scheduler.takeSlots_slots taken
      have devices : w.devices.setIfInBounds e (δ.withScheduler { δ.scheduler with declared := δ.scheduler.declared + 1 }) = _ :=
        rfl
      exact h.works found (by rfl) (fun same => absurd same here) devices.symm (.refl _)

/-- And so is a pool that is bound. -/
theorem enroll_furnished {k : Nat} (h : Furnished init d w l) (found : w.devices[e]? = some δ)
    (step : w.step e δ (.locked (.enroll k)) = .ok move) :
    Furnished init d move.world (if e = d then l ++ (w.reserves δ (.locked (.enroll k))).toList else l) := by
  obtain ⟨p, hp, step⟩ := bind_eq_ok.1 (show w.enroll e δ k = .ok move from step)
  obtain ⟨r, hr, step⟩ := bind_eq_ok.1 step
  have hp := Pools.pool_eq_ok hp
  have reserves : w.reserves δ (.locked (.enroll k)) =
      if p.first = none then (δ.scheduler.takeSlots p.slots).map fun _ => .pool k else none := by
    simp [World.reserves, hp]
  rcases r with _ | ⟨first, σ, ps⟩
  · cases step
    have none : w.reserves δ (.locked (.enroll k)) = none := by
      obtain ⟨q, hq, hr⟩ := bind_eq_ok.1 hr
      cases hp.symm.trans (Pools.pool_eq_ok hq)
      rw [reserves]
      split at hr
      · cases hr
      · rename_i unbound
        split at hr
        · rename_i full
          rw [if_pos unbound, full]
          rfl
        · obtain ⟨a, -, hr⟩ := bind_eq_ok.1 hr
          cases hr
    rw [none, Option.toList_none, List.append_nil, ite_self]
    exact h.idle (Machine.put_same found) rfl
  · cases step
    obtain ⟨q, hq, ⟨bound, rfl, rfl⟩ | ⟨unbound, rfl, room, ⟨a, made, rfl⟩, rfl⟩⟩ := Scheduler.enrollPool_eq_ok hr
    · cases hp.symm.trans hq
      have none : w.reserves δ (.locked (.enroll k)) = none := by rw [reserves, if_neg (by rw [bound]; nofun)]
      rw [none, Option.toList_none, List.append_nil, ite_self]
      exact h.idle (Machine.put_same found) rfl
    · cases hp.symm.trans hq
      have all : w.reserves δ (.locked (.enroll k)) = some (.pool k) := by
        rw [reserves, if_pos unbound, Scheduler.takeSlots, if_pos (show _ ≤ δ.scheduler.capacity from room)]
        rfl
      have same : (l ++ if e = d then [.pool k] else []) =
          if e = d then l ++ (w.reserves δ (.locked (.enroll k))).toList else l := by
        rw [all]
        split <;> simp
      rw [← same]
      exact h.pool found hp unbound room made rfl rfl

end World

namespace Moment

variable {x y : Moment} {d : Nat} {init : Pools} {l : List Reservation}

/-- A step leaves a scheduler that is what its reservations make of it. -/
theorem Next.furnished (next : x.Next y) (h : Furnished init d x.machine.world l) :
    Furnished init d y.machine.world (x.reserve d l) := by
  have quiet : ∀ {e act rest}, x.machine.stack = ⟨e, act⟩ :: rest → act.reserves = false → x.reserve d l = l := by
    intro e act rest top no
    have none : ∀ δ, x.machine.world.reserves δ act = none := by
      intro δ
      cases act with
      | locked s => cases s <;> first | rfl | cases no
      | _ => rfl
    simp [reserve, top, none]
  cases next.machine.goes with
  | calls e op idle eq =>
    rw [eq, reserve, idle]
    exact h
  | finishes e a top eq => rw [eq, quiet top rfl]; exact h
  | answers e a e' act rest δ move top found takes eq =>
    rw [eq, quiet top rfl]
    exact h.idle (Machine.takeAnswer_alike found takes).2.1.devices (World.takeAnswer_pools takes)
  | delivers e ms e' act rest δ move top found takes eq =>
    rw [eq, quiet top rfl]
    obtain ⟨s, l, is⟩ := World.takeDeadline_delivers takes
    refine h.works found ?_ (fun _ => ?_) is.devices (World.takeDeadline_pools takes ▸ .refl _)
    · rw [Stride.scheduler_device]
      cases l <;> rfl
    · rw [Stride.scheduler_device]
      cases l <;> rfl
  | works e act rest δ move top found step eq =>
    rw [eq]
    by_cases reserves : act.reserves = true
    · have told : x.reserve d l = if e = d then l ++ (x.machine.world.reserves δ act).toList else l := by
        by_cases here : e = d
        · subst here
          simp [reserve, top, found]
        · simp [reserve, top, here]
      rw [told]
      cases act with
      | locked s =>
        cases s with
        | declare => exact World.declare_furnished h found step
        | enroll k => exact World.enroll_furnished h found step
        | _ => cases reserves
      | _ => cases reserves
    · have no : act.reserves = false := by simpa using reserves
      rw [quiet top no]
      by_cases away : ∃ self e op, act = .perform self (.on e op)
      · obtain ⟨self, e, op, rfl⟩ := away
        cases step
        exact h
      · obtain ⟨s, l, is⟩ := World.step_listed (fun self e op same => away ⟨self, e, op, same⟩) step
        have blank : s.device.scheduler.blank = δ.scheduler.blank := by rw [Stride.scheduler_device]; exact l.blank_eq no
        refine h.works found (congrArg Scheduler.arena blank) (fun _ => blank) is.devices (World.step_pools step ?_)
        rintro k rfl
        cases no

variable {P : Moment → Prop} {s : Setup}

/-- At any time, what outlives the sessions of a scheduler is what its reservations make of a new one. -/
theorem furnished (t : Traced P (reserve d) [] (initial s) y l) : Furnished s.world.pools d y.machine.world l := by
  induction t with
  | here =>
    have pool : ∀ {k : Nat} {p : Pool}, s.world.pools[k]? = some p → p = .unbound p.slots p.slotSize := by
      intro k p hp
      simp only [Setup.world, List.getElem?_toArray, List.getElem?_map, Option.map_eq_some_iff] at hp
      obtain ⟨⟨slots, slotSize⟩, -, rfl⟩ := hp
      rfl
    have fresh : ∀ {e : Nat} {δ : Device}, s.world.devices[e]? = some δ → ∃ capacity, δ.scheduler = .fresh capacity := by
      intro e δ hδ
      have hδ : (s.devices.map s.device)[e]? = some δ := by simpa [Setup.world] using hδ
      rw [List.getElem?_map, Option.map_eq_some_iff] at hδ
      obtain ⟨dev, -, rfl⟩ := hδ
      exact ⟨dev.capacity, rfl⟩
    refine ⟨fun δ hδ => ?_, fun k p hp => ?_, by simp, fun e δ hδ i t segment ht seg => ?_⟩
    · obtain ⟨capacity, new⟩ := fresh hδ
      have same : δ.scheduler.blank = .fresh δ.scheduler.capacity := by
        rw [new, Scheduler.capacity]
        simp [Scheduler.blank, Scheduler.fresh, Arena.fresh, Task.unconfigure, Task.fresh, Payload.emptied]
      refine ⟨s.world.pools, by rw [same]; rfl, fun k => ?_⟩
      cases hp : s.world.pools[k]? with
      | none => simp [initial, hp]
      | some p =>
        have virgin := pool hp
        simp [initial, hp, ← virgin]
    · rw [pool hp]
      simp [Pool.unbound]
    · obtain ⟨capacity, new⟩ := fresh hδ
      rw [new] at ht
      simp only [Scheduler.fresh, Arena.fresh, Array.getElem?_replicate] at ht
      split at ht <;> cases ht
      cases seg
  | more _ next _ ih => exact next.furnished ih

end Moment

end TimedTasks
