import TimedTasks.Proofs.Bounds
import TimedTasks.Proofs.Stages

/-!
# What is handed out

Slots are handed out by a scheduler, one for each declaration and as many as a pool has when the pool is first used. What is
handed out at a time is a `Holding`, and a list of all holdings is kept beside the run, in the order in which they were
handed out (`Moment.handsOut`). The holdings of a scheduler lie one behind the other and take up all slots that are handed
out (`Tiles`), and no pool holds slots twice.
-/

namespace TimedTasks

/-- Slots of a device that were handed out at a time: one of them, or those of a pool. -/
structure Holding where
  device : Nat
  pool : Option Nat
  first : Nat
  count : Nat
  deriving DecidableEq, Repr

namespace Holding

/-- The slot is one of those. -/
def Has (h : Holding) (i : Nat) : Prop := h.first ≤ i ∧ i < h.first + h.count

/-- The second holding begins behind the first one. -/
def Before (h h' : Holding) : Prop := h.first + h.count ≤ h'.first

end Holding

/-- The holdings lie one behind the other, in this order, and take up the slots below `n`. -/
inductive Tiles : List Holding → Nat → Prop
  | none : Tiles [] 0
  | snoc {l n h} : Tiles l n → h.first = n → Tiles (l ++ [h]) (n + h.count)

namespace Tiles

variable {l : List Holding} {n i : Nat}

theorem has_iff (t : Tiles l n) : (∃ h ∈ l, h.Has i) ↔ i < n := by
  induction t with
  | none => simp
  | @snoc l n h _ first ih =>
    have last : h.Has i ↔ n ≤ i ∧ i < n + h.count := by rw [Holding.Has, first]
    constructor
    · rintro ⟨h', m, has⟩
      rcases List.mem_append.1 m with old | new
      · have := ih.1 ⟨h', old, has⟩
        omega
      · cases List.mem_singleton.1 new
        exact (last.1 has).2
    · intro bound
      by_cases old : i < n
      · obtain ⟨h', m, has⟩ := ih.2 old
        exact ⟨h', List.mem_append_left _ m, has⟩
      · exact ⟨h, List.mem_append_right _ List.mem_cons_self, last.2 ⟨by omega, bound⟩⟩

theorem le (t : Tiles l n) {h : Holding} (m : h ∈ l) : h.first + h.count ≤ n := by
  induction t with
  | none => cases m
  | snoc _ first ih =>
    rcases List.mem_append.1 m with old | new
    · have := ih old
      omega
    · cases List.mem_singleton.1 new
      omega

theorem apart (t : Tiles l n) : l.Pairwise Holding.Before := by
  induction t with
  | none => exact .nil
  | @snoc l n h t first ih =>
    refine List.pairwise_append.2 ⟨ih, List.pairwise_singleton _ _, fun h₁ m h₂ m' => ?_⟩
    cases List.mem_singleton.1 m'
    rw [Holding.Before, first]
    exact t.le m

end Tiles

/-- The world in which the next slots of device `d` are those of pool `k`. The arena of the device is `a` then. -/
def World.handOver (w : World) (d : Nat) (δ : Device) (k : Nat) (p : Pool) (a : Arena) : World :=
  ({ w with pools := w.pools.setIfInBounds k { p with first := some δ.scheduler.declared } }).put d
    (δ.withScheduler { δ.scheduler with declared := δ.scheduler.declared + p.slots, arena := a })

namespace Moment

/-- What the next step hands out: the slot that a declaration is answered with, or the slots that a pool comes to. -/
def handsOut (x : Moment) : Option Holding :=
  match x.machine.stack, x.machine.step with
  | ⟨d, .locked .declare⟩ :: _, .next m =>
    match m.stack with
    | ⟨_, .answered (.slot (some id))⟩ :: _ => some ⟨d, none, id.index, 1⟩
    | _ => none
  | ⟨d, .locked (.enroll k)⟩ :: _, .next m =>
    match x.machine.world.pools[k]?, m.world.pools[k]? with
    | some p, some q => if p.first = none then q.first.map (⟨d, some k, ·, q.slots⟩) else none
    | _, _ => none
  | _, _ => none

/-- The holdings after the next step. -/
def handing (x : Moment) (l : List Holding) : List Holding := l ++ x.handsOut.toList

variable {x y : Moment} {d k : Nat} {below : List Frame} {δ : Device} {p : Pool}

/-! ## The steps that hand out slots -/

/-- A declaration that has the lock is given the next slot, if there is one. -/
theorem Next.declares (next : x.Next y) (top : x.machine.stack = ⟨d, .locked .declare⟩ :: below)
    (found : x.machine.world.devices[d]? = some δ) :
    if δ.scheduler.declared < δ.scheduler.capacity then
      y.machine = ⟨x.machine.world.put d (δ.withScheduler { δ.scheduler with declared := δ.scheduler.declared + 1 }),
        ⟨d, .answered (.slot (some ⟨δ.scheduler.declared⟩))⟩ :: below⟩
    else y.machine = ⟨x.machine.world, ⟨d, .answered (.slot none)⟩ :: below⟩ := by
  obtain ⟨δ', move, found', done, eq⟩ := next.does top
  cases found.symm.trans found'
  rw [eq]
  unfold World.work at done
  dsimp only at done
  split
  · rename_i room
    rw [Scheduler.takeSlots, if_pos (Nat.succ_le_of_lt room)] at done
    cases done
    rfl
  · rename_i full
    rw [Scheduler.takeSlots, if_neg (fun room => full (Nat.lt_of_succ_le room))] at done
    cases done
    rw [World.answering, World.leaving, World.put_self found]
    rfl

/-- A call for the slots of a pool that has the lock finds them, or is given the next slots, if there are enough of them. A
pool that does not fit is left as it is, and so is everything else. -/
theorem Next.enrolls (next : x.Next y) (top : x.machine.stack = ⟨d, .locked (.enroll k)⟩ :: below)
    (found : x.machine.world.devices[d]? = some δ) (pool : x.machine.world.pools[k]? = some p) :
    match p.first with
    | some first => y.machine = ⟨x.machine.world, ⟨d, .claiming first p.slots⟩ :: below⟩
    | none =>
      if δ.scheduler.declared + p.slots ≤ δ.scheduler.capacity then
        ∃ a, Scheduler.enrollSlots δ.scheduler.arena k p.slotSize δ.scheduler.declared p.slots = .ok a ∧
          y.machine = ⟨x.machine.world.handOver d δ k p a, ⟨d, .claiming δ.scheduler.declared p.slots⟩ :: below⟩
      else y.machine = ⟨x.machine.world.log (.noRoom p.slots), ⟨d, .answered (.slot none)⟩ :: below⟩ := by
  obtain ⟨δ', move, found', done, eq⟩ := next.does top
  cases found.symm.trans found'
  rw [eq]
  obtain ⟨q, hq, done⟩ := bind_eq_ok.1 (show x.machine.world.enroll d δ k = .ok move from done)
  cases pool.symm.trans (Pools.pool_eq_ok hq)
  obtain ⟨r, hr, done⟩ := bind_eq_ok.1 done
  obtain ⟨q, hq', hr⟩ := bind_eq_ok.1 hr
  cases pool.symm.trans (Pools.pool_eq_ok hq')
  cases first : p.first with
  | some first =>
    rw [first] at hr
    cases hr
    cases done
    show Machine.mk (x.machine.world.put d δ) _ = _
    rw [World.put_self found]
    rfl
  | none =>
    rw [first] at hr
    dsimp only at hr ⊢
    split
    · rename_i room
      rw [Scheduler.takeSlots, if_pos room] at hr
      obtain ⟨a, made, hr⟩ := bind_eq_ok.1 hr
      cases hr
      cases done
      exact ⟨a, made, rfl⟩
    · rename_i full
      rw [Scheduler.takeSlots, if_neg full] at hr
      cases hr
      cases done
      rw [World.answering, World.leaving, World.put_self (w := x.machine.world.log _) found]
      rfl

/-- What becomes of a call for the slots of a pool that has the lock, case by case. -/
inductive Enrolls (d : Nat) (δ : Device) (k : Nat) (p : Pool) (below : List Frame) (x y : Moment) : Prop
  | bound {first} : p.first = some first → y.machine = ⟨x.machine.world, ⟨d, .claiming first p.slots⟩ :: below⟩ →
      Enrolls d δ k p below x y
  | fits {a} : p.first = none → δ.scheduler.declared + p.slots ≤ δ.scheduler.capacity →
      Scheduler.enrollSlots δ.scheduler.arena k p.slotSize δ.scheduler.declared p.slots = .ok a →
      y.machine = ⟨x.machine.world.handOver d δ k p a, ⟨d, .claiming δ.scheduler.declared p.slots⟩ :: below⟩ →
      Enrolls d δ k p below x y
  | full : p.first = none → ¬δ.scheduler.declared + p.slots ≤ δ.scheduler.capacity →
      y.machine = ⟨x.machine.world.log (.noRoom p.slots), ⟨d, .answered (.slot none)⟩ :: below⟩ → Enrolls d δ k p below x y

theorem Next.cases_of_enroll (next : x.Next y) (top : x.machine.stack = ⟨d, .locked (.enroll k)⟩ :: below) :
    ∃ δ p, x.machine.world.devices[d]? = some δ ∧ x.machine.world.pools[k]? = some p ∧ Enrolls d δ k p below x y := by
  obtain ⟨δ, move, found, done, -⟩ := next.does top
  obtain ⟨p, hp, -⟩ := bind_eq_ok.1 (show x.machine.world.enroll d δ k = .ok move from done)
  have pool := Pools.pool_eq_ok hp
  have after := next.enrolls top found pool
  refine ⟨δ, p, found, pool, ?_⟩
  cases first : p.first with
  | some first =>
    rw [first] at after
    exact .bound first after
  | none =>
    rw [first] at after
    dsimp only at after
    split at after
    · rename_i room
      obtain ⟨a, made, after⟩ := after
      exact .fits first room made after
    · rename_i full
      exact .full first full after

/-- The slots of a pool are handed out when it has none, and there are enough of them. -/
theorem Next.handsOut_of_enroll (next : x.Next y) (top : x.machine.stack = ⟨d, .locked (.enroll k)⟩ :: below)
    (found : x.machine.world.devices[d]? = some δ) (pool : x.machine.world.pools[k]? = some p) : x.handsOut =
      if p.first = none ∧ δ.scheduler.declared + p.slots ≤ δ.scheduler.capacity then
        some ⟨d, some k, δ.scheduler.declared, p.slots⟩
      else none := by
  have inside := (Array.getElem?_eq_some_iff.1 pool).1
  obtain ⟨δ', p', found', pool', enrolls⟩ := next.cases_of_enroll top
  cases found.symm.trans found'
  cases pool.symm.trans pool'
  cases enrolls with
  | bound first after =>
    rw [handsOut, top, next.step_eq top, after]
    simp [pool, first]
  | fits first room _ after =>
    rw [handsOut, top, next.step_eq top, after, if_pos ⟨first, room⟩]
    simp only [pool, World.handOver, World.put, Array.getElem?_setIfInBounds, if_pos inside, if_true, first, Option.map_some]
  | full first full after =>
    rw [handsOut, top, next.step_eq top, after, if_neg fun room => full room.2]
    simp [pool, first, World.log, World.emit]

end Moment

/-! ## All other steps -/

/-- The slot is placed as it was before. -/
def Task.SamePlace (t t' : Task) : Prop := t'.payload.segment? = t.payload.segment? ∧ t'.pooled = t.pooled

theorem Task.SamePlace.refl (t : Task) : t.SamePlace t := ⟨rfl, rfl⟩

/-- Only when it is handed out to a pool, a slot gets a place. -/
theorem Becomes.samePlace {ps : Pools} {σ : Scheduler} {now : UInt32} {i : Nat} {act : Act} {t t' : Task}
    (b : Becomes ps σ now i act t t') (no : ∀ k, act ≠ .locked (.enroll k)) : t.SamePlace t' := by
  cases b with
  | same | relength | stamp | renew | dispatch | configure | link => exact ⟨rfl, rfl⟩
  | stop => exact ⟨by rw [Task.payload_stop], Task.pooled_stop t⟩
  | settle => exact ⟨by rw [Task.payload_settle], Task.pooled_settle t⟩
  | attach _ payload => exact ⟨by rw [payload]; rfl, rfl⟩
  | copy _ _ payload => exact ⟨by rw [payload]; rfl, rfl⟩
  | handOut => exact ⟨Payload.segment?_emptied _, rfl⟩
  | enroll => exact absurd rfl (no _)
  | begin | finish =>
    refine ⟨?_, Task.pooled_retire t _ _⟩
    rw [Task.payload_retire]
    split
    · exact Payload.segment?_emptied _
    · rfl

/-- The pools change by more than their bytes only when the slots of one of them are looked for. -/
theorem Machine.Next.pools_alike {m m' : Machine} (next : m.Next m')
    (no : ∀ f ∈ m.stack.head?, ∀ k, f.act ≠ .locked (.enroll k)) : m.world.pools.Alike m'.world.pools := by
  cases next.goes with
  | calls d op idle eq => rw [eq]; exact .refl _
  | finishes d a top eq => rw [eq]; exact .refl _
  | answers e a d act rest δ move top found takes eq => rw [eq, World.takeAnswer_pools takes]; exact .refl _
  | delivers e ms d act rest δ move top found takes eq => rw [eq, World.takeDeadline_pools takes]; exact .refl _
  | works d act rest δ move top found step eq =>
    rw [eq]
    exact World.step_pools step (no ⟨d, act⟩ (by rw [top]; rfl))

namespace Machine.Turn

variable {m m' : Machine} {d : Nat} {δ : Device}

/-- What holds of the scheduler of a device and what becomes of it, when it does of whatever a step of the device makes of
it. -/
theorem scheduler {R : Scheduler → Scheduler → Prop} (t : m.Turn m') (found : m.world.devices[d]? = some δ)
    (same : R δ.scheduler δ.scheduler)
    (works : ∀ act rest s, m.stack = ⟨d, act⟩ :: rest → Leads m.world δ act s → R δ.scheduler s.scheduler)
    (delivers : ∀ ms act s, Delivers δ ms act s → R δ.scheduler s.scheduler) :
    ∃ δ', m'.world.devices[d]? = some δ' ∧ R δ.scheduler δ'.scheduler := by
  have idle : m'.world.devices[d]? = m.world.devices[d]? →
      ∃ δ', m'.world.devices[d]? = some δ' ∧ R δ.scheduler δ'.scheduler := fun eq => ⟨δ, eq.trans found, same⟩
  cases t with
  | works e act rest ε s top there l takes =>
    by_cases here : e = d
    · subst here
      cases found.symm.trans there
      exact ⟨s.device, takes.device_same found, by rw [Stride.scheduler_device]; exact works act rest s top l⟩
    · exact idle (takes.device here)
  | delivers e e' ms act rest ε s top there l takes =>
    by_cases here : e = d
    · subst here
      cases found.symm.trans there
      exact ⟨s.device, takes.device_same found, by rw [Stride.scheduler_device]; exact delivers ms act s l⟩
    · exact idle (takes.device here)
  | redirects e e' self op rest top world => exact idle (by rw [world])
  | answers e e' a act rest top _ alike => exact idle (by rw [alike.devices])
  | finishes e a top world => exact idle (by rw [world])
  | calls e op top world => exact idle (by rw [world])

theorem device_before (t : m.Turn m') {δ' : Device} (found : m'.world.devices[d]? = some δ') :
    ∃ δ, m.world.devices[d]? = some δ := by
  have bound := (Array.getElem?_eq_some_iff.1 found).1
  rw [t.size_devices] at bound
  exact ⟨_, Array.getElem?_eq_getElem bound⟩

/-- Slots that were handed out stay so, and there are always as many slots. -/
theorem declared_le (t : m.Turn m') (found : m.world.devices[d]? = some δ) : ∃ δ', m'.world.devices[d]? = some δ' ∧
    δ.scheduler.declared ≤ δ'.scheduler.declared ∧ δ'.scheduler.capacity = δ.scheduler.capacity := by
  refine t.scheduler (R := fun σ σ' => σ.declared ≤ σ'.declared ∧ σ'.capacity = σ.capacity) found ⟨Nat.le_refl _, rfl⟩
    (fun act rest s top l => ⟨l.declared_le, l.size_eq⟩) fun ms act s l => ?_
  cases l <;> exact ⟨Nat.le_refl _, rfl⟩

/-- Where no slots are handed out, all of them are placed as they were before. -/
theorem samePlaces (t : m.Turn m') (found : m.world.devices[d]? = some δ)
    (no : ∀ f ∈ m.stack.head?, f.act.reserves = false) : ∃ δ', m'.world.devices[d]? = some δ' ∧
    δ'.scheduler.declared = δ.scheduler.declared ∧ δ'.scheduler.capacity = δ.scheduler.capacity ∧
      ∀ i : Nat, Option.Rel Task.SamePlace δ.scheduler.arena[i]? δ'.scheduler.arena[i]? := by
  have same : ∀ (σ : Scheduler) (i : Nat), Option.Rel Task.SamePlace σ.arena[i]? σ.arena[i]? :=
    fun σ i => rel_self fun t _ => .refl t
  refine t.scheduler (R := fun σ σ' => σ'.declared = σ.declared ∧ σ'.capacity = σ.capacity ∧
    ∀ i : Nat, Option.Rel Task.SamePlace σ.arena[i]? σ'.arena[i]?) found ⟨rfl, rfl, same _⟩
    (fun act rest s top l => ?_) fun ms act s l => ?_
  · have own : act.reserves = false := no ⟨d, act⟩ (by rw [top]; rfl)
    refine ⟨l.declared_eq own, l.size_eq, fun i => ?_⟩
    have slots := l.slots i
    generalize δ.scheduler.arena[i]? = o at slots ⊢
    generalize s.scheduler.arena[i]? = o' at slots ⊢
    cases slots with
    | none => exact .none
    | some b => exact .some (b.samePlace fun k same => by rw [same] at own; cases own)
  · cases l <;> exact ⟨rfl, rfl, same _⟩

end Machine.Turn

namespace Moment

variable {x y : Moment}

/-- What a step hands out, and what it makes of the world then. -/
inductive Hands (x y : Moment) : Option Holding → Prop
  /-- Nothing is handed out: the pools change by their bytes at most, and all slots stay where they are. -/
  | nothing : x.machine.world.pools.Alike y.machine.world.pools →
      (∀ (d : Nat) (δ' : Device), y.machine.world.devices[d]? = some δ' → ∃ δ, x.machine.world.devices[d]? = some δ ∧
        δ'.scheduler.declared = δ.scheduler.declared ∧ δ'.scheduler.capacity = δ.scheduler.capacity ∧
        ∀ i : Nat, Option.Rel Task.SamePlace δ.scheduler.arena[i]? δ'.scheduler.arena[i]?) → Hands x y none
  | single {d δ} : x.machine.world.devices[d]? = some δ → δ.scheduler.declared < δ.scheduler.capacity →
      y.machine.world = x.machine.world.put d
        (δ.withScheduler { δ.scheduler with declared := δ.scheduler.declared + 1 }) →
      Hands x y (some ⟨d, none, δ.scheduler.declared, 1⟩)
  | pool {d k δ p a} : x.machine.world.devices[d]? = some δ → x.machine.world.pools[k]? = some p → p.first = none →
      δ.scheduler.declared + p.slots ≤ δ.scheduler.capacity →
      Scheduler.enrollSlots δ.scheduler.arena k p.slotSize δ.scheduler.declared p.slots = .ok a →
      y.machine.world = x.machine.world.handOver d δ k p a →
      Hands x y (some ⟨d, some k, δ.scheduler.declared, p.slots⟩)

/-- A step that leaves the devices and the pools as they are. -/
theorem Hands.idle (devices : y.machine.world.devices = x.machine.world.devices)
    (pools : y.machine.world.pools = x.machine.world.pools) : Hands x y none :=
  .nothing (pools ▸ .refl _) fun _ δ' found => ⟨δ', devices ▸ found, rfl, rfl, fun _ => rel_self fun t _ => .refl t⟩

theorem handsOut_eq_none (no : ∀ f ∈ x.machine.stack.head?, f.act.reserves = false) : x.handsOut = none := by
  unfold handsOut
  split
  · rename_i top _
    have := no _ (by rw [top]; rfl)
    cases this
  · rename_i top _
    have := no _ (by rw [top]; rfl)
    cases this
  · rfl

theorem Next.hands (next : x.Next y) : Hands x y x.handsOut := by
  by_cases idle : ∀ f ∈ x.machine.stack.head?, f.act.reserves = false
  · rw [handsOut_eq_none idle]
    refine .nothing (next.machine.pools_alike fun f m k same => ?_) fun d δ' found' => ?_
    · have := idle f m
      rw [same] at this
      cases this
    · obtain ⟨δ, found⟩ := next.machine.turn.device_before found'
      obtain ⟨δ'', found'', same⟩ := next.machine.turn.samePlaces found idle
      cases found'.symm.trans found''
      exact ⟨δ, found, same⟩
  · obtain ⟨⟨d, act⟩, below, top, reserves⟩ : ∃ f below, x.machine.stack = f :: below ∧ f.act.reserves = true := by
      cases stack : x.machine.stack with
      | nil => simp [stack] at idle
      | cons f below => exact ⟨f, below, rfl, by simpa [stack] using idle⟩
    cases act with
    | locked t =>
      have step := next.step_eq top
      cases t with
      | declare =>
        obtain ⟨δ, -, found, -, -⟩ := next.does top
        have after := next.declares top found
        split at after
        · rename_i room
          have hands : x.handsOut = some ⟨d, none, δ.scheduler.declared, 1⟩ := by
            rw [handsOut, top, step, after]
          rw [hands]
          exact .single found room (by rw [after])
        · have hands : x.handsOut = none := by
            rw [handsOut, top, step, after]
          rw [hands]
          exact .idle (by rw [after]) (by rw [after])
      | enroll k =>
        obtain ⟨δ, p, found, pool, enrolls⟩ := next.cases_of_enroll top
        rw [next.handsOut_of_enroll top found pool]
        cases enrolls with
        | bound first after =>
          rw [if_neg (by simp [first])]
          exact .idle (by rw [after]) (by rw [after])
        | fits first room made after =>
          rw [if_pos ⟨first, room⟩]
          exact .pool found pool first room made (by rw [after])
        | full _ full after =>
          rw [if_neg fun room => full room.2]
          exact .idle (by rw [after]; rfl) (by rw [after]; rfl)
      | _ => cases reserves
    | _ => cases reserves

end Moment

/-! ## The list of holdings -/

/-- The list holds all that was handed out in the world, in the order in which it was. -/
structure Ledger (l : List Holding) (w : World) : Prop where
  /-- The holdings of a device take up all its slots that are handed out. -/
  tiles : ∀ d δ, w.devices[d]? = some δ → Tiles (l.filter (·.device = d)) δ.scheduler.declared ∧
    δ.scheduler.declared ≤ δ.scheduler.capacity
  /-- A pool holds the slots that it remembers, and no others. -/
  pools : ∀ k p, w.pools[k]? = some p →
    ∃ d, l.filter (·.pool = some k) = (p.first.map (⟨d, some k, ·, p.slots⟩)).toList
  /-- A declaration holds one slot, and all others are holdings of pools. -/
  known : ∀ h ∈ l, (h.pool = none ∧ h.count = 1) ∨ ∃ k p, h.pool = some k ∧ w.pools[k]? = some p

namespace Ledger

variable {l : List Holding} {w w' : World}

theorem alike (h : Ledger l w) (pools : w.pools.Alike w'.pools)
    (devices : ∀ (d : Nat) (δ' : Device), w'.devices[d]? = some δ' → ∃ δ, w.devices[d]? = some δ ∧
      δ'.scheduler.declared = δ.scheduler.declared ∧ δ'.scheduler.capacity = δ.scheduler.capacity) : Ledger l w' := by
  refine ⟨fun d δ' found' => ?_, fun k q hq => ?_, fun r m => (h.known r m).imp_right ?_⟩
  · obtain ⟨δ, found, declared, capacity⟩ := devices d δ' found'
    rw [declared, capacity]
    exact h.tiles d δ found
  · have alike := pools k
    rw [hq] at alike
    generalize old : w.pools[k]? = o at alike
    cases alike with
    | some alike =>
      rw [alike.first, alike.slots]
      exact h.pools k _ old
  · rintro ⟨k, p, pool, hp⟩
    have alike := pools k
    rw [hp] at alike
    generalize new : w'.pools[k]? = o at alike
    cases alike with
    | some => exact ⟨k, _, pool, new⟩

/-- The next slots of a device are handed out. -/
theorem tiles_snoc (h : Ledger l w) {d : Nat} {δ : Device} {σ : Scheduler} {new : Holding} (found : w.devices[d]? = some δ)
    (here : new.device = d) (first : new.first = δ.scheduler.declared)
    (room : δ.scheduler.declared + new.count ≤ δ.scheduler.capacity)
    (declared : σ.declared = δ.scheduler.declared + new.count) (capacity : σ.capacity = δ.scheduler.capacity)
    (devices : w'.devices = w.devices.setIfInBounds d (δ.withScheduler σ)) (e : Nat) (δ' : Device)
    (found' : w'.devices[e]? = some δ') : Tiles ((l ++ [new]).filter (·.device = e)) δ'.scheduler.declared ∧
      δ'.scheduler.declared ≤ δ'.scheduler.capacity := by
  have bound := (Array.getElem?_eq_some_iff.1 found).1
  rw [devices, Array.getElem?_setIfInBounds] at found'
  by_cases same : d = e
  · subst same
    rw [if_pos rfl, if_pos bound] at found'
    cases found'
    show Tiles _ σ.declared ∧ σ.declared ≤ σ.capacity
    rw [declared, capacity, List.filter_append, List.filter_cons_of_pos (by simpa using here), List.filter_nil]
    exact ⟨.snoc (h.tiles d δ found).1 first, room⟩
  · rw [if_neg same] at found'
    rw [List.filter_append, List.filter_cons_of_neg (by simpa [here] using same), List.filter_nil, List.append_nil]
    exact h.tiles e δ' found'

/-- A slot is handed out by itself. -/
theorem single (h : Ledger l w) {d : Nat} {δ : Device} (found : w.devices[d]? = some δ)
    (room : δ.scheduler.declared < δ.scheduler.capacity) : Ledger (l ++ [⟨d, none, δ.scheduler.declared, 1⟩])
      (w.put d (δ.withScheduler { δ.scheduler with declared := δ.scheduler.declared + 1 })) := by
  refine ⟨h.tiles_snoc found rfl rfl room (by rfl) (by rfl) rfl, fun k p pool => ?_, fun r m => ?_⟩
  · obtain ⟨e, held⟩ := h.pools k p pool
    exact ⟨e, by rw [← held]; simp⟩
  · rcases List.mem_append.1 m with old | new
    · exact h.known r old
    · cases List.mem_singleton.1 new
      exact .inl ⟨rfl, rfl⟩

/-- The slots of a pool are handed out. -/
theorem pool (h : Ledger l w) {d k : Nat} {δ : Device} {p : Pool} {a : Arena} (found : w.devices[d]? = some δ)
    (hp : w.pools[k]? = some p) (unbound : p.first = none) (size : a.size = δ.scheduler.arena.size)
    (room : δ.scheduler.declared + p.slots ≤ δ.scheduler.capacity) :
    Ledger (l ++ [⟨d, some k, δ.scheduler.declared, p.slots⟩])
      (w.handOver d δ k p a) := by
  have bound := (Array.getElem?_eq_some_iff.1 hp).1
  have pools : ∀ (j : Nat) (q : Pool), (w.pools.setIfInBounds k { p with first := some δ.scheduler.declared })[j]? = some q →
      (j = k ∧ q = { p with first := some δ.scheduler.declared }) ∨ j ≠ k ∧ w.pools[j]? = some q := by
    intro j q hq
    rw [Array.getElem?_setIfInBounds] at hq
    by_cases same : k = j
    · rw [if_pos same, if_pos bound] at hq
      exact .inl ⟨same.symm, (Option.some.inj hq).symm⟩
    · rw [if_neg same] at hq
      exact .inr ⟨Ne.symm same, hq⟩
  refine ⟨h.tiles_snoc found rfl rfl room (by rfl) (by exact size) rfl, fun j q hq => ?_, fun r m => ?_⟩
  · rcases pools j q hq with ⟨rfl, rfl⟩ | ⟨other, hq⟩
    · obtain ⟨e, held⟩ := h.pools j p hp
      rw [unbound] at held
      exact ⟨d, by rw [List.filter_append, held]; simp⟩
    · obtain ⟨e, held⟩ := h.pools j q hq
      refine ⟨e, ?_⟩
      rw [List.filter_append, held, List.filter_cons_of_neg (by simpa using other.symm), List.filter_nil, List.append_nil]
  · have kept : ∀ (j : Nat) (q : Pool), w.pools[j]? = some q →
        ∃ q, (w.pools.setIfInBounds k { p with first := some δ.scheduler.declared })[j]? = some q := by
      intro j q hq
      have inside := (Array.getElem?_eq_some_iff.1 hq).1
      rw [Array.getElem?_eq_getElem (by simpa using inside)]
      exact ⟨_, rfl⟩
    rcases List.mem_append.1 m with old | new
    · refine (h.known r old).imp_right ?_
      rintro ⟨j, q, own, hq⟩
      obtain ⟨q', hq'⟩ := kept j q hq
      exact ⟨j, q', own, hq'⟩
    · cases List.mem_singleton.1 new
      obtain ⟨q', hq'⟩ := kept k p hp
      exact .inr ⟨k, q', rfl, hq'⟩

end Ledger

namespace Moment

variable {P : Moment → Prop} {s : Setup} {x y : Moment} {l : List Holding}

theorem Next.ledger (next : x.Next y) (h : Ledger l x.machine.world) : Ledger (x.handing l) y.machine.world := by
  have hands := next.hands
  rw [handing]
  generalize x.handsOut = o at hands ⊢
  cases hands with
  | nothing pools devices =>
    rw [Option.toList_none, List.append_nil]
    refine h.alike pools fun d δ' found' => ?_
    obtain ⟨δ, found, declared, capacity, -⟩ := devices d δ' found'
    exact ⟨δ, found, declared, capacity⟩
  | single found room after =>
    rw [after]
    exact h.single found room
  | pool found hp unbound room made after =>
    rw [after]
    exact h.pool found hp unbound (Scheduler.size_enrollSlots made) room

/-- In every run, the list of holdings is just what was handed out. -/
theorem ledger (t : Traced P handing [] (initial s) x l) : Ledger l x.machine.world := by
  induction t with
  | here =>
    refine ⟨fun d δ found => ?_, fun k p pool => ?_, fun r m => nomatch m⟩
    · obtain ⟨capacity, new⟩ := (initial_fresh (show (initial s).view d = some ⟨δ, _, _⟩ by rw [view, found]; rfl)).scheduler
      rw [show δ.scheduler = .fresh capacity from new]
      exact ⟨.none, Nat.zero_le _⟩
    · simp only [initial, Setup.world, List.getElem?_toArray, List.getElem?_map, Option.map_eq_some_iff] at pool
      obtain ⟨⟨slots, slotSize⟩, -, rfl⟩ := pool
      exact ⟨0, rfl⟩
  | more _ next _ ih => exact next.ledger ih

/-- No step takes slots back from a pool. -/
theorem Next.keeps_first {k first : Nat} {p : Pool} (next : x.Next y) (pool : x.machine.world.pools[k]? = some p)
    (bound : p.first = some first) : ∃ q, y.machine.world.pools[k]? = some q ∧ q.slots = p.slots ∧ q.first = some first := by
  by_cases enrolls : ∃ d j below, x.machine.stack = ⟨d, .locked (.enroll j)⟩ :: below
  · obtain ⟨d, j, below, top⟩ := enrolls
    obtain ⟨δ, q, -, there, enrolls⟩ := next.cases_of_enroll top
    cases enrolls with
    | bound _ after =>
      rw [after]
      exact ⟨p, pool, rfl, bound⟩
    | fits unbound _ _ after =>
      rw [after]
      have other : j ≠ k := by
        rintro rfl
        cases pool.symm.trans there
        cases unbound.symm.trans bound
      refine ⟨p, ?_, rfl, bound⟩
      show (x.machine.world.pools.setIfInBounds j _)[k]? = some p
      rw [Array.getElem?_setIfInBounds, if_neg other]
      exact pool
    | full _ _ after =>
      rw [after]
      exact ⟨p, pool, rfl, bound⟩
  · have alike := next.machine.pools_alike (fun f m j same => enrolls ?_) k
    · rw [pool] at alike
      generalize new : y.machine.world.pools[k]? = o at alike
      cases alike with
      | some alike => exact ⟨_, rfl, alike.slots, alike.first.trans bound⟩
    · obtain ⟨below, top⟩ : ∃ below, x.machine.stack = f :: below := by
        cases stack : x.machine.stack with
        | nil => rw [stack] at m; cases m
        | cons g below => rw [stack] at m; cases m; exact ⟨below, rfl⟩
      rcases f with ⟨d, act⟩
      dsimp only at same
      subst same
      exact ⟨d, j, below, top⟩

/-- A declaration is answered with the next slot that is to be had when it gets the lock, or with none if there is none. -/
theorem answer_of_declare {d : Nat} {self : Option Nat} {a : Answer} {below : List Frame} (stacked : Stacked x.machine.stack)
    (top : x.machine.stack = ⟨d, .perform self .declare⟩ :: below) (r : Run (fun z => P z ∧ z.Within below) x y)
    (answered : y.machine.stack = ⟨d, .answered a⟩ :: below) :
    ∃ w δ, Run (fun z => P z ∧ z.Within below) x w ∧ w.Next y ∧ w.machine.stack = ⟨d, .locked .declare⟩ :: below ∧
      w.machine.world.devices[d]? = some δ ∧
      a = .slot (if δ.scheduler.declared < δ.scheduler.capacity then some ⟨δ.scheduler.declared⟩ else none) := by
  have begins : ∀ (z : Moment) g above, x.Next z → z.machine.stack = above ++ g :: below → g = ⟨d, .locked .declare⟩ := by
    intro z g above next stack
    obtain ⟨δ, move, -, began, eq⟩ := next.performs top
    cases began
    rw [eq] at stack
    exact (Option.some.inj (getLast?_eq_of_append stack)).symm
  have ends : ∀ (w z : Moment) g above, w.Next z → w.machine.stack = ⟨d, .locked .declare⟩ :: below →
      z.machine.stack = above ++ g :: below → ∃ a, g = ⟨d, .answered a⟩ := by
    intro w z g above next locked stack
    obtain ⟨δ, -, found, -⟩ := next.does locked
    have after := next.declares locked found
    split at after <;> rw [after] at stack <;> exact ⟨_, lowest_of_cons stack⟩
  rcases r.asked stacked top answered rfl (fun z g above next stack => .inl (begins z g above next stack)) ends with
    next | ⟨w, before, locked, next⟩
  · cases begins y _ [] next answered
  · obtain ⟨δ, -, found, -⟩ := next.does locked
    refine ⟨w, δ, before, next, locked, found, ?_⟩
    have after := next.declares locked found
    split at after <;> rename_i room <;> rw [after] at answered <;> cases answered
    · rw [if_pos room]
    · rw [if_neg room]

/-- In every run, whatever interrupts come at which locks: what the scheduler of a device hands out lies one behind the
other, in the order in which it is handed out, and takes up the slots below `declared`, of which there are never fewer later
and never more than there are slots at all. A pool comes to its slots once at most and never loses them. A declaration has
no slot to answer with if and only if all of them are handed out at the moment it has the lock. The slots of a pool are
handed out whenever there are enough of them; if there are not, nothing changes. -/
theorem slots_handed_out_once (t : Traced P handing [] (initial s) x l) :
    (∀ (d : Nat) (δ : Device), x.machine.world.devices[d]? = some δ →
      Tiles (l.filter (·.device = d)) δ.scheduler.declared ∧ (l.filter (·.device = d)).Pairwise Holding.Before ∧
      (∀ i, (∃ h ∈ l, h.device = d ∧ h.Has i) ↔ i < δ.scheduler.declared) ∧
      δ.scheduler.declared ≤ δ.scheduler.capacity ∧
      ∀ y, Run P x y → ∃ δ', y.machine.world.devices[d]? = some δ' ∧ δ.scheduler.declared ≤ δ'.scheduler.declared ∧
        δ'.scheduler.capacity = δ.scheduler.capacity) ∧
    (∀ (k : Nat) (p : Pool), x.machine.world.pools[k]? = some p →
      (∃ d, l.filter (·.pool = some k) = (p.first.map (⟨d, some k, ·, p.slots⟩)).toList) ∧
      ∀ y, Run P x y → ∀ first ∈ p.first,
        ∃ q, y.machine.world.pools[k]? = some q ∧ q.slots = p.slots ∧ q.first = some first) ∧
    (∀ d self a below y, x.machine.stack = ⟨d, .perform self .declare⟩ :: below → Run (fun z => P z ∧ z.Within below) x y →
      y.machine.stack = ⟨d, .answered a⟩ :: below → ∃ w δ, Run (fun z => P z ∧ z.Within below) x w ∧ w.Next y ∧
        w.machine.stack = ⟨d, .locked .declare⟩ :: below ∧ w.machine.world.devices[d]? = some δ ∧
        a = .slot (if δ.scheduler.declared < δ.scheduler.capacity then some ⟨δ.scheduler.declared⟩ else none)) ∧
    ∀ d k below δ p y, x.machine.stack = ⟨d, .locked (.enroll k)⟩ :: below → x.machine.world.devices[d]? = some δ →
      x.machine.world.pools[k]? = some p → p.first = none → x.Next y →
      if δ.scheduler.declared + p.slots ≤ δ.scheduler.capacity then
        x.handsOut = some ⟨d, some k, δ.scheduler.declared, p.slots⟩ ∧
          y.machine.stack = ⟨d, .claiming δ.scheduler.declared p.slots⟩ :: below
      else y.machine = ⟨x.machine.world.log (.noRoom p.slots), ⟨d, .answered (.slot none)⟩ :: below⟩ := by
  have ledger := ledger t
  refine ⟨fun d δ found => ?_, fun k p pool => ⟨ledger.pools k p pool, fun y r first bound => ?_⟩,
    fun d self a below y top r answered => answer_of_declare (stacked_of_run t.run) top r answered,
    fun d k below δ p y top found pool unbound next => ?_⟩
  · obtain ⟨tiles, room⟩ := ledger.tiles d δ found
    refine ⟨tiles, tiles.apart, fun i => ?_, room, fun y r => ?_⟩
    · rw [← tiles.has_iff]
      simp only [List.mem_filter, decide_eq_true_eq, and_assoc]
    · refine r.invariant (I := fun y => ∃ δ', y.machine.world.devices[d]? = some δ' ∧
        δ.scheduler.declared ≤ δ'.scheduler.declared ∧ δ'.scheduler.capacity = δ.scheduler.capacity)
        ⟨δ, found, Nat.le_refl _, rfl⟩ ?_
      rintro z z' ⟨δ₁, found₁, le, capacity⟩ - next -
      obtain ⟨δ₂, found₂, le', capacity'⟩ := next.machine.turn.declared_le found₁
      exact ⟨δ₂, found₂, Nat.le_trans le le', capacity'.trans capacity⟩
  · refine r.invariant (I := fun y => ∃ q, y.machine.world.pools[k]? = some q ∧ q.slots = p.slots ∧ q.first = some first)
      ⟨p, pool, rfl, bound⟩ ?_
    rintro z z' ⟨q, hq, slots, first⟩ - next -
    obtain ⟨q', hq', slots', first'⟩ := next.keeps_first hq first
    exact ⟨q', hq', slots'.trans slots, first'⟩
  · have after := next.enrolls top found pool
    rw [unbound] at after
    dsimp only at after
    split
    · rename_i room
      rw [if_pos room] at after
      obtain ⟨a, -, after⟩ := after
      exact ⟨by rw [next.handsOut_of_enroll top found pool, if_pos ⟨unbound, room⟩], by rw [after]⟩
    · rename_i full
      rw [if_neg full] at after
      exact after

/-- Three slots, and two pools of two slots each. -/
def crowded : Setup := ⟨[⟨3, 0, [], []⟩], false, [(2, 4), (2, 4)], [], 9, false⟩

/-- A declaration at whose lock an interrupt asks for a slot of the first pool. Then the second pool is asked for one. -/
def crowdedCalls : List (Nat × Op) := [(0, .hook .lock 0 [.alloc 0]), (0, .declare), (0, .alloc 1)]

/-- The interrupt comes first, the declaration is answered with the slot behind the pool, and the second pool has none. -/
theorem slots_handed_out_once_of_interrupt : ∃ (x y : Moment) (δ : Device) (l : List Holding),
    Traced (fun _ => True) handing [] (initial crowded) x l ∧ l = [⟨0, some 0, 0, 2⟩, ⟨0, none, 2, 1⟩] ∧
    x.machine.world.devices[0]? = some δ ∧ Tiles l δ.scheduler.declared ∧ δ.scheduler.declared = 3 ∧
    x.machine.stack = [⟨0, .locked (.enroll 1)⟩] ∧ x.Next y ∧ y.machine.stack = [⟨0, .answered (.slot none)⟩] := by
  let at' := fun n => ((initial crowded).steps n crowdedCalls).1
  let noted' := (initial crowded).noted handing 21 crowdedCalls []
  have t : Traced (fun _ => True) handing [] (initial crowded) (at' 21) noted' := traced_steps (by decide +kernel)
  have holdings : noted' = [⟨0, some 0, 0, 2⟩, ⟨0, none, 2, 1⟩] := by
    decide +kernel
  rw [holdings] at t
  have next : (at' 21).Next (at' 22) := next_steps (by decide +kernel)
  have top : (at' 21).machine.stack = [⟨0, .locked (.enroll 1)⟩] := by rfl
  have shown : ((at' 21).machine.world.devices[0]?.any fun δ =>
      δ.scheduler.declared = 3 ∧ δ.scheduler.capacity = 3) = true := by decide +kernel
  obtain ⟨δ, found, shown⟩ := (Option.any_eq_true _ _).1 shown
  obtain ⟨declared, capacity⟩ := of_decide_eq_true shown
  have pool : (at' 21).machine.world.pools[1]? = some ⟨2, 4, List.replicate 8 0, none⟩ := by decide +kernel
  obtain ⟨devices, -, -, pools⟩ := slots_handed_out_once t
  have full := pools 0 1 [] δ _ _ top found pool rfl next
  rw [declared, capacity, if_neg (by decide)] at full
  exact ⟨at' 21, at' 22, δ, _, t, rfl, found, (devices 0 δ found).1, declared, top, next, by rw [full]⟩

end Moment

end TimedTasks
