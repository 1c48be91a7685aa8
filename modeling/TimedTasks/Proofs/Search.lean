import TimedTasks.Proofs.Taken
import TimedTasks.Proofs.Undisturbed

/-!
# The search for a free slot

A call for a slot of a pool looks at one slot of the pool after the other, and takes the first one that is free when it has
the lock. Interrupts may take and release slots meanwhile, of this pool as well. If the call has no slot to answer with,
what is certain is that each slot was taken when the search looked at it (`Moment.answer_of_alloc`). Where no interrupt
comes, the answer is the lowest slot that is free (`World.concludes_search`).
-/

namespace TimedTasks

namespace Moment

/-- A search on device `d`, right above `below`, looks at slot `i`. -/
def LooksAt (x : Moment) (d : Nat) (below : List Frame) (i : Nat) : Prop :=
  ∃ act n, x.machine.stack = ⟨d, act⟩ :: below ∧ act.claims = some (i, n)

/-- What a step of a search makes of it, when slot `i` is the first of those that it has to go. -/
inductive Goes (x y : Moment) (d : Nat) (below : List Frame) (i : Nat) : Nat → Prop
  | ends : y.machine.stack = ⟨d, .answered (.slot none)⟩ :: below → Goes x y d below i 0
  | passes {left} : x.machine.world.marks d i → y.machine.stack = ⟨d, .claiming (i + 1) left⟩ :: below →
      Goes x y d below i (left + 1)
  | asks {left bodies} : y.machine.stack = ⟨d, .interrupts .lock bodies⟩ :: ⟨d, .locked (.claim i left)⟩ :: below →
      Goes x y d below i (left + 1)
  | takes {left} : x.takes = some (d, i) → y.machine.stack = ⟨d, .answered (.slot (some ⟨i⟩))⟩ :: below →
      Goes x y d below i (left + 1)

/-- What a call for a slot of pool `k` on device `d`, which begins at `x`, is answered with by the step after `w`. At `w`
the holdings are `l`. -/
inductive Grants (P : Moment → Prop) (d k : Nat) (below : List Frame) (x w : Moment) (l : List Holding) : Answer → Prop
  /-- A slot of the pool that was free and is taken now. -/
  | slot {h i} : h ∈ l → h.pool = some k → h.device = d → h.Has i → i ∉ w.taken h → w.takes = some (d, i) →
      Grants P d k below x w l (.slot (some ⟨i⟩))
  /-- Each slot of the pool was taken when the search looked at it. -/
  | full {h} : h ∈ l → h.pool = some k →
      (∀ i, h.Has i → ∃ v, Run (fun z => P z ∧ z.Within below) x v ∧ v.LooksAt d below i ∧ i ∈ v.taken h) →
      Grants P d k below x w l (.slot none)
  /-- The pool has no slots yet, and the arena has no room for them. -/
  | noRoom {p δ} : w.machine.world.pools[k]? = some p → p.first = none → w.machine.world.devices[d]? = some δ →
      ¬δ.scheduler.declared + p.slots ≤ δ.scheduler.capacity → Grants P d k below x w l (.slot none)

/-- What a call for a slot of pool `k` that began at `x`, with the holdings `l`, has come to before its answer. -/
inductive Searches (P : Moment → Prop) (d k : Nat) (below : List Frame) (x : Moment) (l : List Holding) (z : Moment) :
    Frame → Prop
  | waits : Searches P d k below x l z ⟨d, .locked (.enroll k)⟩
  /-- The slots before `i` were looked at, and there are `n` to go. -/
  | looks {q h act i n} : Traced (fun z => P z ∧ z.Within below) handing l x z q → h ∈ q → h.pool = some k →
      (∀ j, h.Has j → h.device = d) → h.first ≤ i → i + n = h.first + h.count →
      (∀ j, h.first ≤ j → j < i → ∃ v, Run (fun z => P z ∧ z.Within below) x v ∧ v.LooksAt d below j ∧ j ∈ v.taken h) →
      act.claims = some (i, n) → Searches P d k below x l z ⟨d, act⟩

variable {P : Moment → Prop} {s : Setup} {x y z : Moment} {d k i n : Nat} {l : List Holding} {h : Holding}
  {self : Option Nat} {below : List Frame} {act : Act}

/-! ## Single steps -/

theorem Next.search_goes (next : x.Next y) (top : x.machine.stack = ⟨d, act⟩ :: below) (claims : act.claims = some (i, n))
    (slot : 0 < n → ∃ δ u, x.machine.world.devices[d]? = some δ ∧ δ.scheduler.arena[i]? = some u) :
    Goes x y d below i n := by
  cases act with
  | claiming j left =>
    cases claims
    cases n with
    | zero => exact .ends (by rw [next.gives_up top])
    | succ left =>
      obtain ⟨δ, u, found, slot⟩ := slot (Nat.succ_pos left)
      have after := next.examines top found slot
      split at after
      · rename_i taken
        exact .passes ((World.marks_of_slot found slot).trans taken) (by rw [after])
      · obtain ⟨bodies, after⟩ := after
        exact .asks after
  | locked s =>
    cases s with
    | claim j left =>
      cases claims
      obtain ⟨δ, u, found, slot⟩ := slot (Nat.succ_pos left)
      obtain ⟨u', slot', after⟩ := next.takes_slot top found
      cases slot.symm.trans slot'
      split at after
      · rename_i taken
        exact .passes ((World.marks_of_slot found slot).trans taken) (by rw [after])
      · obtain ⟨σ, ps, -, -, after⟩ := after
        exact .takes (takes_eq_some_iff.2 ⟨i, left, below, top, by rw [next.answers top, after]; rfl⟩) (by rw [after])
    | _ => cases claims
  | _ => cases claims

/-- A pool that is used where its slots lie has its holding there. -/
theorem holding_of_lies (t : Traced P handing [] (initial s) x l) {p : Pool} {first : Nat}
    (pool : x.machine.world.pools[k]? = some p) (bound : p.first = some first) (lies : x.machine.world.Lies k d) :
    ∃ h ∈ l, h.pool = some k ∧ h.first = first ∧ h.count = p.slots ∧ ∀ i, h.Has i → h.device = d := by
  obtain ⟨h, m, own, rfl, count⟩ := (ledger t).of_bound pool bound
  refine ⟨h, m, own, rfl, count, fun i has => ?_⟩
  have low : h.first ≤ i := has.1
  have high : i < h.first + p.slots := count ▸ has.2
  obtain ⟨δ, found, u, slot, lies⟩ := lies p pool h.first bound (i - h.first) (by omega)
  rw [Nat.add_sub_cancel' low] at slot
  obtain ⟨h', m', j, q, device, -, own', -, segment⟩ := (placed t).owner d δ i u _ found slot lies.2
  -- The segment of a slot names the pool, and a pool has one holding.
  obtain rfl : k = j := congrArg Segment.pool segment
  obtain ⟨-, -, -, -, only⟩ := (ledger t).of_pool m own
  rw [← only h' m' own']
  exact device

/-! ## The course of a search -/

namespace Searches

theorem straight {g : Frame} (h : Searches P d k below x l z g) : g.act.straight := by
  cases h with
  | waits => rfl
  | @looks _ _ act _ _ _ _ _ _ _ _ _ claims =>
    cases act with
    | claiming => rfl
    | locked s => cases s <;> first | rfl | cases claims
    | _ => cases claims

/-- What happens above a search does not change what it has come to. -/
theorem kept {g : Frame} (h : Searches P d k below x l z g) (next : z.Next y) (holds : P y ∧ y.Within below) :
    Searches P d k below x l y g := by
  cases h with
  | waits => exact .waits
  | looks later m own device low size looked claims =>
    exact .looks (later.more next holds) (List.mem_append_left _ m) own device low size looked claims

/-- As soon as the slots of the pool are found, the search begins with the first of them. -/
theorem begin_at {q : List Holding} {g : Frame} {above : List Frame} {p : Pool} {first : Nat}
    (t : Traced P handing [] (initial s) z q) (later : Traced (fun z => P z ∧ z.Within below) handing l x z q)
    (home : z.machine.world.Lies k d) (pool : z.machine.world.pools[k]? = some p) (bound : p.first = some first)
    (next : z.Next y) (holds : P y) (after : y.machine.stack = ⟨d, .claiming first p.slots⟩ :: below)
    (stack : y.machine.stack = above ++ g :: below) : Searches P d k below x l y g := by
  obtain ⟨h, m, own, rfl, count, device⟩ := holding_of_lies t pool bound home
  cases lowest_of_cons (after.symm.trans stack)
  exact .looks (later.more next ⟨holds, above, _, stack⟩) (List.mem_append_left _ m) own device (Nat.le_refl _)
    (by rw [count]) (fun j low high => by omega) rfl

/-- The next step of a search goes on, or it answers. -/
theorem step {g g' : Frame} {above : List Frame} (h : Searches P d k below x l z g) (t : Traced P handing [] (initial s) x l)
    (home : ∀ z, P z → z.machine.AtHome) (r : Run (fun z => P z ∧ z.Within below) x z) (next : z.Next y) (holds : P y)
    (stack : z.machine.stack = g :: below) (stack' : y.machine.stack = above ++ g' :: below) :
    Searches P d k below x l y g' ∨ ∃ a q, g' = ⟨d, .answered a⟩ ∧
      Traced (fun z => P z ∧ z.Within below) handing l x z q ∧ Grants P d k below x z q a := by
  cases h with
  | waits =>
    obtain ⟨q, later⟩ := r.traced handing l
    obtain ⟨δ, p, found, pool, enrolls⟩ := next.cases_of_enroll stack
    cases enrolls with
    | bound bound after =>
      have lies := home z r.last.1 ⟨d, .locked (.enroll k)⟩ (by rw [stack]; rfl) k rfl
      exact .inl (begin_at (t.trans (later.mono fun z p => p.1)) later lies pool bound next holds (by rw [after]) stack')
    | fits bound room _ after =>
      have hands := next.handsOut_of_enroll stack found pool
      rw [if_pos ⟨bound, room⟩] at hands
      rw [after] at stack'
      cases lowest_of_cons stack'
      refine .inl (.looks (h := ⟨d, some k, δ.scheduler.declared, p.slots⟩)
        (later.more next ⟨holds, above, _, by rw [after, stack']⟩) (List.mem_append_right _ ?_) rfl (fun _ _ => rfl)
        (Nat.le_refl _) rfl (fun j low high => absurd high (Nat.not_lt.2 low)) rfl)
      rw [hands]
      exact List.mem_cons_self
    | full bound full after =>
      rw [after] at stack'
      exact .inr ⟨_, q, lowest_of_cons stack', later, .noRoom pool bound found full⟩
  | @looks q h act i n later m own device low size looked claims =>
    have t' := t.trans (later.mono fun z p => p.1)
    have goes := next.search_goes stack claims fun left => by
      have has : h.Has i := ⟨low, by omega⟩
      obtain ⟨δ, u, found, -, slot, -⟩ := slot_of_mem t' m own has
      exact ⟨δ, u, device i has ▸ found, slot⟩
    cases goes with
    | ends after =>
      refine .inr ⟨_, q, lowest_of_cons (after.symm.trans stack'), later, .full m own fun j has => looked j has.1 ?_⟩
      have := has.2
      omega
    | passes marked after =>
      cases lowest_of_cons (after.symm.trans stack')
      have has : h.Has i := ⟨low, by omega⟩
      refine .inl (.looks (later.more next ⟨holds, above, _, stack'⟩) (List.mem_append_left _ m) own device (by omega)
        (by omega) (fun j low high => ?_) rfl)
      by_cases here : j = i
      · subst here
        exact ⟨z, r, ⟨act, _, stack, claims⟩, mem_taken.2 ⟨has, by rw [device j has]; exact marked⟩⟩
      · exact looked j low (by omega)
    | asks after =>
      cases lowest_of_cons_cons (after.symm.trans stack')
      exact .inl (.looks (later.more next ⟨holds, above, _, stack'⟩) (List.mem_append_left _ m) own device low size looked rfl)
    | takes takes after =>
      have has : h.Has i := ⟨low, by omega⟩
      refine .inr ⟨_, q, lowest_of_cons (after.symm.trans stack'), later, ?_⟩
      refine .slot m own (device i has) has (fun taken => ?_) takes
      have marked := (mem_taken.1 taken).2
      rw [device i has, not_marked_of_takes takes] at marked
      cases marked

end Searches

/-- A call for a slot of a pool is answered with a slot of the pool that was free, or with none; and with none only if each
slot was taken when the search looked at it, or if the arena has no room for the pool. -/
theorem answer_of_alloc {a : Answer} (t : Traced P handing [] (initial s) x l) (home : ∀ z, P z → z.machine.AtHome)
    (top : x.machine.stack = ⟨d, .perform self (.alloc k)⟩ :: below) (r : Run (fun z => P z ∧ z.Within below) x y)
    (answered : y.machine.stack = ⟨d, .answered a⟩ :: below) :
    ∃ w q, Traced (fun z => P z ∧ z.Within below) handing l x w q ∧ w.Next y ∧ Grants P d k below x w q a := by
  have first : ∀ z g above, x.Next z → P z → z.machine.stack = above ++ g :: below → Searches P d k below x l z g := by
    intro z g above next holds stack
    obtain ⟨p, pool, after⟩ := next.searches top
    cases bound : p.first with
    | some first =>
      rw [bound] at after
      have lies := home x r.first.1 ⟨d, .perform self (.alloc k)⟩ (by rw [top]; rfl) k rfl
      exact Searches.begin_at t (.here r.first) lies pool bound next holds (by rw [after]) stack
    | none =>
      rw [bound] at after
      obtain ⟨bodies, after⟩ := after
      cases lowest_of_cons_cons (after.symm.trans stack)
      exact .waits
  have unanswered : ∀ {z : Moment}, ¬Searches P d k below x l z ⟨d, .answered a⟩ := by
    intro z told
    cases told with
    | looks _ _ _ _ _ _ _ claims => cases claims
  have last : x.Next y ∨ ∃ w g, Run (fun z => P z ∧ z.Within below) x w ∧ w.machine.stack = g :: below ∧
      (Searches P d k below x l w g ∨ ∃ b, g = ⟨d, .answered b⟩) ∧ w.Next y := by
    refine r.answer (I := fun z g => Searches P d k below x l z g ∨ ∃ b, g = ⟨d, .answered b⟩) (stacked_of_run t.run) top rfl
      (fun _ => Act.noConfusion) answered (fun z g above next holds stack => .inl (first z g above next holds stack))
      (fun z g h => ?_) (fun z z' g h _ next holds within => ?_) fun z z' g g' above h before next holds stack stack' => ?_
    · rcases h with h | ⟨b, rfl⟩
      · exact h.straight
      · rfl
    · exact h.imp_left fun h => h.kept next ⟨holds, within⟩
    · rcases h with h | ⟨b, rfl⟩
      · exact (h.step t home before next holds stack stack').imp_right fun ⟨b, _, same, _⟩ => ⟨b, same⟩
      · exact absurd ⟨above, g', stack'⟩ (next.not_within stack)
  rcases last with next | ⟨w, g, before, stack, h | ⟨b, rfl⟩, next⟩
  · exact absurd (first y _ [] next r.last.1 answered) unanswered
  · rcases h.step t home before next r.last.1 stack (show y.machine.stack = [] ++ _ :: below from answered) with
      told | ⟨b, q, same, later, grants⟩
    · exact absurd told unanswered
    · cases same
      exact ⟨w, q, later, next, grants⟩
  · exact absurd ⟨[], _, answered⟩ (next.not_within stack)

end Moment

/-! ## Searches that no interrupt disturbs -/

namespace World

variable {w : World} {d : Nat} {δ : Device} {below : List Frame} {armed : Prop}

/-- The lowest of the `n` slots from `i` on that is free. -/
def lowestFree (w : World) (d i n : Nat) : Option Nat := (List.range' i n).find? fun j => !w.marks d j

theorem claim_eq {i left : Nat} {t : Task} {σ : Scheduler} {ps : Pools} (slot : δ.scheduler.arena[i]? = some t)
    (free : t.allocated = false) (taken : δ.scheduler.alter i Task.handOut = .ok σ) (wiped : w.wiped t.payload = .ok ps) :
    w.claim d δ i left = .ok ({ w with pools := ps }.answering d (δ.withScheduler σ) (.slot (some ⟨i⟩))) := by
  rw [claim, Arena.slot_eq_ok_iff.2 slot]
  simp only [bind, Except.bind, free, taken, wiped]
  rfl

/-- The answer of a search among the `n` slots from `i` on, in an arena of the size: the lowest slot that is free. A slot that
does not lie in the arena looks free. -/
def searched (w : World) (d size i n : Nat) : Answer :=
  match w.lowestFree d i n with
  | none => .slot none
  | some j => if j < size then .slot (some ⟨j⟩) else .outOfBounds

theorem searched_eq_slot {size i n : Nat} (room : ∀ j, i ≤ j → j < i + n → j < size) :
    w.searched d size i n = .slot ((w.lowestFree d i n).map TaskId.mk) := by
  unfold searched
  split
  · rename_i none
    rw [none]
    rfl
  · rename_i j some
    obtain ⟨low, high⟩ := List.mem_range'_1.1 (List.mem_of_find?_eq_some some)
    rw [some, if_pos (room j low high)]
    rfl

/-- A search comes to a slot that does not lie in the arena when it is to go that far and each slot on the way is taken. -/
theorem searched_eq_outOfBounds_iff {i n : Nat} (found : w.devices[d]? = some δ) (long : 0 < n) :
    w.searched d δ.scheduler.capacity i n = .outOfBounds ↔
      δ.scheduler.capacity < i + n ∧ ∀ j, i ≤ j → j < δ.scheduler.capacity → w.marks d j = true := by
  have free : ∀ j, δ.scheduler.capacity ≤ j → w.marks d j = false := fun j beyond => by
    rw [marks_eq found, Array.getElem?_eq_none beyond]
    rfl
  have lowest : ∀ {j}, w.lowestFree d i n = .some j → w.marks d j = false ∧ (i ≤ j ∧ j < i + n) ∧
      ∀ k, i ≤ k → k < j → w.marks d k = true := fun same => by
    obtain ⟨here, mem, before⟩ := List.find?_range'_eq_some.1 same
    exact ⟨by simpa using here, List.mem_range'_1.1 mem, fun k low high => by simpa using before k low high⟩
  constructor
  · intro beyond
    cases same : w.lowestFree d i n with
    | none => simp [searched, same] at beyond
    | some j =>
      obtain ⟨-, ⟨-, high⟩, before⟩ := lowest same
      have outside : δ.scheduler.capacity ≤ j := by
        by_contra inside
        simp [searched, same, Nat.lt_of_not_le inside] at beyond
      exact ⟨by omega, fun k low inside => before k low (by omega)⟩
  · rintro ⟨beyond, taken⟩
    cases same : w.lowestFree d i n with
    | none =>
      -- The last slot that the search is to look at is free: it does not lie in the arena.
      have last := List.find?_eq_none.1 same (i + n - 1) (List.mem_range'_1.2 (by omega))
      simp [free (i + n - 1) (by omega)] at last
    | some j =>
      obtain ⟨here, ⟨low, -⟩, -⟩ := lowest same
      have outside : ¬j < δ.scheduler.capacity := fun inside => by simp [taken j low inside] at here
      rw [searched, same]
      exact if_neg outside

/-- What a search that is not disturbed comes to. -/
theorem concludes_search (found : w.devices[d]? = some δ) (stored : δ.scheduler.Stored w.pools)
    (calm : δ.board.interrupts ≠ [] → armed) {i n : Nat} :
    Machine.Concludes d below armed (fun a _ => a = w.searched d δ.scheduler.capacity i n)
      ⟨w, ⟨d, .claiming i n⟩ :: below⟩ := by
  induction n generalizing i with
  | zero => exact .answer (a := .slot none) (v := w) (ε := δ) rfl found (by rfl) (by rfl)
  | succ n ih =>
    rw [searched, lowestFree, List.range'_succ]
    by_cases inside : i < δ.scheduler.arena.size
    · have slot : δ.scheduler.arena[i]? = some δ.scheduler.arena[i] := Array.getElem?_eq_getElem inside
      have marks := World.marks_of_slot found slot
      have does : w.step d δ (.claiming i (n + 1)) = .ok (if δ.scheduler.arena[i].allocated then
          w.leaving d δ [.claiming (i + 1) n] else w.calling d δ .lock [.locked (.claim i n)]) := by
        show Except.ok (w.claiming d δ i (n + 1)) = _
        rw [claiming, slot]
      cases allocated : δ.scheduler.arena[i].allocated with
      | true =>
        rw [allocated] at marks does
        rw [List.find?_cons_of_neg (by simp [marks])]
        refine .move rfl found does ?_
        show Machine.Concludes d below armed _ ⟨w.put d δ, _⟩
        rw [put_self found]
        exact ih
      | false =>
        rw [allocated] at marks does
        rw [List.find?_cons_of_pos (by simp [marks])]
        obtain ⟨σ, taken⟩ := Scheduler.alter_succeeds (σ := δ.scheduler) (f := Task.handOut) inside
        obtain ⟨a, changed, rfl⟩ := Scheduler.alter_eq_ok taken
        have taken' : ∀ b, (δ.withBoard b).scheduler.alter i Task.handOut = .ok { δ.scheduler with arena := a } :=
          fun _ => taken
        obtain ⟨ps, wiped⟩ := wiped_succeeds stored (Arena.slot_eq_ok_iff.2 slot)
        refine .call rfl found found does calm ?_
        exact .answer rfl (device_put found) (claim_eq slot allocated (taken' _) wiped) (if_pos inside).symm
    · have none := Array.getElem?_eq_none (Nat.not_lt.1 inside)
      rw [List.find?_cons_of_pos (by rw [marks_eq found, none]; rfl)]
      refine .answer (a := .outOfBounds) (v := w) (ε := δ) rfl found ?_ (if_neg inside).symm
      show Except.ok (w.claiming d δ i (n + 1)) = _
      rw [claiming, none]

/-- A search that is not disturbed comes to the lowest slot that is free, if the arena reaches as far as it is to go. -/
theorem concludes_claiming (found : w.devices[d]? = some δ) (stored : δ.scheduler.Stored w.pools)
    (calm : δ.board.interrupts ≠ [] → armed) {i n : Nat} (room : ∀ j, i ≤ j → j < i + n → j < δ.scheduler.arena.size) :
    Machine.Concludes d below armed (fun a _ => a = .slot ((w.lowestFree d i n).map TaskId.mk))
      ⟨w, ⟨d, .claiming i n⟩ :: below⟩ :=
  (concludes_search found stored calm).mono fun _ _ same => same.trans (searched_eq_slot room)

/-! ## Undisturbed calls for a slot -/

variable {k : Nat} {p : Pool}

theorem alloc_eq (pool : w.pools[k]? = some p) : w.alloc d δ k = .ok (match p.first with
    | some first => w.leaving d δ [.claiming first p.slots]
    | none => w.calling d δ .lock [.locked (.enroll k)]) := by
  rw [alloc, Pools.pool_succeeds pool]
  simp only [bind, Except.bind]
  cases p.first <;> rfl

theorem enroll_eq_handOver {a : Arena} (pool : w.pools[k]? = some p) (unbound : p.first = none)
    (room : δ.scheduler.declared + p.slots ≤ δ.scheduler.capacity)
    (made : Scheduler.enrollSlots δ.scheduler.arena k p.slotSize δ.scheduler.declared p.slots = .ok a) :
    w.enroll d δ k = .ok ⟨w.handOver d δ k p a, [⟨d, .claiming δ.scheduler.declared p.slots⟩]⟩ := by
  rw [enroll, Scheduler.enrollPool, Pools.pool_succeeds pool]
  simp only [bind, Except.bind, unbound, Scheduler.takeSlots, if_pos room, made]
  rfl

theorem enroll_eq_noRoom (pool : w.pools[k]? = some p) (unbound : p.first = none)
    (full : ¬δ.scheduler.declared + p.slots ≤ δ.scheduler.capacity) :
    w.enroll d δ k = .ok ((w.log (.noRoom p.slots)).answering d δ (.slot none)) := by
  rw [enroll, Scheduler.enrollPool, Pools.pool_succeeds pool]
  simp only [bind, Except.bind, unbound, Scheduler.takeSlots, if_neg full]

theorem lowestFree_handOver {a : Arena} (found : w.devices[d]? = some δ)
    (made : Scheduler.enrollSlots δ.scheduler.arena k p.slotSize δ.scheduler.declared p.slots = .ok a) :
    (w.handOver d δ k p a).lowestFree d δ.scheduler.declared p.slots = (List.range' δ.scheduler.declared p.slots).head? := by
  have free := fun i low high => marks_handOver (i := i) found made low high
  rw [lowestFree]
  generalize p.slots = n at free ⊢
  cases n with
  | zero => rfl
  | succ n =>
    rw [List.range'_succ, List.find?_cons_of_pos (by rw [free _ (Nat.le_refl _) (by omega)]; rfl)]
    rfl

/-- Slots that a pool comes to have room in its store. -/
theorem stored_handOver {a : Arena} (stored : δ.scheduler.Stored w.pools) (pool : w.pools[k]? = some p)
    (full : p.storage.length = p.slots * p.slotSize)
    (made : Scheduler.enrollSlots δ.scheduler.arena k p.slotSize δ.scheduler.declared p.slots = .ok a) :
    ({ δ.scheduler with declared := δ.scheduler.declared + p.slots, arena := a } : Scheduler).Stored
      (w.handOver d δ k p a).pools := by
  have there : ∀ {j : Nat} {q : Pool}, w.pools[j]? = some q → ∃ q', (w.handOver d δ k p a).pools[j]? = some q' ∧
      q'.storage.length = q.storage.length := by
    intro j q found
    rw [show (w.handOver d δ k p a).pools = w.pools.setIfInBounds k { p with first := some δ.scheduler.declared } from rfl,
      Array.getElem?_setIfInBounds]
    by_cases here : k = j
    · subst here
      cases pool.symm.trans found
      rw [if_pos rfl, if_pos (Array.getElem?_eq_some_iff.1 pool).1]
      exact ⟨_, rfl, rfl⟩
    · rw [if_neg here]
      exact ⟨q, found, rfl⟩
  intro i t segment length slot payload
  rw [Arena.getElem?_enrollSlots made] at slot
  split at slot
  · rename_i new
    obtain ⟨u, -, rfl⟩ := Option.map_eq_some_iff.1 slot
    cases payload
    obtain ⟨q, same, long⟩ := there pool
    refine ⟨Nat.zero_le _, q, same, ?_⟩
    have last : (i - δ.scheduler.declared + 1) * p.slotSize ≤ p.slots * p.slotSize := Nat.mul_le_mul_right _ (by omega)
    rw [long, full]
    rwa [Nat.succ_mul] at last
  · obtain ⟨short, q, same, room⟩ := stored i t segment length slot payload
    obtain ⟨q', same', long⟩ := there same
    exact ⟨short, q', same', long ▸ room⟩

variable (self : Option Nat) (below)

/-- A pool that has its slots searches through them. -/
theorem concludes_alloc_searched {first : Nat} (found : w.devices[d]? = some δ) (stored : δ.scheduler.Stored w.pools)
    (pool : w.pools[k]? = some p) (bound : p.first = some first) :
    Machine.Concludes d below (δ.board.interrupts ≠ []) (fun a _ => a = w.searched d δ.scheduler.capacity first p.slots)
      ⟨w, ⟨d, .perform self (.alloc k)⟩ :: below⟩ := by
  refine .move rfl found (show w.alloc d δ k = _ from alloc_eq pool) ?_
  rw [bound]
  show Machine.Concludes d below _ _ ⟨w.put d δ, _⟩
  rw [put_self found]
  exact concludes_search found stored fun armed => armed

/-- A pool that has its slots in the arena gives the lowest of them that is free. -/
theorem concludes_alloc_bound {first : Nat} (found : w.devices[d]? = some δ) (stored : δ.scheduler.Stored w.pools)
    (pool : w.pools[k]? = some p) (bound : p.first = some first)
    (room : ∀ j, first ≤ j → j < first + p.slots → j < δ.scheduler.arena.size) :
    Machine.Concludes d below (δ.board.interrupts ≠ [])
      (fun a _ => a = .slot ((w.lowestFree d first p.slots).map TaskId.mk)) ⟨w, ⟨d, .perform self (.alloc k)⟩ :: below⟩ :=
  (concludes_alloc_searched below self found stored pool bound).mono fun _ _ same => same.trans (searched_eq_slot room)

/-- A pool that comes to its slots with the call gives the first of them. -/
theorem concludes_alloc_fresh (found : w.devices[d]? = some δ) (stored : δ.scheduler.Stored w.pools)
    (pool : w.pools[k]? = some p) (full : p.storage.length = p.slots * p.slotSize) (unbound : p.first = none)
    (room : δ.scheduler.declared + p.slots ≤ δ.scheduler.capacity) :
    Machine.Concludes d below (δ.board.interrupts ≠ [])
      (fun a _ => a = .slot ((List.range' δ.scheduler.declared p.slots).head?.map TaskId.mk))
      ⟨w, ⟨d, .perform self (.alloc k)⟩ :: below⟩ := by
  refine .call rfl found found ((alloc_eq pool).trans (by rw [unbound])) (fun armed => armed) ?_
  obtain ⟨ε, called⟩ : ∃ ε, δ.withBoard (δ.board.called .lock).1 = ε := ⟨_, rfl⟩
  have there := device_put (ε := ε) found
  obtain ⟨scheduler, calm⟩ : ε.scheduler = δ.scheduler ∧ (ε.board.interrupts ≠ [] → δ.board.interrupts ≠ []) := by
    subst called
    exact ⟨rfl, fun armed none => armed (Board.interrupts_called none .lock)⟩
  rw [called]
  rw [← scheduler] at room stored ⊢
  obtain ⟨a, made⟩ : Succeeds (Scheduler.enrollSlots ε.scheduler.arena k p.slotSize ε.scheduler.declared p.slots) :=
    Scheduler.enrollSlots_succeeds room
  refine .move rfl there (enroll_eq_handOver (show (w.put d ε).pools[k]? = some p from pool) unbound room made) ?_
  have fits : ε.scheduler.declared + p.slots ≤ a.size := (Scheduler.size_enrollSlots made).symm ▸ room
  rw [← lowestFree_handOver there made]
  exact concludes_claiming (device_handOver there) (stored_handOver stored pool full made) calm fun j _ high => Nat.lt_of_lt_of_le high fits

/-- A pool that the arena has no room for gives no slot, and changes nothing but the record. -/
theorem concludes_alloc_full (found : w.devices[d]? = some δ) (pool : w.pools[k]? = some p) (unbound : p.first = none)
    (full : ¬δ.scheduler.declared + p.slots ≤ δ.scheduler.capacity) :
    Machine.Concludes d below (δ.board.interrupts ≠ [])
      (fun a w' => a = .slot none ∧ w'.disarmed = (w.log (.noRoom p.slots)).disarmed)
      ⟨w, ⟨d, .perform self (.alloc k)⟩ :: below⟩ := by
  refine .call rfl found found ((alloc_eq pool).trans (by rw [unbound])) (fun armed => armed) ?_
  have there := device_put (ε := δ.withBoard (δ.board.called .lock).1) found
  refine .answer rfl there (enroll_eq_noRoom pool unbound full) ⟨rfl, ?_⟩
  rw [put_self (w := (w.put d _).log _) there]
  exact congrArg (fun w : World => w.log (.noRoom p.slots)) (disarmed_put_called found .lock)

end World

end TimedTasks
