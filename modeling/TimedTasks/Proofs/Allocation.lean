import Mathlib.Data.List.Find
import TimedTasks.Proofs.Search

/-!
# Pools as sets of taken slots

To its clients a pool is the set of its slots that are taken. A call for a slot adds one to it and is answered with that
one, the four kinds of release take slots out of it, and nothing else changes it, whatever interrupts come in between
(`Moment.Account`). The counts that a pool gives are those of the set, and what a call for a slot is answered with follows
from the set (`Moment.Allots`).
-/

namespace TimedTasks

/-! ## Counts -/

/-- The tasks at some places of an arena, and how many of them are taken. -/
theorem Arena.counts {a : Arena} {is : List Nat} (inside : ∀ i ∈ is, i < a.size) :
    ∃ ts : List Task, (is.mapM fun i => a[i]?) = some ts ∧ ts.length = is.length ∧
      ts.countP (·.allocated) = (is.filter fun i => a[i]?.any Task.allocated).length := by
  induction is with
  | nil => exact ⟨[], rfl, rfl, rfl⟩
  | cons i is ih =>
    obtain ⟨ts, found, length, count⟩ := ih fun j m => inside j (List.mem_cons_of_mem _ m)
    have bound := inside i List.mem_cons_self
    have slot : a[i]? = some a[i] := Array.getElem?_eq_getElem bound
    refine ⟨a[i] :: ts, by rw [List.mapM_cons, slot, found]; rfl, congrArg Nat.succ length, ?_⟩
    rw [List.countP_cons, count, List.filter_cons, slot, Option.any_some]
    split <;> rfl

/-- A step that answers with a refusal leaves the scheduler as it is. -/
theorem Leads.scheduler_of_failed {w : World} {δ : Device} {act : Act} {t : Stride} {e : Error} (l : Leads w δ act t)
    (failed : t.frames = [.answered (.failed e)]) : t.scheduler = δ.scheduler := by
  cases l <;> first | rfl | simp [Stride.frames] at failed

namespace Moment

variable {P : Moment → Prop} {s : Setup} {x y z : Moment} {d k i : Nat} {l : List Holding} {h : Holding}
  {self : Option Nat} {below : List Frame}

/-- The counts of a pool are those of its slots that are taken and of those that are not. -/
theorem Next.counts (next : x.Next y) (t : Traced P handing [] (initial s) x l) (m : h ∈ l) (own : h.pool = some k)
    (top : x.machine.stack = ⟨h.device, .perform self (.pool k)⟩ :: below) :
    ∃ row, y.machine.stack = ⟨h.device, .answered (.pool row)⟩ :: below ∧ row.slots = h.count ∧
      row.allocated = (x.taken h).length ∧ row.allocated + row.free = row.slots := by
  obtain ⟨δ, move, found, done, eq⟩ := next.performs top
  obtain ⟨p, pool, first, count, -⟩ := (Moment.ledger t).of_pool m own
  obtain ⟨tiles, room⟩ := (Moment.ledger t).tiles h.device δ found
  have inside : ∀ i ∈ List.range' h.first p.slots, i < δ.scheduler.arena.size := by
    intro i mem
    have bound := tiles.le (List.mem_filter.2 ⟨m, by simp⟩)
    have := (List.mem_range'_1.1 mem).2
    exact Nat.lt_of_lt_of_le (by omega) room
  obtain ⟨ts, tasks, length, taken⟩ := Arena.counts inside
  have row : p.row? δ.scheduler.arena =
      some ⟨p.slots, p.slotSize, true, ts.countP (·.allocated), ts.countP (!·.allocated)⟩ := by
    rw [Pool.row?, first]
    simp only [bind, Option.bind, tasks]
  have done : x.machine.world.countPool h.device δ k = .ok move := done
  rw [World.countPool, Pools.pool_succeeds pool] at done
  simp only [bind, Except.bind, row] at done
  cases done
  refine ⟨_, by rw [eq]; rfl, count.symm, ?_, ?_⟩
  · show ts.countP (·.allocated) = _
    rw [taken, Moment.taken, count]
    exact congrArg List.length (List.filter_congr fun i _ => (World.marks_eq found).symm)
  · show ts.countP (·.allocated) + ts.countP (!·.allocated) = p.slots
    rw [← length.trans List.length_range', List.length_eq_countP_add_countP Task.allocated]
    congr 1
    exact List.countP_congr fun t _ => by simp

/-- A pool that has no slots yet says so. -/
theorem Next.counts_unbound {p : Pool} (next : x.Next y) (top : x.machine.stack = ⟨d, .perform self (.pool k)⟩ :: below)
    (pool : x.machine.world.pools[k]? = some p) (unbound : p.first = none) :
    y.machine.stack = ⟨d, .answered (.pool ⟨p.slots, p.slotSize, false, 0, p.slots⟩)⟩ :: below := by
  obtain ⟨δ, move, found, done, eq⟩ := next.performs top
  have done : x.machine.world.countPool d δ k = .ok move := done
  rw [World.countPool, Pools.pool_succeeds pool] at done
  simp only [bind, Except.bind, Pool.row?, unbound] at done
  cases done
  rw [eq]
  rfl

/-! ## The account of a pool -/

/-- An operation that fails takes no slot and releases none. -/
theorem Next.marks_of_failed {f : Frame} {e : Error} {d' : Nat} (next : x.Next y) (top : x.machine.stack = f :: below)
    (failed : y.machine.stack = ⟨d', .answered (.failed e)⟩ :: below) :
    y.machine.world.marks d i = x.machine.world.marks d i := by
  have idle : y.machine.world.devices[d]? = x.machine.world.devices[d]? →
      y.machine.world.marks d i = x.machine.world.marks d i := fun same => by rw [World.marks, World.marks, same]
  cases next.machine.turn with
  | works c act rest δ t top' found l takes =>
    cases top.symm.trans top'
    have frames : t.frames.map (Frame.mk c) = [⟨d', .answered (.failed e)⟩] :=
      List.append_cancel_right (takes.stack.symm.trans failed)
    obtain ⟨a, single, same⟩ := List.map_eq_singleton_iff.1 frames
    cases same
    by_cases here : d' = d
    · subst here
      rw [World.marks_eq (takes.device_same found), World.marks_eq found, Stride.scheduler_device, l.scheduler_of_failed single]
    · exact idle (takes.device here)
  | delivers c c' ms act rest δ t top' found l takes =>
    by_cases here : c = d
    · subst here
      rw [World.marks_eq (takes.device_same found), World.marks_eq found, Stride.scheduler_device]
      cases l <;> rfl
    · exact idle (takes.device here)
  | redirects c c' self op rest _ world => exact idle (by rw [world])
  | answers c c' a act rest _ _ alike => exact idle (by rw [alike.devices])
  | finishes c a _ world => exact idle (by rw [world])
  | calls c op _ world => exact idle (by rw [world])

/-- The lowest slot of a holding that is not taken. -/
def lowestFree (x : Moment) (h : Holding) : Option Nat := (List.range' h.first h.count).find? (· ∉ x.taken h)

theorem lowestFree_eq (x : Moment) (h : Holding) :
    x.lowestFree h = x.machine.world.lowestFree h.device h.first h.count := by
  refine List.find?_congr fun i m => ?_
  have has : h.Has i := List.mem_range'_1.1 m
  cases marked : x.machine.world.marks h.device i <;> simp [mem_taken, has, marked]

/-- The account of pool `k`, which has the holding `h`: what becomes of its taken slots, and what is said of them. -/
structure Account (P : Moment → Prop) (s : Setup) (x : Moment) (h : Holding) (k : Nat) : Prop where
  /-- A slot is taken after a step if it was and is not released, or if it is the one that the step takes. -/
  step : ∀ i y, x.Next y → h.Has i →
    (i ∈ y.taken h ↔ (i ∈ x.taken h ∧ x.releases h.device i = false) ∨ x.takes = some (h.device, i))
  /-- The slot that a step takes was free, and it is the answer to a call for a slot of this pool. -/
  taker : ∀ i y, x.Next y → P y → h.Has i → x.takes = some (h.device, i) → i ∉ x.taken h ∧
    ∃ z self below, Run P (initial s) z ∧ z.machine.stack = ⟨h.device, .perform self (.alloc k)⟩ :: below ∧
      Run (fun z => P z ∧ z.Within below) z x ∧ y.machine.stack = ⟨h.device, .answered (.slot (some ⟨i⟩))⟩ :: below
  /-- A refusal changes nothing. -/
  refused : ∀ f below d e y, x.Next y → x.machine.stack = f :: below →
    y.machine.stack = ⟨d, .answered (.failed e)⟩ :: below → y.taken h = x.taken h
  /-- Until it is released, a slot that is taken stays so and is not taken again. -/
  held : ∀ i ∈ x.taken h, ∀ y, Run (fun z => P z ∧ z.releases h.device i = false) x y →
    i ∈ y.taken h ∧ y.takes ≠ some (h.device, i)
  /-- The pool tells how many slots are taken and how many are not. -/
  counts : ∀ self below y, x.Next y → x.machine.stack = ⟨h.device, .perform self (.pool k)⟩ :: below →
    ∃ row, y.machine.stack = ⟨h.device, .answered (.pool row)⟩ :: below ∧ row.slots = h.count ∧
      row.allocated = (x.taken h).length ∧ row.allocated + row.free = row.slots

/-- What a call for a slot of pool `k` on device `d`, which begins at `x` with the holdings `l`, is answered with. -/
structure Allots (P : Moment → Prop) (x : Moment) (l : List Holding) (d k : Nat) (below : List Frame) : Prop where
  /-- Whatever interrupts come: a slot that was free, or none because the slots were taken or there is no room for them. -/
  grants : ∀ y a, Run (fun z => P z ∧ z.Within below) x y → y.machine.stack = ⟨d, .answered a⟩ :: below →
    ∃ w q, Traced (fun z => P z ∧ z.Within below) handing l x w q ∧ w.Next y ∧ Grants P d k below x w q a
  /-- Without interrupts: the lowest slot of the pool that is not taken. -/
  lowest : ∀ h ∈ l, h.pool = some k → ∀ y a, Run (fun z => z.Within below ∧ z.machine.Undisturbed) x y →
    y.machine.stack = ⟨d, .answered a⟩ :: below → a = .slot ((x.lowestFree h).map TaskId.mk)
  /-- Without interrupts, when the pool has no slots yet: the first of the slots that it comes to, if there is room. -/
  first : ∀ δ p, x.machine.world.devices[d]? = some δ → x.machine.world.pools[k]? = some p → p.first = none →
    ∀ y a, Run (fun z => z.Within below ∧ z.machine.Undisturbed) x y → y.machine.stack = ⟨d, .answered a⟩ :: below →
      a = .slot (if δ.scheduler.declared + p.slots ≤ δ.scheduler.capacity then
        (List.range' δ.scheduler.declared p.slots).head?.map TaskId.mk else none)
  /-- If no interrupts are armed, there is an answer. -/
  ends : ∀ δ p, x.machine.world.devices[d]? = some δ → x.machine.world.pools[k]? = some p → δ.board.interrupts = [] →
    ∃ y a, Run (fun z => z.Within below ∧ z.machine.Undisturbed) x y ∧ y.machine.stack = ⟨d, .answered a⟩ :: below

/-- The segment of a slot names its pool, so a slot is held for one pool only, whichever way the holdings were noted. -/
theorem pool_eq_of_has {Q : Moment → Prop} {s' : Setup} {l' : List Holding} {h' : Holding} {k' : Nat}
    (t : Traced P handing [] (initial s) x l) (t' : Traced Q handing [] (initial s') x l') (m : h ∈ l) (m' : h' ∈ l')
    (own : h.pool = some k) (own' : h'.pool = some k') (device : h'.device = h.device) (has : h.Has i) (has' : h'.Has i) :
    k' = k := by
  obtain ⟨δ, found⟩ := device_of_mem t m
  obtain ⟨p, pool, -⟩ := (ledger t).of_pool m own
  obtain ⟨p', pool', -⟩ := (ledger t').of_pool m' own'
  obtain ⟨u, slot, place⟩ := (placed t).held h m k p δ i own pool found has
  obtain ⟨u', slot', place'⟩ := (placed t').held h' m' k' p' δ i own' pool' (device ▸ found) has'
  cases slot.symm.trans slot'
  exact congrArg Segment.pool (Option.some.inj (place'.symm.trans place))

/-- A slot of a pool is taken by a call for a slot of that pool. -/
theorem called_of_takes (t : Traced P handing [] (initial s) x l) (home : ∀ z, P z → z.machine.AtHome) (m : h ∈ l)
    (own : h.pool = some k) (has : h.Has i) (takes : x.takes = some (h.device, i)) (next : x.Next y) (holds : P y) :
    ∃ z self below, Run P (initial s) z ∧ z.machine.stack = ⟨h.device, .perform self (.alloc k)⟩ :: below ∧
      Run (fun z => P z ∧ z.Within below) z x ∧ y.machine.stack = ⟨h.device, .answered (.slot (some ⟨i⟩))⟩ :: below := by
  obtain ⟨j, left, below, top, given⟩ := takes_eq_some_iff.1 takes
  obtain ⟨δ, -, found, -⟩ := slot_of_mem t m own has
  have answered : y.machine.stack = ⟨h.device, .answered (.slot (some ⟨i⟩))⟩ :: below := by
    rw [next.answers top] at given
    obtain ⟨u, -, after⟩ := next.takes_slot top found
    split at after
    · rw [after] at given
      cases given
    · obtain ⟨σ, ps, -, -, after⟩ := after
      rw [after] at given ⊢
      cases given
      rfl
  obtain ⟨z, self, j', before, called, later⟩ := sought t.run (show x.machine.stack = [] ++ _ :: below from top) rfl
  -- The call is for a slot of the pool that has this one: the segment of the slot names it.
  obtain ⟨q, before'⟩ := before.traced handing []
  have whole := later.more next ⟨holds, [], _, answered⟩
  obtain ⟨w, q', later', nextW, grants⟩ := answer_of_alloc before' home called whole answered
  cases grants with
  | slot m' own' device has' =>
    have here := t.more next holds
    have there := (before'.trans (later'.mono fun _ p => p.1)).more nextW holds
    obtain rfl := pool_eq_of_has here there (List.mem_append_left _ m) (List.mem_append_left _ m') own own' device has has'
    exact ⟨z, self, below, before, called, later, answered⟩

/-- Without interrupts, a call for a slot comes to the lowest one that is free. -/
theorem alloc_concludes {δ : Device} {p : Pool} (t : Traced P handing [] (initial s) x l) (home : x.machine.AtHome)
    (top : x.machine.stack = ⟨d, .perform self (.alloc k)⟩ :: below) (found : x.machine.world.devices[d]? = some δ)
    (pool : x.machine.world.pools[k]? = some p) :
    Machine.Concludes d below (δ.board.interrupts ≠ []) (fun a _ =>
      (∀ h ∈ l, h.pool = some k → a = .slot ((x.lowestFree h).map TaskId.mk)) ∧
      (p.first = none → a = .slot (if δ.scheduler.declared + p.slots ≤ δ.scheduler.capacity then
        (List.range' δ.scheduler.declared p.slots).head?.map TaskId.mk else none)))
      ⟨x.machine.world, ⟨d, .perform self (.alloc k)⟩ :: below⟩ := by
  have stored := (Moment.stored t.run).scheduler found
  cases bound : p.first with
  | some first =>
    have lies := home ⟨d, .perform self (.alloc k)⟩ (by rw [top]; rfl) k rfl
    obtain ⟨h, m, own, rfl, count, device⟩ := holding_of_lies t pool bound lies
    have inside : ∀ j, h.first ≤ j → j < h.first + p.slots → j < δ.scheduler.arena.size := by
      intro j low high
      have has : h.Has j := ⟨low, by omega⟩
      obtain ⟨δ', u, found', -, slot, -⟩ := slot_of_mem t m own has
      cases found.symm.trans (device j has ▸ found')
      exact (Array.getElem?_eq_some_iff.1 slot).1
    refine (World.concludes_alloc_bound below self found stored pool bound inside).mono fun a _ answer =>
      ⟨fun h' m' own' => ?_, fun none => by cases none⟩
    obtain ⟨-, -, -, -, only⟩ := (ledger t).of_pool m own
    rw [answer, only h' m' own', lowestFree_eq, ← count]
    by_cases empty : h.count = 0
    · rw [empty]
      rfl
    · rw [device h.first ⟨Nat.le_refl _, by omega⟩]
  | none =>
    have absent : ∀ h ∈ l, h.pool = some k → False := by
      intro h m own
      obtain ⟨q, pool', first, -⟩ := (ledger t).of_pool m own
      cases pool.symm.trans pool'
      cases bound.symm.trans first
    by_cases room : δ.scheduler.declared + p.slots ≤ δ.scheduler.capacity
    · have full := full t.run k p pool
      refine (World.concludes_alloc_fresh below self found stored pool full bound room).mono fun a _ answer =>
        ⟨fun h m own => (absent h m own).elim, fun _ => ?_⟩
      rw [if_pos room, answer]
    · refine (World.concludes_alloc_full below self found pool bound room).mono fun a _ answer =>
        ⟨fun h m own => (absent h m own).elim, fun _ => ?_⟩
      rw [if_neg room, answer.1]

theorem account (t : Traced P handing [] (initial s) x l) (home : ∀ z, P z → z.machine.AtHome) (m : h ∈ l)
    (own : h.pool = some k) : x.Account P s h k where
  step i y next has := next.mem_taken_iff t m own has
  taker i y next holds has takes := by
    refine ⟨fun taken => ?_, called_of_takes t home m own has takes next holds⟩
    have marked := (mem_taken.1 taken).2
    rw [not_marked_of_takes takes] at marked
    cases marked
  refused f below d e y next top failed := List.filter_congr fun i _ => next.marks_of_failed top failed
  held i taken y kept := by
    have later := taken_of_kept t m own taken kept
    refine ⟨later, fun takes => ?_⟩
    have marked := (mem_taken.1 later).2
    rw [not_marked_of_takes takes] at marked
    cases marked
  counts self below y next top := next.counts t m own top

theorem allots (t : Traced P handing [] (initial s) x l) (home : ∀ z, P z → z.machine.AtHome)
    (top : x.machine.stack = ⟨d, .perform self (.alloc k)⟩ :: below) : x.Allots P l d k below := by
  have concludes := fun {δ p} => alloc_concludes (δ := δ) (p := p) t (home x t.run.last) top
  -- A call that is answered was begun, so its device and its pool are there.
  have begun : ∀ {y a}, Run (fun z => z.Within below ∧ z.machine.Undisturbed) x y →
      y.machine.stack = ⟨d, .answered a⟩ :: below →
      ∃ δ p, x.machine.world.devices[d]? = some δ ∧ x.machine.world.pools[k]? = some p := by
    intro y a r answered
    rcases r.here_or_next with rfl | ⟨z, next, -⟩
    · cases top.symm.trans answered
    · obtain ⟨δ, -, found, -⟩ := next.performs top
      obtain ⟨p, pool, -⟩ := next.searches top
      exact ⟨δ, p, found, pool⟩
  refine ⟨fun y a r answered => answer_of_alloc t home top r answered, fun h m own y a r answered => ?_,
    fun δ p found pool unbound y a r answered => ?_, fun δ p found pool calm => ?_⟩
  · obtain ⟨δ, p, found, pool⟩ := begun r answered
    exact ((concludes found pool).of_run top r answered).1 h m own
  · exact ((concludes found pool).of_run top r answered).2 unbound
  · obtain ⟨y, a, r, answered, -⟩ := (concludes found pool).reaches top fun armed => armed calm
    exact ⟨y, a, r, answered⟩

/-- In every run in which pools are used where their slots lie, whatever handlers and interrupts call: a pool is the set of
its slots that are taken. A call for a slot adds the slot that it is answered with, which was not in the set; a slot leaves
it only when it is released; and nothing else changes it. None of the slots that a pool comes to is in it. The counts of the
pool are those of the set, and a call for a slot is answered with none only if each slot of the pool was in the set when the
search looked at it, or if there is no room for the pool. If no interrupt comes, it is answered with the lowest slot that is
not in the set. -/
theorem pools_refine_taken (t : Traced P handing [] (initial s) x l) (home : ∀ z, P z → z.machine.AtHome) :
    (∀ h ∈ l, ∀ k, h.pool = some k → x.Account P s h k) ∧
    (∀ h k y, x.Next y → x.handsOut = some h → h.pool = some k → y.taken h = []) ∧
    (∀ d self k below, x.machine.stack = ⟨d, .perform self (.alloc k)⟩ :: below → x.Allots P l d k below) ∧
    ∀ d self k p below y, x.machine.stack = ⟨d, .perform self (.pool k)⟩ :: below → x.machine.world.pools[k]? = some p →
      p.first = none → x.Next y →
        y.machine.stack = ⟨d, .answered (.pool ⟨p.slots, p.slotSize, false, 0, p.slots⟩)⟩ :: below :=
  ⟨fun _ m _ own => account t home m own, fun _ _ _ next hands own => next.taken_eq_nil hands own,
    fun _ _ _ _ top => allots t home top, fun _ _ _ _ _ _ top pool unbound next => next.counts_unbound top pool unbound⟩

/-- Two slots, and a pool of two slots. -/
def raced : Setup := ⟨[⟨2, 0, [], []⟩], false, [(2, 4)], [], 9, false⟩

/-- A call for the first slot, and one for the second. An interrupt asks for a slot at the lock of the latter. -/
def racedCalls : List (Nat × Op) := [(0, .alloc 0), (0, .hook .lock 0 [.alloc 0]), (0, .alloc 0)]

/-- The search found the second slot free, but the interrupt takes it first. So the call is answered with none: each slot
was taken when the search looked at it for the last time. -/
theorem pools_refine_taken_of_interrupt : ∃ (x y z z' : Moment) (l : List Holding) (h : Holding),
    Traced (fun z => z.machine.AtHome) handing [] (initial raced) x l ∧ h ∈ l ∧ h.pool = some 0 ∧
    x.machine.stack = [⟨0, .perform none (.alloc 0)⟩] ∧ x.lowestFree h = some 1 ∧
    z.takes = some (0, 1) ∧ z.Next z' ∧ 1 ∉ z.taken h ∧ 1 ∈ z'.taken h ∧
    Run (fun z => z.machine.AtHome ∧ z.Within []) x y ∧ y.machine.stack = [⟨0, .answered (.slot none)⟩] ∧
    ∃ w q, Traced (fun z => z.machine.AtHome ∧ z.Within []) handing l x w q ∧ w.Next y ∧
      Grants (fun z => z.machine.AtHome) 0 0 [] x w q (.slot none) := by
  let at' := fun n => ((initial raced).steps n racedCalls).1
  let noted' := fun n => (initial raced).noted handing n racedCalls []
  have called : Traced (fun z => z.machine.AtHome) handing [] (initial raced) (at' 12) (noted' 12) :=
    traced_steps (by decide +kernel)
  have taking : Traced (fun z => z.machine.AtHome) handing [] (initial raced) (at' 21) (noted' 21) :=
    traced_steps (by decide +kernel)
  have top : (at' 12).machine.stack = [⟨0, .perform none (.alloc 0)⟩] := by rfl
  have answered : (at' 27).machine.stack = [⟨0, .answered (.slot none)⟩] := by rfl
  have later : Run (fun z => z.machine.AtHome ∧ ([] : List Frame).length < z.machine.stack.length) (at' 12) (at' (12 + 15)) :=
    run_steps_add (by decide +kernel) (by decide +kernel)
  have within := later.within (stacked_of_run called.run) top rfl fun z p => p.2
  have within : Run (fun z => z.machine.AtHome ∧ z.Within []) (at' 12) (at' 27) := within.mono fun z p => ⟨p.1.1, p.2⟩
  have next : (at' 21).Next (at' 22) := next_steps (by decide +kernel)
  have holds : (at' 22).machine.AtHome := by decide +kernel
  have takes : (at' 21).takes = some (0, 1) := by decide +kernel
  have m : ⟨0, some 0, 0, 2⟩ ∈ noted' 12 := by decide +kernel
  have m' : ⟨0, some 0, 0, 2⟩ ∈ noted' 21 := by decide +kernel
  have has : (⟨0, some 0, 0, 2⟩ : Holding).Has 1 := ⟨by decide, by decide⟩
  have account := (pools_refine_taken taking fun _ p => p).1 _ m' 0 rfl
  have allots := (pools_refine_taken called fun _ p => p).2.2.1 0 none 0 [] top
  exact ⟨at' 12, at' 27, at' 21, at' 22, noted' 12, _, called, m, rfl, top, by decide +kernel, takes, next,
    (account.taker 1 _ next holds has takes).1, (account.step 1 _ next has).2 (.inr takes), within, answered,
    allots.grants _ _ within answered⟩

end Moment

end TimedTasks
