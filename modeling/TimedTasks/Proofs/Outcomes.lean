import TimedTasks.Proofs.Bounds
import TimedTasks.Proofs.Stages

/-!
# What comes of a piece of work

`Leads` and `Becomes` list what a step can lead to. Which of it comes true is said here, for the pieces of work on a slot
and its bytes: each of them is refused, and then leaves everything as it is, or it is done, and the state of the slot
decides which.
-/

namespace TimedTasks

/-- What giving `data` to a slot makes of its payload and of the pools: a slot with a segment copies as much as fits, any
other slot refers to the bytes. -/
inductive Payload.Takes (ps : Pools) (data : List UInt8) : Payload → Payload → Pools → Prop
  | refers {bytes} : Takes ps data (.attached bytes) (.attached data) ps
  | copies {segment length kept ps'} : ps.copy segment data = .ok (kept, ps') →
      Takes ps data (.copied segment length) (.copied segment kept) ps'

/-- Work under the lock on a task is refused at once if the task was never handed out. -/
theorem World.lockedOn_eq_ok {w : World} {d i : Nat} {δ : Device} {s : Section} {move : Move}
    (h : w.lockedOn d δ i s = .ok move) :
    if i < δ.scheduler.declared then move = w.calling d δ .lock [.locked s]
    else move = w.answering d δ (.failed (.invalidTask ⟨i⟩)) := by
  obtain ⟨found, looked, h⟩ := bind_eq_ok.1 h
  cases found with
  | none =>
    cases h
    unfold Scheduler.lookup at looked
    split at looked
    · obtain ⟨t, -, same⟩ := map_eq_ok.1 looked
      cases same
    · rename_i beyond
      rw [if_neg beyond]
  | some t =>
    cases h
    rw [if_pos (Scheduler.lookup_eq_ok_some looked).1]

/-- The answer that was just given. -/
def Machine.answer (m : Machine) : Option Answer :=
  match m.stack with
  | ⟨_, .answered a⟩ :: _ => some a
  | _ => none

namespace Moment

/-- The answer that the next step gives. -/
def answers (x : Moment) : Option Answer :=
  match x.machine.step with
  | .next m => m.answer
  | _ => none

/-- The slots that are linked into the queue of a device. -/
def queued (x : Moment) (d : Nat) : List Nat :=
  ((x.machine.world.devices[d]?.bind fun δ => δ.scheduler.queued.toOption).getD [])

variable {x y : Moment} {d : Nat}

theorem Next.answers {s : Section} {below : List Frame} (next : x.Next y)
    (top : x.machine.stack = ⟨d, .locked s⟩ :: below) : x.answers = y.machine.answer := by
  rw [Moment.answers, next.step_eq top]

theorem queued_eq {δ : Device} {l : List Nat} (found : x.machine.world.devices[d]? = some δ)
    (queued : δ.scheduler.queued = .ok l) : x.queued d = l := by
  rw [Moment.queued, found, Option.bind_some, queued]
  rfl

end Moment

namespace Moment.Next

variable {x y : Moment} {d i : Nat} {below : List Frame} {δ : Device}

/-- Bytes that are attached are taken by a stopped slot. -/
theorem attaches {data : List UInt8} (next : x.Next y) (top : x.machine.stack = ⟨d, .locked (.attach i data)⟩ :: below)
    (found : x.machine.world.devices[d]? = some δ) : ∃ t, δ.scheduler.arena[i]? = some t ∧
      if t.state = .stopped then
        ∃ p ps σ, t.payload.Takes x.machine.world.pools data p ps ∧
          (δ.scheduler.alter i fun t => { t with payload := p }) = .ok σ ∧
          y.machine = ⟨World.put { x.machine.world with pools := ps } d (δ.withScheduler σ), ⟨d, .answered .done⟩ :: below⟩
      else y.machine = ⟨x.machine.world, ⟨d, .answered (.failed (.invalidState t.state))⟩ :: below⟩ := by
  obtain ⟨δ', move, found', done, eq⟩ := next.does top
  cases found.symm.trans found'
  rw [eq]
  obtain ⟨r, hr, done⟩ := bind_eq_ok.1 done
  obtain ⟨t, slot, hr⟩ := bind_eq_ok.1 hr
  refine ⟨t, Arena.slot_eq_ok_iff.1 slot, ?_⟩
  split at hr
  · rename_i stopped
    rw [if_pos stopped]
    split at hr
    · rename_i bytes payload
      obtain ⟨σ, altered, hr⟩ := bind_eq_ok.1 hr
      cases hr
      cases done
      exact ⟨_, _, σ, payload ▸ .refers, altered, rfl⟩
    · rename_i segment length payload
      obtain ⟨⟨kept, ps⟩, copied, hr⟩ := bind_eq_ok.1 hr
      obtain ⟨σ, altered, hr⟩ := bind_eq_ok.1 hr
      cases hr
      cases done
      exact ⟨_, ps, σ, payload ▸ .copies copied, altered, rfl⟩
  · rename_i other
    rw [if_neg other]
    cases hr
    cases done
    rw [World.answering, World.leaving, World.put_self found]
    rfl

/-- Bytes that are written are taken by a stopped slot with a segment. -/
theorem writes {data : List UInt8} (next : x.Next y) (top : x.machine.stack = ⟨d, .locked (.write i data)⟩ :: below)
    (found : x.machine.world.devices[d]? = some δ) : ∃ t, δ.scheduler.arena[i]? = some t ∧
      if t.state = .stopped then
        match t.payload with
        | .attached _ => y.machine = ⟨x.machine.world, ⟨d, .answered (.failed .notBuffered)⟩ :: below⟩
        | .copied segment _ => ∃ kept ps σ, x.machine.world.pools.copy segment data = .ok (kept, ps) ∧
            (δ.scheduler.alter i fun t => { t with payload := .copied segment kept }) = .ok σ ∧
            y.machine =
              ⟨World.put { x.machine.world with pools := ps } d (δ.withScheduler σ), ⟨d, .answered (.kept kept)⟩ :: below⟩
      else y.machine = ⟨x.machine.world, ⟨d, .answered (.failed (.invalidState t.state))⟩ :: below⟩ := by
  obtain ⟨δ', move, found', done, eq⟩ := next.does top
  cases found.symm.trans found'
  rw [eq]
  obtain ⟨r, hr, done⟩ := bind_eq_ok.1 done
  obtain ⟨t, slot, hr⟩ := bind_eq_ok.1 hr
  refine ⟨t, Arena.slot_eq_ok_iff.1 slot, ?_⟩
  have refused : ∀ e, move = x.machine.world.answering d δ (.failed e) →
      Machine.mk move.world (move.frames ++ below) = ⟨x.machine.world, ⟨d, .answered (.failed e)⟩ :: below⟩ := by
    rintro e rfl
    rw [World.answering, World.leaving, World.put_self found]
    rfl
  split at hr
  · rename_i stopped
    rw [if_pos stopped]
    cases payload : t.payload with
    | attached bytes =>
      simp only [payload] at hr
      cases hr
      exact refused _ (Except.ok.inj done).symm
    | copied segment length =>
      simp only [payload] at hr
      obtain ⟨⟨kept, ps⟩, copied, hr⟩ := bind_eq_ok.1 hr
      obtain ⟨σ, altered, hr⟩ := bind_eq_ok.1 hr
      cases hr
      cases done
      exact ⟨kept, ps, σ, copied, altered, rfl⟩
  · rename_i other
    rw [if_neg other]
    cases hr
    exact refused _ (Except.ok.inj done).symm

/-- A stop changes the slot of its task, if it was handed out, and no other. -/
theorem stops {self : Option Nat} {ref : TaskRef} (next : x.Next y)
    (top : x.machine.stack = ⟨d, .perform self (.stop ref)⟩ :: below) (found : x.machine.world.devices[d]? = some δ) :
    ∃ k δ', ref.resolve self = .ok k ∧ y.machine.world.devices = x.machine.world.devices.setIfInBounds d δ' ∧
      ∀ i < δ.scheduler.declared, δ'.scheduler.arena[i]? =
        if k = i then δ.scheduler.arena[i]?.map Task.stop else δ.scheduler.arena[i]? := by
  obtain ⟨δ', move, found', done, eq⟩ := next.performs top
  cases found.symm.trans found'
  have done : (ref.resolve self >>= fun k => x.machine.world.stop d δ k) = .ok move := done
  obtain ⟨k, meant, done⟩ := bind_eq_ok.1 done
  obtain ⟨r, hr, done⟩ := bind_eq_ok.1 done
  obtain ⟨looked, lookup, hr⟩ := bind_eq_ok.1 hr
  rw [eq]
  cases looked with
  | none =>
    cases hr
    cases done
    refine ⟨k, δ, meant, rfl, fun i bound => ?_⟩
    have beyond := Scheduler.declared_le_of_lookup lookup
    rw [if_neg (by omega)]
  | some t =>
    have slot := Arena.slot_eq_ok_iff.1 (Scheduler.lookup_eq_ok_some lookup).2
    dsimp only at hr
    split at hr
    · rename_i uninit
      cases hr
      cases done
      refine ⟨k, δ, meant, rfl, fun i _ => ?_⟩
      split
      · rename_i here
        subst here
        rw [slot, Option.map_some, Task.stop, uninit]
      · rfl
    · obtain ⟨σ, altered, hr⟩ := bind_eq_ok.1 hr
      cases hr
      cases done
      obtain ⟨a, changed, rfl⟩ := Scheduler.alter_eq_ok altered
      exact ⟨k, _, meant, rfl, fun i _ => Arena.getElem?_alter changed i⟩

/-- An update gives its task the new interval, if the task is configured, and changes no other slot. -/
theorem lengthens {self : Option Nat} {ref : TaskRef} {ms : UInt32} (next : x.Next y)
    (top : x.machine.stack = ⟨d, .perform self (.update ref ms)⟩ :: below) (found : x.machine.world.devices[d]? = some δ) :
    ∃ k δ', ref.resolve self = .ok k ∧ y.machine.world.devices = x.machine.world.devices.setIfInBounds d δ' ∧
      ∀ i < δ.scheduler.declared, δ'.scheduler.arena[i]? =
        if k = i then δ.scheduler.arena[i]?.map fun t =>
          if t.state = .uninit then t else t.withLength (Interval.clamp ms t.repeats)
        else δ.scheduler.arena[i]? := by
  obtain ⟨δ', move, found', done, eq⟩ := next.performs top
  cases found.symm.trans found'
  have done : (ref.resolve self >>= fun k => x.machine.world.update d δ k ms) = .ok move := done
  obtain ⟨k, meant, done⟩ := bind_eq_ok.1 done
  obtain ⟨r, hr, done⟩ := bind_eq_ok.1 done
  obtain ⟨looked, lookup, hr⟩ := bind_eq_ok.1 hr
  rw [eq]
  cases looked with
  | none =>
    cases hr
    cases done
    refine ⟨k, δ, meant, rfl, fun i bound => ?_⟩
    have beyond := Scheduler.declared_le_of_lookup lookup
    rw [if_neg (by omega)]
  | some t =>
    have slot := Arena.slot_eq_ok_iff.1 (Scheduler.lookup_eq_ok_some lookup).2
    dsimp only at hr
    split at hr
    · rename_i uninit
      cases hr
      cases done
      refine ⟨k, δ, meant, rfl, fun i _ => ?_⟩
      split
      · rename_i here
        subst here
        rw [slot, Option.map_some, if_pos uninit]
      · rfl
    · rename_i configured
      obtain ⟨σ, altered, hr⟩ := bind_eq_ok.1 hr
      cases hr
      obtain ⟨a, changed, rfl⟩ := Scheduler.alter_eq_ok altered
      have slots : ∀ i : Nat, a[i]? = if k = i then δ.scheduler.arena[i]?.map fun t =>
          if t.state = .uninit then t else t.withLength (Interval.clamp ms t.repeats) else δ.scheduler.arena[i]? := by
        intro i
        rw [Arena.getElem?_alter changed]
        split
        · rename_i here
          subst here
          rw [slot, Option.map_some, Option.map_some, if_neg configured]
        · rfl
      -- The start that follows changes no slot before it reads the clock.
      obtain ⟨s, -, done⟩ := bind_eq_ok.1 done
      cases s with
      | error e =>
        cases done
        exact ⟨k, _, meant, rfl, fun i _ => slots i⟩
      | ok next =>
        cases done
        exact ⟨k, _, meant, rfl, fun i _ => slots i⟩

/-- A start stamps its task with the clock, and changes no other slot. -/
theorem stamps {k : Nat} {state : TaskState} (next : x.Next y)
    (top : x.machine.stack = ⟨d, .reading (.start k state)⟩ :: below) (found : x.machine.world.devices[d]? = some δ) :
    ∃ δ', y.machine.world.devices[d]? = some δ' ∧ ∀ i : Nat, δ'.scheduler.arena[i]? =
      if k = i then δ.scheduler.arena[i]?.map (·.start state (x.machine.clock d)) else δ.scheduler.arena[i]? := by
  obtain ⟨δ', s, found', l, takes⟩ := next.leads_of_top top rfl
  cases found.symm.trans found'
  refine ⟨s.device, takes.device_same found, fun i => ?_⟩
  rw [Machine.clock_eq found, Stride.scheduler_device]
  cases l with
  | stamp st =>
    obtain ⟨a, changed, rfl⟩ := Scheduler.alter_eq_ok st
    exact Arena.getElem?_alter changed i
  | asked asks | told asks => cases asks

/-- The end of a dispatch changes the slot of the task, and no other. -/
theorem settles {k : Nat} (next : x.Next y) (top : x.machine.stack = ⟨d, .settle k⟩ :: below)
    (found : x.machine.world.devices[d]? = some δ) :
    ∃ δ', y.machine.world.devices = x.machine.world.devices.setIfInBounds d δ' ∧
      ∀ i : Nat, δ'.scheduler.arena[i]? = if k = i then δ.scheduler.arena[i]?.map Task.settle else δ.scheduler.arena[i]? := by
  obtain ⟨δ', move, found', done, eq⟩ := next.machine.moves top (fun _ => Act.noConfusion) fun _ => Act.noConfusion
  cases found.symm.trans found'
  obtain ⟨σ, altered, done⟩ := bind_eq_ok.1 done
  cases done
  rw [eq]
  obtain ⟨a, changed, rfl⟩ := Scheduler.alter_eq_ok altered
  exact ⟨_, rfl, Arena.getElem?_alter changed⟩

/-- A search with no slots to go ends without one. -/
theorem gives_up (next : x.Next y) (top : x.machine.stack = ⟨d, .claiming i 0⟩ :: below) :
    y.machine = ⟨x.machine.world, ⟨d, .answered (.slot none)⟩ :: below⟩ := by
  obtain ⟨δ, move, found, done, eq⟩ := next.machine.moves top (fun _ => Act.noConfusion) fun _ => Act.noConfusion
  cases done
  rw [eq]
  show Machine.mk (x.machine.world.put d δ) _ = _
  rw [World.put_self found]
  rfl

/-- A search passes a slot that is taken, and asks for the lock to take one that is free. -/
theorem examines {left : Nat} {t : Task} (next : x.Next y) (top : x.machine.stack = ⟨d, .claiming i (left + 1)⟩ :: below)
    (found : x.machine.world.devices[d]? = some δ) (slot : δ.scheduler.arena[i]? = some t) :
    if t.allocated then y.machine = ⟨x.machine.world, ⟨d, .claiming (i + 1) left⟩ :: below⟩
    else ∃ bodies, y.machine.stack = ⟨d, .interrupts .lock bodies⟩ :: ⟨d, .locked (.claim i left)⟩ :: below := by
  obtain ⟨δ', move, found', done, eq⟩ := next.machine.moves top (fun _ => Act.noConfusion) fun _ => Act.noConfusion
  cases found.symm.trans found'
  have done : x.machine.world.claiming d δ i (left + 1) = move := Except.ok.inj done
  rw [World.claiming, slot] at done
  dsimp only at done
  rw [eq, ← done]
  split
  · show Machine.mk (x.machine.world.put d δ) _ = _
    rw [World.put_self found]
    rfl
  · exact ⟨_, rfl⟩

/-- A call for a slot of a pool looks at its slots, or first has slots reserved for it. -/
theorem searches {self : Option Nat} {k : Nat} (next : x.Next y)
    (top : x.machine.stack = ⟨d, .perform self (.alloc k)⟩ :: below) : ∃ p, x.machine.world.pools[k]? = some p ∧
      match p.first with
      | some first => y.machine = ⟨x.machine.world, ⟨d, .claiming first p.slots⟩ :: below⟩
      | none => ∃ bodies, y.machine.stack = ⟨d, .interrupts .lock bodies⟩ :: ⟨d, .locked (.enroll k)⟩ :: below := by
  obtain ⟨δ, move, found, done, eq⟩ := next.performs top
  obtain ⟨p, hp, done⟩ := bind_eq_ok.1 (show x.machine.world.alloc d δ k = .ok move from done)
  refine ⟨p, Pools.pool_eq_ok hp, ?_⟩
  rw [eq]
  cases first : p.first with
  | some first =>
    rw [first] at done
    cases done
    show Machine.mk (x.machine.world.put d δ) _ = _
    rw [World.put_self found]
    rfl
  | none =>
    rw [first] at done
    cases done
    exact ⟨_, rfl⟩

/-- A slot of a pool is taken, and wiped in a build that does so, unless someone else took it meanwhile. -/
theorem takes_slot {left : Nat} (next : x.Next y) (top : x.machine.stack = ⟨d, .locked (.claim i left)⟩ :: below)
    (found : x.machine.world.devices[d]? = some δ) : ∃ t, δ.scheduler.arena[i]? = some t ∧
      if t.allocated then y.machine = ⟨x.machine.world, ⟨d, .claiming (i + 1) left⟩ :: below⟩
      else ∃ σ ps, δ.scheduler.alter i Task.handOut = .ok σ ∧ x.machine.world.wiped t.payload = .ok ps ∧
        y.machine = ⟨World.put { x.machine.world with pools := ps } d (δ.withScheduler σ),
          ⟨d, .answered (.slot (some ⟨i⟩))⟩ :: below⟩ := by
  obtain ⟨δ', move, found', done, eq⟩ := next.does top
  cases found.symm.trans found'
  rw [eq]
  obtain ⟨t, slot, ⟨taken, rfl⟩ | ⟨free, σ, ps, altered, wiped, rfl⟩⟩ := World.claim_eq_ok done
  · refine ⟨t, Arena.slot_eq_ok_iff.1 slot, ?_⟩
    rw [if_pos taken, World.leaving, World.put_self found]
    rfl
  · refine ⟨t, Arena.slot_eq_ok_iff.1 slot, ?_⟩
    rw [if_neg (by simp [free])]
    exact ⟨σ, ps, altered, wiped, rfl⟩

end Moment.Next

end TimedTasks
