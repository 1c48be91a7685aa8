import TimedTasks.Proofs.Quiet

/-!
# A run of rounds that nothing but time moves

While a session runs, and handlers and interrupts ask for nothing but its end, a scheduler starts and stops no task. All
that happens to its tasks is that rounds dispatch them. If moreover the clock moves in sleep only, every round looks at
all tasks at one and the same time.

`View.Steady` is what the scheduler then relies on. No task that waits is late: the time is not past the moment at which
it is due (`OnTime.punctual`), and a sleep does not last longer. A round leaves none behind that is due now
(`Act.Covers`): while it walks along the queue, each of these is in its hands or still ahead of it.
-/

namespace TimedTasks

namespace Act

/-- The operations that the act has called or is to call. -/
def orders : Act → List Op
  | perform _ op => [op]
  | block _ ops => ops
  | interrupts _ bodies => bodies.flatten
  | _ => []

/-- The act is one that a run of rounds comes to, as long as its session lasts and nothing but its end is asked for. -/
def steady : Act → Bool
  | reading (.cached ..) | reading (.due ..) | reading .scan | reading (.renew _) => true
  | reading _ => false
  | locked (.adopt ..) | locked (.fetch _) | locked .shutdown => true
  | locked _ => false
  | opening | closing _ | claiming .. | ticking => false
  | answered (.deadline _) => false
  | _ => true

/-- The act is no part of a run of rounds, but of what handlers and interrupts do meanwhile. -/
def aside : Act → Bool
  | perform .. | block .. | interrupts .. | report _ | discard | answered _ | handling .. | locked .shutdown => true
  | _ => false

/-- An answer stops and starts no task. -/
theorem steady_answered {a : Answer} (h : ∀ ms, a ≠ .deadline ms) : (answered a).steady := by
  cases a <;> first | rfl | exact absurd rfl (h _)

theorem unsteady_of_asks {r : Reading} (h : r.asks) : (reading r).steady = false := by
  cases r <;> first | rfl | cases h

theorem unsteady_of_refuses {s : Section} (h : s.refuses) : (locked s).steady = false ∧ (locked s).aside = false := by
  cases s <;> first | exact ⟨rfl, rfl⟩ | cases h

end Act

namespace Board

variable {b : Board}

/-- A sleep ends in time. -/
theorem toNat_min_le (ms nap : UInt32) : (min ms nap).toNat ≤ ms.toNat := by
  show (if ms ≤ nap then ms else nap).toNat ≤ _
  split
  · exact Nat.le_refl _
  · rename_i longer
    rw [UInt32.not_le, UInt32.lt_iff_toNat_lt] at longer
    exact Nat.le_of_lt longer

/-- What is left of a list of amounts are amounts of it. -/
theorem mem_usedUp {l : List UInt32} {p : UInt32} (h : p ∈ usedUp l) : p ∈ l := by
  unfold usedUp at h
  split at h
  · exact List.mem_cons_of_mem _ h
  · exact h

/-- The clock of a board at rest is not moved by reading it. -/
theorem clock_readClock (h : ∀ p ∈ b.pace, p = 0) : b.readClock.2.clock = b.clock := by
  have still : b.pace.headD 0 = 0 := by
    cases hp : b.pace with
    | nil => rfl
    | cons p l => exact h p (by simp [hp])
  show b.clock + b.pace.headD 0 = b.clock
  rw [still, UInt32.add_zero]

end Board

section Leads

open Scheduler

variable {w : World} {δ : Device} {act : Act} {s : Stride} {rest : List Act}

/-- A run of rounds stays one until it finds that its session is to end. -/
theorem Leads.steady (l : Leads w δ act s) (steady : act.steady) (ends : ∀ op ∈ act.orders, op.ends)
    (more : act = .running → δ.scheduler.runState = .active) : ∀ a ∈ s.frames, a.steady := by
  cases l with
  | answer h | unclaimed h | told _ h | refused _ h | lengthTold h => simp [Stride.frames, Act.steady_answered h]
  | ask ask =>
    have own := ends _ List.mem_cons_self
    cases ask <;> first | cases own; done | simp [Stride.frames, Act.steady]
  | lastRound inactive => exact absurd (more rfl) inactive
  | asked r =>
    rw [Act.unsteady_of_asks r] at steady
    cases steady
  | _ =>
    first
    | cases steady; done
    | cases ends _ List.mem_cons_self
    | simp [Stride.frames, Act.steady]

/-- What handlers and interrupts do meanwhile. -/
theorem Leads.aside (l : Leads w δ act s) (h : act.aside) (ends : ∀ op ∈ act.orders, op.ends) :
    s.scheduler.arena = δ.scheduler.arena ∧ s.board = δ.board ∧ s.invoked = none ∧ ∀ a ∈ s.frames, a.aside := by
  cases l with
  | answer | blockEnd | blockNext | interruptsEnd | interruptsNext | handled | handledLast =>
    exact ⟨rfl, rfl, rfl, by simp [Stride.frames, Act.aside]⟩
  | ask ask =>
    have own := ends _ List.mem_cons_self
    cases ask <;> first | cases own; done | exact ⟨rfl, rfl, rfl, by simp [Stride.frames, Act.aside]⟩
  | shutdown =>
    refine ⟨?_, rfl, rfl, by simp [Stride.frames, Act.aside]⟩
    unfold Scheduler.shutdown
    split <;> rfl
  | refused r =>
    rw [(Act.unsteady_of_refuses r).2] at h
    cases h
  | _ => first | cases h; done | cases ends _ List.mem_cons_self

/-- Only a run goes on running. -/
theorem Leads.no_running (l : Leads w δ act s) (other : act ≠ .running) (ends : ∀ op ∈ act.orders, op.ends) :
    .running ∉ s.frames := by
  intro m
  cases l with
  | anotherRound => exact other rfl
  | run => cases ends _ List.mem_cons_self
  | _ => simp [Stride.frames] at m

/-- The clock of a board at rest moves in sleep only. -/
theorem Leads.stands (l : Leads w δ act s) (ends : ∀ op ∈ act.orders, op.ends)
    (pace : ∀ p ∈ δ.board.pace, p = 0) :
    (∀ p ∈ s.board.pace, p = 0) ∧ ((∀ ms, act ≠ .sleeping ms) → s.board.clock = δ.board.clock) := by
  have read : (∀ p ∈ δ.board.readClock.2.pace, p = 0) ∧ δ.board.readClock.2.clock = δ.board.clock :=
    ⟨fun p m => pace p (Board.mem_usedUp m), Board.clock_readClock pace⟩
  cases l with
  | stamp | wait | retarget | dueFirst | due | notDue | scan | renew | asked | told => exact ⟨read.1, fun _ => read.2⟩
  | woken | wokenLast => exact ⟨pace, fun no => absurd rfl (no _)⟩
  | _ => first | exact ⟨pace, fun _ => rfl⟩ | cases ends _ List.mem_cons_self

/-- A round that looks at a task of the queue sees it as it is. -/
theorem Leads.looked_at {i : Nat} {timing : Interval} (l : Leads w δ act s) (m : .reading (.due i timing) ∈ s.frames) :
    s.scheduler.arena.Waits i ∧ (s.scheduler.life i).timing = timing := by
  cases l with
  | @looked skip j t _ found active =>
    simp only [Stride.frames, List.mem_cons, Act.reading.injEq, Reading.due.injEq, List.not_mem_nil, or_false,
      reduceCtorEq, false_or] at m
    obtain ⟨rfl, rfl⟩ := m
    have life : δ.scheduler.life i = t.life := Arena.life_of_slot found
    refine ⟨?_, by change (δ.scheduler.life i).timing = _; rw [life]; rfl⟩
    show (δ.scheduler.life i).state = .active
    rw [life]
    exact active
  | asked _ r | lengthAsked r =>
    simp only [Stride.frames, List.mem_cons, Act.reading.injEq, List.not_mem_nil, or_false, reduceCtorEq, false_or] at m
    subst m
    cases r
  | _ => simp [Stride.frames] at m

end Leads

/-! ## What a run of rounds relies on -/

/-- The task waits, and its time has come. -/
def Chronicle.Ripe (past : Chronicle) (σ : Scheduler) (i : Nat) : Prop :=
  σ.arena.Waits i ∧ past.due σ i ≤ past.time

namespace View.Timed

variable {v : View} {i : Nat} {timing : Interval}

/-- Whether the interval of a waiting task is over, as far as the clock tells, is whether its time has come. -/
theorem expired_iff (h : v.Timed) (young : v.Young)
    (seen : v.scheduler.arena.Waits i ∧ (v.scheduler.life i).timing = timing) :
    timing.expired v.clock = true ↔ v.past.Ripe v.scheduler i := by
  obtain ⟨waits, rfl⟩ := seen
  have counts : (v.scheduler.life i).state.counts := by
    change (v.scheduler.life i).state = .active at waits
    rw [waits]
    rfl
  rw [h.clock, Interval.expired_iff (h.start i counts) (h.stamp_le i) (young i waits)]
  exact ⟨fun due => ⟨waits, due⟩, fun ripe => ripe.2⟩

/-- No time is left, by the clock, for just the tasks that are due in true time. -/
theorem remaining_eq_zero_iff (h : v.Timed) (young : v.Young)
    (seen : v.scheduler.arena.Waits i ∧ (v.scheduler.life i).timing = timing) :
    timing.remaining v.clock = 0 ↔ v.past.Ripe v.scheduler i := by
  obtain ⟨waits, rfl⟩ := seen
  have left := h.toNat_left young h.readAt waits
  rw [Arena.left] at left
  rw [← UInt32.toNat_inj, Chronicle.Ripe]
  show ((v.scheduler.arena.life i).timing.remaining v.clock).toNat = 0 ↔ _
  rw [left, Nat.sub_eq_zero_iff_le]
  exact ⟨fun due => ⟨waits, due⟩, fun ripe => ripe.2⟩

end View.Timed

/-- A round has the task in its hands. -/
def Handed (acts : List Act) (i : Nat) : Prop :=
  .dispatch i ∈ acts ∨ (∃ timing, .reading (.due i timing) ∈ acts) ∨ .reading (.renew i) ∈ acts

/-- What a round has in its hands is as the round saw it. -/
structure InHand (σ : Scheduler) (past : Chronicle) (acts : List Act) : Prop where
  looked : ∀ i timing, .reading (.due i timing) ∈ acts → σ.arena.Waits i ∧ (σ.life i).timing = timing
  ripe : ∀ i, .dispatch i ∈ acts ∨ .reading (.renew i) ∈ acts → past.Ripe σ i
  repeating : ∀ i, .reading (.renew i) ∈ acts → (σ.life i).repeats = true

/-- No task that waits is late, and none will be late after a sleep. -/
structure OnTime (σ : Scheduler) (past : Chronicle) (acts : List Act) : Prop where
  punctual : ∀ i, σ.arena.Waits i → past.time ≤ past.due σ i
  napping : ∀ nap, .sleeping nap ∈ acts → ∀ i, σ.arena.Waits i → past.time + nap.toNat ≤ past.due σ i
  executing : ∀ i, (σ.life i).state = .executing → past.stamp i = past.time ∧ (σ.life i).repeats = true

/-- A walk along the queue that has come to `cursor` still comes to the task. -/
def Scheduler.Ahead (σ : Scheduler) (skip cursor : Option Nat) (i : Nat) : Prop :=
  skip ≠ some i ∧ ∃ l, Chain σ.arena.link cursor l ∧ i ∈ l

/-- Where a round stands, a task whose time has come is in its hands or ahead of it, and there is none at its end. -/
def Act.Covers (σ : Scheduler) (past : Chronicle) (acts : List Act) : Act → Prop
  | walking skip cursor => ∀ i, past.Ripe σ i → Handed acts i ∨ σ.Ahead skip cursor i
  | survey (some j) => past.Ripe σ j → Handed acts j
  | reading .scan | locked (.adopt ..) | deadline _ => ∀ i, ¬past.Ripe σ i
  | _ => True

/-- One run is in progress, and it was called when nothing else was. -/
def Runs (acts : List Act) : Prop := ∃ above, acts = above ++ [.running] ∧ .running ∉ above

/-- A run of rounds is in progress on the device, and nothing but time moves its tasks. -/
structure View.Steady (v : View) : Prop where
  runs : Runs v.acts
  steady : ∀ a ∈ v.acts, a.steady
  pace : ∀ p ∈ v.device.board.pace, p = 0
  read : ∀ ms, .deadline ms ∈ v.acts → v.past.read = v.clock
  scanned : ∀ best now, .locked (.adopt best now) ∈ v.acts → now = v.clock
  inHand : InHand v.scheduler v.past v.acts
  onTime : OnTime v.scheduler v.past v.acts
  covered : ∀ a ∈ v.acts, a.Covers v.scheduler v.past v.acts

section congr

variable {σ σ' : Scheduler} {past : Chronicle} {acts acts' : List Act} {a : Act}

theorem Runs.tail (h : Runs (a :: acts)) (other : a ≠ .running) : Runs acts := by
  obtain ⟨above, e, no⟩ := h
  cases above with
  | nil => cases e; exact absurd rfl other
  | cons b above => cases e; exact ⟨above, rfl, fun m => no (List.mem_cons_of_mem _ m)⟩

/-- Below the loop of a run lies nothing. -/
theorem Runs.alone (h : Runs (.running :: acts)) : acts = [] := by
  obtain ⟨above, e, no⟩ := h
  cases above with
  | nil => cases e; rfl
  | cons b above => cases e; exact absurd List.mem_cons_self no

/-- What is put above a loop is no loop. -/
theorem Runs.append (h : Runs acts) (none : .running ∉ acts') : Runs (acts' ++ acts) := by
  obtain ⟨above, rfl, no⟩ := h
  exact ⟨acts' ++ above, (List.append_assoc _ _ _).symm, fun m => (List.mem_append.1 m).elim none no⟩

/-- Whether a task is due depends on the arena and on the true time. -/
theorem ripe_of_arena (arena : σ'.arena = σ.arena) (i : Nat) : past.Ripe σ' i ↔ past.Ripe σ i := by
  rw [Chronicle.Ripe, Chronicle.Ripe, Chronicle.due, Chronicle.due, Scheduler.life, Scheduler.life, arena]

/-- What a round has in hand depends on its own acts only. -/
theorem handed_congr (same : ∀ a : Act, a.aside = false → (a ∈ acts' ↔ a ∈ acts)) (i : Nat) :
    Handed acts' i ↔ Handed acts i := by
  simp only [Handed, same (.dispatch i) rfl, same (.reading _) rfl]

/-- A round has a task in hand when it dispatches it, has looked at it, or begins its interval anew. -/
theorem handed_cons {i : Nat} : Handed (a :: acts) i ↔
    (a = .dispatch i ∨ (∃ timing, a = .reading (.due i timing)) ∨ a = .reading (.renew i)) ∨ Handed acts i := by
  simp only [Handed, List.mem_cons, exists_or]
  constructor
  · rintro ((e | m) | (e | m) | (e | m))
    · exact .inl (.inl e.symm)
    · exact .inr (.inl m)
    · exact .inl (.inr (.inl (e.imp fun _ e => e.symm)))
    · exact .inr (.inr (.inl m))
    · exact .inl (.inr (.inr e.symm))
    · exact .inr (.inr (.inr m))
  · rintro ((e | e | e) | m | m | m)
    · exact .inl (.inl e.symm)
    · exact .inr (.inl (.inl (e.imp fun _ e => e.symm)))
    · exact .inr (.inr (.inl e.symm))
    · exact .inl (.inr m)
    · exact .inr (.inl (.inr m))
    · exact .inr (.inr (.inr m))

theorem Handed.mono {i : Nat} (h : Handed acts i) (sub : ∀ a ∈ acts, a ∈ acts') : Handed acts' i :=
  h.imp (sub _) fun h => h.imp (fun ⟨timing, m⟩ => ⟨timing, sub _ m⟩) (sub _)

/-- A round keeps what it has in hand while others work. -/
theorem InHand.congr (h : InHand σ past acts) (arena : σ'.arena = σ.arena)
    (sub : ∀ a : Act, a.walked → a ∈ acts' → a ∈ acts) : InHand σ' past acts' := by
  refine ⟨fun i t m => ?_, fun i m => ?_, fun i m => ?_⟩
  · rw [Scheduler.life, arena]; exact h.looked i t (sub _ rfl m)
  · exact (ripe_of_arena arena i).2 (h.ripe i (m.imp (sub _ rfl) (sub _ rfl)))
  · rw [Scheduler.life, arena]; exact h.repeating i (sub _ rfl m)

/-- A scheduler stays on time while its slots stay, and as long as no longer sleep begins. -/
theorem OnTime.congr (h : OnTime σ past acts) (arena : σ'.arena = σ.arena)
    (napping : ∀ nap, .sleeping nap ∈ acts' → ∀ i, σ.arena.Waits i → past.time + nap.toNat ≤ past.due σ i) :
    OnTime σ' past acts' := by
  have due : ∀ i, past.due σ' i = past.due σ i := fun i => by
    rw [Chronicle.due, Chronicle.due, Scheduler.life, Scheduler.life, arena]
  refine ⟨fun i w => ?_, fun nap m i w => ?_, fun i e => ?_⟩
  · rw [due i]; exact h.punctual i (arena ▸ w)
  · rw [due i]; exact napping nap m i (arena ▸ w)
  · rw [Scheduler.life, arena] at e ⊢; exact h.executing i e

namespace Scheduler

variable {skip cursor : Option Nat} {i j : Nat} {t : Task}

/-- What is ahead of a walk depends on the links. -/
theorem ahead_of_link (link : σ'.arena.link = σ.arena.link) (h : σ.Ahead skip cursor i) : σ'.Ahead skip cursor i := by
  rw [Ahead, link]
  exact h

/-- At the end of the queue nothing is ahead. -/
theorem not_ahead_none : ¬σ.Ahead skip none i := by
  rintro ⟨-, l, chain, m⟩
  cases l with
  | nil => cases m
  | cons k l => cases chain.1

/-- A walk goes on behind the slot that it has come to. -/
theorem Ahead.next (h : σ.Ahead skip (some j) i) (found : σ.arena.slot j = .ok t) : i = j ∨ σ.Ahead skip t.next i := by
  obtain ⟨kept, l, chain, m⟩ := h
  cases l with
  | nil => cases m
  | cons k l =>
    obtain ⟨same, next, link, chain⟩ := chain
    cases same
    have own : σ.arena.link j = some t.next := by rw [Arena.link, Arena.slot_eq_ok_iff.1 found]; rfl
    cases own.symm.trans link
    exact (List.mem_cons.1 m).imp id fun m => ⟨kept, l, chain, m⟩

end Scheduler

/-- An act that neither walks, nor scans, nor ends a round has nothing to cover. -/
theorem Act.Covers.of_idle (still : a.scans = false) (adopt : ∀ best now, a ≠ .locked (.adopt best now))
    (deadline : ∀ ms, a ≠ .deadline ms) : a.Covers σ past acts := by
  cases a with
  | survey | walking => cases still
  | reading r => cases r <;> first | cases still; done | trivial
  | locked s => cases s <;> first | exact absurd rfl (adopt _ _) | trivial
  | deadline ms => exact absurd rfl (deadline ms)
  | _ => trivial

/-- When nothing is ripe, there is nothing to cover. -/
theorem Act.Covers.of_none (none : ∀ i, ¬past.Ripe σ i) : a.Covers σ past acts := by
  cases a with
  | walking skip cursor => exact fun i r => absurd r (none i)
  | survey skip =>
    cases skip with
    | none => trivial
    | some j => exact fun r => absurd r (none j)
  | reading r => cases r <;> first | exact none | trivial
  | locked s => cases s <;> first | exact none | trivial
  | deadline ms => exact none
  | _ => trivial

/-- What becomes ripe or leaves the hands of a round decides whether it covers all that is ripe. -/
theorem Act.Covers.mono {past' : Chronicle} (h : a.Covers σ past acts) (link : σ'.arena.link = σ.arena.link)
    (ripe : ∀ i, past'.Ripe σ' i → past.Ripe σ i) (handed : ∀ i, past'.Ripe σ' i → Handed acts i → Handed acts' i) :
    a.Covers σ' past' acts' := by
  cases a with
  | walking skip cursor => exact fun i r => (h i (ripe i r)).imp (handed i r) (Scheduler.ahead_of_link link)
  | survey skip =>
    cases skip with
    | none => trivial
    | some j => exact fun r => handed j r (h (ripe j r))
  | reading r =>
    cases r with
    | scan => exact fun i r => h i (ripe i r)
    | _ => trivial
  | locked s =>
    cases s with
    | adopt => exact fun i r => h i (ripe i r)
    | _ => trivial
  | deadline ms => exact fun i r => h i (ripe i r)
  | _ => trivial

end congr

/-! ## The run goes on -/

namespace Act

variable {a : Act}

theorem aside_of_ends (h : a.ends) : a.aside := by
  cases a with
  | locked s => cases s <;> first | rfl | cases h
  | _ => first | rfl | cases h

theorem aside_of_drops (h : View.drops a) : a.aside := by
  cases a <;> first | rfl | cases h

theorem aside_of_walked (h : a.walked) : a.aside = false := by
  cases a <;> first | rfl | cases h

/-- So has an act of interrupts. -/
theorem covers_of_aside {σ : Scheduler} {past : Chronicle} {acts : List Act} (h : a.aside) : a.Covers σ past acts := by
  cases a with
  | locked s => cases s <;> trivial
  | _ => trivial

end Act

/-- A step that takes no time, stamps nothing and is no look at the clock leaves no trace. -/
theorem Chronicle.after_eq {past : Chronicle} {clock : UInt32} {act : Act} {s : Stride} (same : s.board.clock = clock)
    (stamps : act.stamps = none) (consults : act.consults = false) (invoked : s.invoked = none) :
    past.after clock act s = past := by
  simp [after, same, stamps, consults, invoked]

/-- What handlers and interrupts do meanwhile leaves no trace. -/
theorem Leads.after_aside {w : World} {δ : Device} {act : Act} {s : Stride} (l : Leads w δ act s) (minor : act.aside)
    (ends : ∀ op ∈ act.orders, op.ends) (past : Chronicle) : past.after δ.board.clock act s = past := by
  obtain ⟨-, board, invoked, -⟩ := l.aside minor ends
  refine Chronicle.after_eq (congrArg Board.clock board) ?_ ?_ invoked
  · cases act <;> first | rfl | cases minor
  · cases act <;> first | rfl | cases minor

namespace View

variable {v v' : View}

/-- What handlers and interrupts do meanwhile does not matter. -/
theorem Steady.congr (h : v.Steady) (arena : v'.scheduler.arena = v.scheduler.arena)
    (pace : v'.device.board.pace = v.device.board.pace) (clock : v'.clock = v.clock) (past : v'.past = v.past)
    (runs : Runs v'.acts) (steady : ∀ a ∈ v'.acts, a.steady)
    (same : ∀ a : Act, a.aside = false → (a ∈ v'.acts ↔ a ∈ v.acts)) : v'.Steady := by
  refine ⟨runs, steady, pace ▸ h.pace, fun ms m => ?_, fun best now m => ?_, ?_, ?_, fun a m => ?_⟩
  · rw [past, clock]
    exact h.read ms ((same _ rfl).1 m)
  · rw [clock]
    exact h.scanned best now ((same _ rfl).1 m)
  · exact past ▸ h.inHand.congr arena fun a walked => (same a (Act.aside_of_walked walked)).1
  · exact past ▸ h.onTime.congr arena fun nap m => h.onTime.napping nap ((same _ rfl).1 m)
  · rw [past]
    cases major : a.aside with
    | true => exact Act.covers_of_aside major
    | false =>
      refine (h.covered a ((same a major).1 m)).mono (by rw [arena]) (fun i => (ripe_of_arena arena i).1) fun i _ => ?_
      exact (handed_congr same i).2

/-- No task gets too old. -/
theorem Steady.young (h : v.Steady) (t : v.Timed) : v.Young := by
  intro i w
  have due := h.onTime.punctual i w
  have short := (t.clamped i).short
  have week := Interval.toNat_longest
  rw [Chronicle.due] at due
  omega

/-- Nothing but the end of sessions is asked for. -/
def Modest (v : View) : Prop := ∀ a ∈ v.acts, ∀ op ∈ a.orders, op.ends

/-- A step of interrupts that only ask for the end leaves the scheduler steady. -/
theorem Steady.aside {w : World} {act : Act} {s : Stride} {rest : List Act} (h : v.Steady) (acts : v.acts = act :: rest)
    (l : Leads w v.device act s) (minor : act.aside) (ends : ∀ op ∈ act.orders, op.ends) :
    (take s rest (v.past.after v.clock act s)).Steady := by
  obtain ⟨arena, board, -, frames⟩ := l.aside minor ends
  have kinds : ∀ a ∈ s.frames, a.steady :=
    l.steady (h.steady act (acts ▸ List.mem_cons_self)) ends (by rintro rfl; cases minor)
  have old : Runs (act :: rest) := acts ▸ h.runs
  refine h.congr ?_ ?_ ?_ (l.after_aside minor ends v.past) ?_ ?_ fun a major => ?_
  · simpa [take, scheduler] using arena
  · simp [take, board]
  · simp [take, clock, board]
  · exact (old.tail (by rintro rfl; cases minor)).append fun m => by cases frames _ m
  · intro a m
    exact (List.mem_append.1 m).elim (kinds a) fun m => h.steady a (acts ▸ List.mem_cons_of_mem _ m)
  · have other : ∀ b : Act, b.aside → a ≠ b := by
      rintro b minor rfl
      rw [minor] at major
      cases major
    rw [acts]
    show a ∈ s.frames ++ rest ↔ a ∈ act :: rest
    rw [List.mem_append, List.mem_cons]
    exact or_congr ⟨fun m => absurd rfl (other a (frames a m)), fun e => absurd e (other act minor)⟩ Iff.rfl

/-- So does whatever happens between the steps of a device. -/
theorem Steady.shift (h : v.Steady) (t : Shift v v') : v'.Steady := by
  cases t with
  | @drops act _ rest acts drops =>
    have minor := Act.aside_of_drops drops
    have old : Runs (act :: rest) := acts ▸ h.runs
    refine h.congr rfl rfl rfl rfl (old.tail (by rintro rfl; cases minor)) ?_ fun a major => ?_
    · intro a m
      exact h.steady a (acts ▸ List.mem_cons_of_mem _ m)
    · rw [acts, List.mem_cons]
      refine ⟨.inr, fun m => m.resolve_left ?_⟩
      rintro rfl
      rw [minor] at major
      cases major
  | arrives self op =>
    refine h.congr rfl rfl rfl rfl (h.runs.append (show .running ∉ [Act.perform self op] by simp)) ?_ fun a major => ?_
    · intro a m
      exact (List.mem_cons.1 m).elim (fun e => e ▸ rfl) (h.steady a)
    · refine ⟨fun m => (List.mem_cons.1 m).resolve_left ?_, List.mem_cons_of_mem _⟩
      rintro rfl
      cases major

/-- A run of rounds sleeps no longer than until the next task is due. -/
theorem Steady.delivers {ms : Option UInt32} {act : Act} {s : Stride} {rest : List Act} (h : v.Steady) (cached : v.Cached)
    (o : v.Orderly) (acts : v.acts = .deadline ms :: act :: rest) (l : Delivers v.device ms act s) :
    (take s rest v.past).Steady := by
  have head : .deadline ms ∈ v.acts := acts ▸ List.mem_cons_self
  have second : act ∈ v.acts := acts ▸ List.mem_cons_of_mem _ List.mem_cons_self
  have below : ∀ a ∈ rest, a ∈ v.acts := fun a m => acts ▸ List.mem_cons_of_mem _ (List.mem_cons_of_mem _ m)
  have none : ∀ i, ¬v.past.Ripe v.scheduler i := h.covered _ head
  have least := cached.told ms (.inl head)
  have col : Column (.deadline ms :: act :: rest) := acts ▸ o.sound.column
  obtain ⟨noDeadline, -⟩ := col.tail.no_result
  have old : Runs (act :: rest) := Runs.tail (acts ▸ h.runs : Runs (.deadline ms :: act :: rest)) (by simp)
  have arena : s.device.scheduler.arena = v.scheduler.arena := by
    rw [Stride.scheduler_device]
    cases l <;> rfl
  have board : s.board = v.device.board := by cases l <;> rfl
  have clock : s.device.board.clock = v.clock := by rw [Stride.clock_device, board, View.clock]
  refine ⟨?_, fun a m => ?_, ?_, fun n m => ?_, fun best now m => ?_, ?_, ?_, fun a _ => .of_none fun i => ?_⟩
  · cases l with
    | round => exact (old.tail (by simp)).append (show .running ∉ [Act.deadline ms] by simp)
    | ticking => cases h.steady _ second
    | sleeping => exact old.append (show .running ∉ [_, Act.sleeping _] by simp)
    | awake => exact old
  · refine (List.mem_append.1 m).elim (fun m => ?_) fun m => h.steady a (below a m)
    cases l with
    | round => exact h.steady a (List.mem_singleton.1 m ▸ head)
    | ticking => cases h.steady _ second
    | sleeping =>
      simp only [Stride.frames, List.mem_cons, List.not_mem_nil, or_false] at m
      rcases m with rfl | rfl | rfl <;> rfl
    | awake => exact h.steady a (List.mem_singleton.1 m ▸ second)
  · show ∀ p ∈ s.device.board.pace, p = 0
    rw [Stride.pace_device, board]
    exact h.pace
  · show v.past.read = s.device.board.clock
    rw [clock]
    exact h.read ms head
  · show now = s.device.board.clock
    rw [clock]
    refine h.scanned best now (below _ ((List.mem_append.1 m).resolve_left fun m => ?_))
    cases l <;> simp [Stride.frames] at m
  · refine h.inHand.congr arena fun a walked m => below a ((List.mem_append.1 m).resolve_left fun m => ?_)
    cases l with
    | sleeping =>
      simp only [Stride.frames, List.mem_cons, List.not_mem_nil, or_false] at m
      rcases m with rfl | rfl | rfl <;> cases walked
    | _ => cases List.mem_singleton.1 m; cases walked
  · refine h.onTime.congr arena fun nap m i w => ?_
    refine (List.mem_append.1 m).elim (fun m => ?_) fun m => h.onTime.napping nap (below _ m) i w
    cases l with
    | sleeping =>
      simp only [Stride.frames, List.mem_cons, Act.sleeping.injEq, List.not_mem_nil, or_false, reduceCtorEq,
        false_or] at m
      subst m
      cases ms with
      | none => exact absurd w (least i)
      | some ms =>
        have left := least.2 i w
        rw [h.read _ head, UInt32.le_iff_toNat_le, o.timed.toNat_left (h.young o.timed) o.timed.readAt w] at left
        have due := h.onTime.punctual i w
        show v.past.time + ms.toNat ≤ _
        omega
    | _ => simp [Stride.frames] at m
  · intro r
    exact none i ((ripe_of_arena arena i).1 r)

end View

end TimedTasks
