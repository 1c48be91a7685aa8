import TimedTasks.Proofs.Bounds
import TimedTasks.Proofs.March
import TimedTasks.Proofs.Proper

/-!
# No step fails

A step can fail for two reasons only: it is about something that is not there, or the frames lie as they never do. What
the acts in progress name is there (`Inside`, `World.Stored`), and frames lie as they should. So only an operation that is
called on a device, on a pool or on a task of its own that does not exist fails (`Moment.strays_of_fault`), and as long as
no one calls such a thing, a call goes on until its answer is all that is left (`Moment.goes_on`).
-/

namespace TimedTasks

/-- The computation has a result. -/
def Succeeds {α : Type} (x : Except Fault α) : Prop := ∃ a, x = .ok a

namespace Succeeds

variable {α β : Type} {x : Except Fault α} {f : α → Except Fault β}

theorem ok (a : α) : Succeeds (.ok a : Except Fault α) := ⟨a, rfl⟩

/-- A chain succeeds when its first part does and its second part does from every result of it. -/
theorem bind (h : Succeeds x) (next : ∀ a, x = .ok a → Succeeds (f a)) : Succeeds (x >>= f) := by
  obtain ⟨a, ha⟩ := h
  obtain ⟨b, hb⟩ := next a ha
  exact ⟨b, bind_eq_ok.2 ⟨a, ha, hb⟩⟩

theorem map {g : α → β} (h : Succeeds x) : Succeeds (g <$> x) := by
  obtain ⟨a, ha⟩ := h
  exact ⟨g a, map_eq_ok.2 ⟨a, ha, rfl⟩⟩

end Succeeds

/-! ## Slots -/

namespace Arena

variable {a : Arena} {i j : Nat} {f : Task → Task} {now : UInt32} {l : List Nat}

/-- A slot inside the arena is there. -/
theorem slot_succeeds (h : i < a.size) : Succeeds (a.slot i) := ⟨a[i], slot_eq_ok_iff.2 (by simp [h])⟩

/-- So it can be changed. -/
theorem alter_succeeds (h : i < a.size) : Succeeds (a.alter i f) := ⟨_, alter_eq_ok_iff.2 ⟨h, rfl⟩⟩

/-- And so can all slots of a list that lies inside. -/
theorem alterAll_succeeds (h : ∀ i ∈ l, i < a.size) : Succeeds (a.alterAll f l) := by
  induction l generalizing a with
  | nil => exact .ok a
  | cons i l ih =>
    refine (alter_succeeds (h i List.mem_cons_self)).bind fun b hb => ih fun j m => ?_
    rw [size_alter hb]
    exact h j (List.mem_cons_of_mem _ m)

/-- Two slots that are there can be compared. -/
theorem expiresBefore_succeeds (hi : i < a.size) (hj : j < a.size) : Succeeds (a.expiresBefore i j now) := by
  refine (slot_succeeds hj).bind fun other _ => ?_
  split
  · exact (slot_succeeds hi).bind fun _ _ => .ok _
  · exact .ok _

end Arena

namespace DueCache

variable {c : DueCache} {a : Arena} {now : UInt32} {i : Nat}

/-- The cache can be told of a start when all that it remembers is there. -/
theorem noteArmed_succeeds (here : i < a.size) (soonest : ∀ j, c.soonest = some j → j < a.size)
    (latecomer : ∀ j, c.latecomer = some j → j < a.size) : Succeeds (c.noteArmed a i now) := by
  have rival : Succeeds (c.rival a i) := by
    unfold DueCache.rival
    split
    · exact .ok _
    · rename_i j same
      split
      · exact .ok _
      · exact (Arena.slot_succeeds (soonest j same)).bind fun _ _ => .ok _
  have late : Succeeds (c.lateWith a i now) := by
    unfold DueCache.lateWith
    split
    · exact .ok _
    · rename_i j same
      split
      · exact .ok _
      · exact (Arena.expiresBefore_succeeds here (latecomer j same)).bind fun _ _ => .ok _
  refine rival.bind fun r hr => ?_
  cases r with
  | none => exact late.bind fun _ _ => .ok _
  | some j =>
    refine (Arena.expiresBefore_succeeds here ?_).bind fun _ _ => .ok _
    -- The rival is the slot that the cache remembers.
    unfold DueCache.rival at hr
    split at hr
    · cases hr
    · rename_i k same
      split at hr
      · cases hr
      · obtain ⟨t, -, hr⟩ := bind_eq_ok.1 hr
        injection hr with hr
        split at hr
        · cases hr
          exact soonest _ same
        · cases hr

/-- The better one of two is one of the two. -/
theorem better_succeeds (now : UInt32) {chosen candidate : Option Nat} (h : ∀ i, chosen = some i → i < a.size)
    (h' : ∀ i, candidate = some i → i < a.size) :
    ∃ r, better a now chosen candidate = .ok r ∧ ∀ i, r = some i → i < a.size := by
  unfold better
  cases candidate with
  | none => exact ⟨chosen, rfl, h⟩
  | some k =>
    have bound := h' k rfl
    dsimp only
    split
    · exact ⟨chosen, rfl, h⟩
    · obtain ⟨t, ht⟩ := Arena.slot_succeeds bound
      rw [ht]
      show ∃ r, (if t.state = .active then _ else _) = Except.ok r ∧ _
      split
      · cases chosen with
        | none => exact ⟨some k, rfl, h'⟩
        | some j =>
          obtain ⟨b, hb⟩ : Succeeds (a.expiresBefore k j now) := Arena.expiresBefore_succeeds bound (h j rfl)
          refine ⟨if b then some k else some j, bind_eq_ok.2 ⟨b, hb, rfl⟩, fun i same => ?_⟩
          cases b
          · exact h i same
          · exact h' i same
      · exact ⟨chosen, rfl, h⟩

/-- It can adopt the result of a scan under the same condition. -/
theorem adopt_succeeds {best : Option Nat} (h : ∀ i, best = some i → i < a.size)
    (soonest : ∀ i, c.soonest = some i → i < a.size) (latecomer : ∀ i, c.latecomer = some i → i < a.size) :
    Succeeds (c.adopt a best now) := by
  obtain ⟨r, hr, first⟩ := better_succeeds now h soonest
  obtain ⟨r', hr', second⟩ := better_succeeds now first latecomer
  refine .bind ⟨r, hr⟩ fun _ same => ?_
  cases hr.symm.trans same
  refine .bind ⟨r', hr'⟩ fun _ same => ?_
  cases hr'.symm.trans same
  cases r' with
  | none => exact .ok _
  | some k => exact (Arena.slot_succeeds (second k rfl)).bind fun _ _ => .ok _

end DueCache

/-! ## Bytes -/

namespace Pools

variable {ps : Pools} {segment : Segment} {k : Nat}

theorem pool_succeeds {p : Pool} (h : ps[k]? = some p) : ps.pool k = .ok p := by
  rw [pool, h]

/-- Bytes can be copied into a segment that its pool reaches. -/
theorem copy_succeeds {data : List UInt8} (h : ps.Reach segment) : Succeeds (ps.copy segment data) := by
  obtain ⟨p, found, room⟩ := h
  refine .bind ⟨p, pool_succeeds found⟩ fun q same => ?_
  cases (pool_succeeds found).symm.trans same
  have fits : segment.offset + (data.take segment.size).length ≤ p.storage.length := by
    have := List.length_take_le segment.size data
    omega
  rw [Pool.write?, if_pos fits]
  exact .ok _

/-- As many bytes as fit into such a segment can be read from it. -/
theorem read_succeeds {length : Nat} (h : ps.Reach segment) (short : length ≤ segment.size) :
    Succeeds (ps.read segment length) := by
  obtain ⟨p, found, room⟩ := h
  refine .bind ⟨p, pool_succeeds found⟩ fun q same => ?_
  cases (pool_succeeds found).symm.trans same
  rw [Pool.read?, if_pos (by omega)]
  exact .ok _

end Pools

/-! ## Schedulers -/

/-- The links of the queue, and all slots that are remembered, lie in the arena. -/
structure Scheduler.Steady (σ : Scheduler) : Prop where
  declared : σ.declared ≤ σ.arena.size
  soonest : ∀ i, σ.cache.soonest = some i → i < σ.arena.size
  latecomer : ∀ i, σ.cache.latecomer = some i → i < σ.arena.size
  queue : ∃ roster, σ.queue.Holds σ.arena.link roster

/-- The bytes of all slots lie in the stores of their pools. -/
def Scheduler.Stored (σ : Scheduler) (ps : Pools) : Prop :=
  ∀ (i : Nat) (t : Task) (segment : Segment) (length : Nat), σ.arena[i]? = some t → t.payload = .copied segment length →
    length ≤ segment.size ∧ ps.Reach segment

theorem World.Stored.scheduler {w : World} {d : Nat} {δ : Device} (h : w.Stored) (found : w.devices[d]? = some δ) :
    δ.scheduler.Stored w.pools := fun i t segment length => h d δ i t segment length found

namespace Scheduler

variable {σ : Scheduler} {ps : Pools} {i : Nat} {now : UInt32}

/-- Slots that were handed out are inside the arena. -/
theorem Steady.lt_size (h : σ.Steady) (bound : i < σ.declared) : i < σ.arena.size := Nat.lt_of_lt_of_le bound h.declared

/-- A slot is found or was not handed out; there is no third case. -/
theorem lookup_succeeds (h : σ.declared ≤ σ.arena.size) : Succeeds (σ.lookup i) := by
  unfold lookup
  split
  · rename_i bound
    exact (Arena.slot_succeeds (Nat.lt_of_lt_of_le bound h)).map
  · exact .ok _

theorem alter_succeeds {f : Task → Task} (h : i < σ.arena.size) : Succeeds (σ.alter i f) :=
  (Arena.alter_succeeds h).bind fun _ _ => .ok _

/-- A start is refused or has a state to lead to. -/
theorem startState_succeeds (h : σ.declared ≤ σ.arena.size) : Succeeds (σ.startState i) := by
  refine (lookup_succeeds h).bind fun found _ => ?_
  cases found with
  | none => exact .ok _
  | some t => dsimp only; split <;> exact .ok _

/-- A stop is refused or done. -/
theorem stop_succeeds (h : σ.declared ≤ σ.arena.size) : Succeeds (σ.stop i) := by
  refine (lookup_succeeds h).bind fun found hf => ?_
  cases found with
  | none => exact .ok _
  | some t =>
    have bound := Nat.lt_of_lt_of_le (lookup_eq_ok_some hf).1 h
    dsimp only
    split
    · exact .ok _
    · exact (alter_succeeds bound).bind fun _ _ => .ok _

/-- A new interval is refused or given. -/
theorem relength_succeeds {ms : UInt32} (h : σ.declared ≤ σ.arena.size) : Succeeds (σ.relength i ms) := by
  refine (lookup_succeeds h).bind fun found hf => ?_
  cases found with
  | none => exact .ok _
  | some t =>
    have bound := Nat.lt_of_lt_of_le (lookup_eq_ok_some hf).1 h
    dsimp only
    split
    · exact .ok _
    · exact (alter_succeeds bound).bind fun _ _ => .ok _

/-- A new interval moves no slot. -/
theorem declared_of_relength {σ' : Scheduler} {ms : UInt32} (h : σ.declared ≤ σ.arena.size)
    (re : σ.relength i ms = .ok (.ok σ')) :
    σ'.declared ≤ σ'.arena.size := by
  obtain ⟨-, -, alters⟩ := relength_alters re
  obtain ⟨a, ha, rfl⟩ := alter_eq_ok alters
  exact h.trans (Nat.le_of_eq (Arena.size_alter ha).symm)

/-- The queue can be walked to its end. -/
theorem Steady.queued (h : σ.Steady) : Succeeds σ.queued := by
  obtain ⟨roster, holds⟩ := h.queue
  exact ⟨roster, Queue.members_of_holds holds⟩

/-- A slot can be linked behind the last one, since the last one is there. -/
theorem enqueue_succeeds (h : σ.Steady) (bound : i < σ.arena.size) : Succeeds (σ.enqueue i) := by
  obtain ⟨roster, holds⟩ := h.queue
  have ends : σ.queue.head.isNone = σ.queue.tail.isNone := by
    rw [holds.tail, holds.chain.eq_head?]
    cases roster <;> simp
  refine .bind ?_ fun _ _ => .ok _
  unfold Queue.push
  rw [if_neg (by simp [ends])]
  refine (Arena.alter_succeeds bound).bind fun a ha => ?_
  split
  · exact .ok _
  · rename_i last same
    refine (Arena.alter_succeeds ?_).bind fun _ _ => .ok _
    rw [Arena.size_alter ha]
    have mem : last ∈ roster := List.mem_of_getLast? (holds.tail ▸ same)
    exact Queue.lt_size_of_link (holds.chain.link_isSome last mem)

/-- A slot is configured, or refused while its handler is on the stack. -/
theorem configure_succeeds {handler : Nat} {ms : UInt32} {repeats : Bool} (h : σ.Steady) (bound : i < σ.arena.size) :
    Succeeds (σ.configure i handler ms repeats) := by
  refine (Arena.slot_succeeds bound).bind fun t _ => ?_
  split
  · exact .ok _
  · by_cases first : t.state = .uninit
    · simp only [first, if_true]
      refine (enqueue_succeeds h bound).bind fun τ hτ => (alter_succeeds ?_).bind fun _ _ => .ok _
      obtain ⟨⟨q, a⟩, hp, hτ⟩ := bind_eq_ok.1 hτ
      cases hτ
      exact (Queue.push_same hp).2 ▸ bound
    · simp only [first, if_false]
      exact (Succeeds.ok σ).bind fun τ same => (alter_succeeds (by cases same; exact bound)).bind fun _ _ => .ok _

theorem noteArmed_succeeds (h : σ.Steady) (bound : i < σ.arena.size) : Succeeds (σ.noteArmed i now) :=
  (DueCache.noteArmed_succeeds bound h.soonest h.latecomer).bind fun _ _ => .ok _

theorem adopt_succeeds {best : Option Nat} (h : σ.Steady) (bound : ∀ i, best = some i → i < σ.arena.size) :
    Succeeds (σ.adopt best now) :=
  (DueCache.adopt_succeeds bound h.soonest h.latecomer).bind fun _ _ => .ok _

/-- Bytes are attached, or refused. -/
theorem attach_succeeds {data : List UInt8} (h : σ.Stored ps) (bound : i < σ.arena.size) :
    Succeeds (σ.attach ps i data) := by
  refine (Arena.slot_succeeds bound).bind fun t ht => ?_
  split
  · split
    · exact (alter_succeeds bound).bind fun _ _ => .ok _
    · rename_i segment length payload
      have reach := (h i t segment length (Arena.slot_eq_ok_iff.1 ht) payload).2
      exact (Pools.copy_succeeds reach).bind fun r _ => (alter_succeeds bound).bind fun _ _ => .ok _
  · exact .ok _

/-- Bytes are written, or refused. -/
theorem write_succeeds {data : List UInt8} (h : σ.Stored ps) (bound : i < σ.arena.size) :
    Succeeds (σ.write ps i data) := by
  refine (Arena.slot_succeeds bound).bind fun t ht => ?_
  split
  · split
    · exact .ok _
    · rename_i segment length payload
      have reach := (h i t segment length (Arena.slot_eq_ok_iff.1 ht) payload).2
      exact (Pools.copy_succeeds reach).bind fun r _ => (alter_succeeds bound).bind fun _ _ => .ok _
  · exact .ok _

/-- Slots that are there can be scanned. -/
theorem soonestOf_succeeds {a : Arena} {l : List Nat} {best : Option (Nat × UInt32)} (h : ∀ i ∈ l, i < a.size) :
    Succeeds (soonestOf a now l best) := by
  induction l generalizing best with
  | nil => exact .ok best
  | cons i l ih =>
    exact (Arena.slot_succeeds (h i List.mem_cons_self)).bind fun t _ => ih fun j m => h j (List.mem_cons_of_mem _ m)

/-- The queue holds slots of the arena only. -/
theorem Steady.roster_lt (h : σ.Steady) {roster : List Nat} (queued : σ.queued = .ok roster) : ∀ i ∈ roster, i < σ.arena.size := by
  obtain ⟨l, holds⟩ := h.queue
  cases (Queue.members_of_holds holds).symm.trans queued
  exact fun i m => Queue.lt_size_of_link (holds.chain.link_isSome i m)

/-- The scan at the end of a round succeeds. -/
theorem scan_succeeds (h : σ.Steady) : Succeeds (σ.scan now) :=
  h.queued.bind fun _ queued => (soonestOf_succeeds (h.roster_lt queued)).bind fun _ _ => .ok _

/-- All slots of the queue can be reset. -/
theorem dismiss_succeeds (h : σ.Steady) : Succeeds (σ.queue.dismiss σ.arena) :=
  h.queued.bind fun _ queued => (Arena.alterAll_succeeds (h.roster_lt queued)).bind fun _ _ => .ok _

theorem beginSession_succeeds (h : σ.Steady) : Succeeds σ.beginSession := (dismiss_succeeds h).bind fun _ _ => .ok _

/-- The end of a session resets them, and gives all that was handed out back. -/
theorem endSession_succeeds (h : σ.Steady) : Succeeds σ.endSession := by
  refine (dismiss_succeeds h).bind fun ⟨count, a⟩ hd => (Arena.alterAll_succeeds fun i m => ?_).bind fun _ _ => .ok _
  obtain ⟨l, -, hd⟩ := bind_eq_ok.1 hd
  obtain ⟨b, hb, hd⟩ := bind_eq_ok.1 hd
  cases hd
  rw [Arena.size_alterAll hb]
  exact h.lt_size (List.mem_range.1 m)

/-- Slots that the arena has room for become slots of a pool. -/
theorem enrollSlots_succeeds {a : Arena} {pool size first count : Nat} (h : first + count ≤ a.size) :
    Succeeds (enrollSlots a pool size first count) := by
  induction count with
  | zero => exact .ok a
  | succ count ih =>
    refine (ih (by omega)).bind fun b hb => Arena.alter_succeeds ?_
    rw [size_enrollSlots hb]
    omega

/-- A pool that exists is bound, or there is no room for it. -/
theorem enrollPool_succeeds {k : Nat} {p : Pool} (h : ps[k]? = some p) : Succeeds (σ.enrollPool ps k) := by
  refine .bind ⟨p, Pools.pool_succeeds h⟩ fun q same => ?_
  cases (Pools.pool_succeeds h).symm.trans same
  split
  · exact .ok _
  · split
    · exact .ok _
    · rename_i first τ taken
      obtain ⟨rfl, room, rfl⟩ := takeSlots_slots taken
      exact (enrollSlots_succeeds room).bind fun _ _ => .ok _

theorem row_succeeds {r : RunState} (h : σ.Steady) : Succeeds (σ.row r now) := h.queued.bind fun _ _ => .ok _

end Scheduler

/-! ## Frames -/

/-- A task is meant where an operation may mean its own. -/
theorem TaskRef.resolve_succeeds {self : Option Nat} {ref : TaskRef} (h : ref.proper self.isSome) :
    Succeeds (ref.resolve self) := by
  cases ref with
  | slot i => exact .ok i
  | self =>
    cases self with
    | some i => exact .ok i
    | none => cases h

theorem TaskRef.proper_of_fits {own : Bool} {ref : TaskRef} (h : ref.proper false) : ref.proper own := by
  cases ref with
  | slot i => rfl
  | self => cases h

namespace Op

/-- The task that the operation is about. -/
def task? : Op → Option TaskRef
  | configure ref .. | start ref | stop ref | update ref _ | attach ref _ | write ref _ | query ref | task ref => some ref
  | _ => none

/-- The pool that the operation is about. -/
def pool? : Op → Option Nat
  | alloc k | pool k => some k
  | _ => none

/-- What the operation of the handler of task `own`, or of no handler, is about is there. -/
structure Finds (ps : Pools) (own : Option Nat) (op : Op) : Prop where
  task : ∀ ref ∈ op.task?, Succeeds (ref.resolve own)
  pool : ∀ k ∈ op.pool?, k < ps.size

end Op

/-- What the act is about is there. -/
def Act.Finds (ps : Pools) : Act → Prop
  | perform self op => op.Finds ps self
  | locked (.enroll k) => k < ps.size
  | _ => True

/-- What proper operations are about is there. -/
theorem Op.finds_of_proper {s : Setup} {ps : Pools} {self : Option Nat} {op : Op}
    (proper : (Act.perform self op).proper s) (pools : ∀ k < s.pools.length, k < ps.size) : op.Finds ps self := by
  have meant : ∀ ref : TaskRef, ref.proper self.isSome ∨ ref.proper false → Succeeds (ref.resolve self) :=
    fun ref named => TaskRef.resolve_succeeds (named.elim id TaskRef.proper_of_fits)
  have there : ∀ k : Nat, k < s.pools.length ∨ k < s.pools.length → k < ps.size := fun k named => pools k (named.elim id id)
  simp only [Act.proper, Bool.or_eq_true] at proper
  constructor
  · intro ref about
    cases op <;> cases about <;> exact meant ref proper
  · intro k about
    cases op <;> cases about <;> exact there k (by simpa [Op.proper, Op.fits] using proper)

namespace Act

/-- The act only waits for a result of what is above it. -/
def attends : Act → Bool
  | report _ | discard | ticking | round => true
  | _ => false

end Act

namespace World

variable {w : World} {d i : Nat} {δ : Device} {row : TaskRow}

/-- The questions of a query succeed, each with an answer or a reading. -/
theorem askExpired_succeeds (h : δ.scheduler.declared ≤ δ.scheduler.arena.size) :
    Succeeds (w.askExpired d δ i row) := by
  refine (Scheduler.lookup_succeeds h).bind fun found _ => ?_
  cases found with
  | none => exact .ok _
  | some t => dsimp only; split <;> exact .ok _

theorem askRemaining_succeeds (h : δ.scheduler.declared ≤ δ.scheduler.arena.size) :
    Succeeds (w.askRemaining d δ i row) := by
  refine (Scheduler.lookup_succeeds h).bind fun found _ => ?_
  cases found with
  | none => exact askExpired_succeeds h
  | some t =>
    dsimp only
    split
    · exact .ok _
    · exact askExpired_succeeds h

theorem askElapsed_succeeds (h : δ.scheduler.declared ≤ δ.scheduler.arena.size) :
    Succeeds (w.askElapsed d δ i row) := by
  refine (Scheduler.lookup_succeeds h).bind fun found _ => ?_
  cases found with
  | none => exact askRemaining_succeeds h
  | some t =>
    dsimp only
    split
    · exact askRemaining_succeeds h
    · exact .ok _

/-- An operation that begins under the lock is refused, or takes it. -/
theorem lockedOn_succeeds {sec : Section} (h : δ.scheduler.declared ≤ δ.scheduler.arena.size) :
    Succeeds (w.lockedOn d δ i sec) := by
  refine (Scheduler.lookup_succeeds h).bind fun found _ => ?_
  cases found <;> exact .ok _

/-- A start is refused, or comes to its reading. -/
theorem start_succeeds (h : δ.scheduler.declared ≤ δ.scheduler.arena.size) : Succeeds (w.start d δ i) := by
  refine (Scheduler.startState_succeeds h).bind fun next _ => ?_
  cases next <;> exact .ok _

theorem update_succeeds {ms : UInt32} (h : δ.scheduler.declared ≤ δ.scheduler.arena.size) :
    Succeeds (w.update d δ i ms) := by
  refine (Scheduler.relength_succeeds h).bind fun r hr => ?_
  cases r with
  | error e => exact .ok _
  | ok σ => exact start_succeeds (Scheduler.declared_of_relength h hr)

theorem stop_succeeds (h : δ.scheduler.declared ≤ δ.scheduler.arena.size) : Succeeds (w.stop d δ i) := by
  refine (Scheduler.stop_succeeds h).bind fun r _ => ?_
  cases r <;> exact .ok _

/-- A query is answered, or takes the lock. -/
theorem query_succeeds (h : δ.scheduler.declared ≤ δ.scheduler.arena.size) : Succeeds (w.query d δ i) := by
  refine (Scheduler.lookup_succeeds h).bind fun found _ => ?_
  cases found <;> exact .ok _

/-- Operations that are about what there is begin. -/
theorem perform_succeeds {self : Option Nat} {op : Op} (h : δ.scheduler.declared ≤ δ.scheduler.arena.size)
    (finds : op.Finds w.pools self) : Succeeds (w.perform d δ self op) := by
  have meant := finds.task
  have there : ∀ k ∈ op.pool?, Succeeds (w.pools.pool k) := fun k about =>
    ⟨_, Pools.pool_succeeds (Array.getElem?_eq_getElem (finds.pool k about))⟩
  cases op with
  | declare | shutdown | info | capacity | advance | setNow | hook | on | init | run | tick => exact .ok _
  | configure ref handler ms repeats => exact (meant ref rfl).bind fun i _ => lockedOn_succeeds h
  | start ref => exact (meant ref rfl).bind fun i _ => start_succeeds h
  | stop ref => exact (meant ref rfl).bind fun i _ => stop_succeeds h
  | update ref ms => exact (meant ref rfl).bind fun i _ => update_succeeds h
  | attach ref data => exact (meant ref rfl).bind fun i _ => lockedOn_succeeds h
  | write ref data => exact (meant ref rfl).bind fun i _ => lockedOn_succeeds h
  | query ref => exact (meant ref rfl).bind fun i _ => query_succeeds h
  | task ref =>
    refine (meant ref rfl).bind fun i _ => ?_
    split <;> exact .ok _
  | alloc k =>
    refine (there k rfl).bind fun q _ => ?_
    split <;> exact .ok _
  | pool k =>
    refine (there k rfl).bind fun q _ => ?_
    split <;> exact .ok _

/-- An operation that fails is about a pool that is not there, or about the task of no handler. -/
theorem perform_fault {self : Option Nat} {op : Op} {f : Fault} (h : δ.scheduler.declared ≤ δ.scheduler.arena.size)
    (fault : w.perform d δ self op = .error f) : (∃ k, op.pool? = some k ∧ w.pools[k]? = none ∧ f = .noPool k) ∨
      self = none ∧ op.task? = some .self ∧ f = .noSelf := by
  have fails : ¬op.Finds w.pools self := fun finds => by
    obtain ⟨move, done⟩ := perform_succeeds (w := w) (d := d) h finds
    cases done.symm.trans fault
  by_cases pool : ∃ k, op.pool? = some k ∧ w.pools[k]? = none
  · obtain ⟨k, about, none⟩ := pool
    refine .inl ⟨k, about, none, ?_⟩
    have missing : w.pools.pool k = .error (.noPool k) := by rw [Pools.pool, none]
    cases op <;> cases about
    · rw [perform, alloc, missing] at fault
      exact (Except.error.inj fault).symm
    · rw [perform, countPool, missing] at fault
      exact (Except.error.inj fault).symm
  · refine .inr ?_
    have pools : ∀ k ∈ op.pool?, k < w.pools.size := fun k about => by
      by_contra beyond
      exact pool ⟨k, about, Array.getElem?_eq_none (Nat.not_lt.1 beyond)⟩
    obtain ⟨ref, about, lost⟩ : ∃ ref, op.task? = some ref ∧ ¬Succeeds (ref.resolve self) := by
      by_contra all
      refine fails ⟨fun ref about => ?_, pools⟩
      by_contra lost
      exact all ⟨ref, about, lost⟩
    cases ref with
    | slot i => exact absurd (Succeeds.ok i) lost
    | self =>
      cases self with
      | some i => exact absurd (Succeeds.ok i) lost
      | none =>
        refine ⟨rfl, about, ?_⟩
        cases op <;> cases about <;> exact (Except.error.inj fault).symm

/-- What becomes of a reading is settled, since the slot that it names is there. -/
theorem resume_succeeds {now : UInt32} {r : Reading} (h : δ.scheduler.Steady)
    (named : ∀ i, (Act.reading r).names = some i → i < δ.scheduler.arena.size) : Succeeds (w.resume d δ now r) := by
  cases r with
  | start i next => exact (Scheduler.alter_succeeds (named i rfl)).bind fun _ _ => .ok _
  | cached | due | expired => exact .ok _
  | scan => exact (Scheduler.scan_succeeds h).bind fun _ _ => .ok _
  | renew i => exact (Scheduler.alter_succeeds (named i rfl)).bind fun _ _ => .ok _
  | elapsed i timing row => exact askRemaining_succeeds h.declared
  | remaining i timing row => exact askExpired_succeeds h.declared
  | info runState => exact (Scheduler.row_succeeds h).bind fun _ _ => .ok _

/-- A handler is called: the bytes of its task lie in a pool that reaches them. -/
theorem callHandler_succeeds (stored : δ.scheduler.Stored w.pools) (bound : i < δ.scheduler.arena.size) :
    Succeeds (w.callHandler d δ i) := by
  refine (Arena.slot_succeeds bound).bind fun t ht => ?_
  dsimp only
  split
  · exact .ok _
  · refine Succeeds.bind ?_ fun _ _ => .ok _
    cases payload : t.payload with
    | attached bytes => exact .ok _
    | copied segment length =>
      obtain ⟨short, reach⟩ := stored i t segment length (Arena.slot_eq_ok_iff.1 ht) payload
      exact Pools.read_succeeds reach short

/-- The segment of a slot can be wiped. -/
theorem wiped_succeeds {t : Task} (stored : δ.scheduler.Stored w.pools) (slot : δ.scheduler.arena.slot i = .ok t) :
    Succeeds (w.wiped t.payload) := by
  unfold wiped
  split
  · cases payload : t.payload with
    | attached bytes => exact .ok _
    | copied segment length =>
      obtain ⟨-, reach⟩ := stored i t segment length (Arena.slot_eq_ok_iff.1 slot) payload
      obtain ⟨r, copied⟩ := Pools.copy_succeeds reach
      exact ⟨r.2, map_eq_ok.2 ⟨r, copied, rfl⟩⟩
  · exact .ok _

/-- What is done under the lock succeeds when the slots, segments and pools that it names are there. -/
theorem work_succeeds {sec : Section} (h : δ.scheduler.Steady) (stored : δ.scheduler.Stored w.pools)
    (named : ∀ i, (Act.locked sec).names = some i → i < δ.scheduler.arena.size)
    (claims : ∀ i left, sec = .claim i left → i < δ.scheduler.arena.size)
    (pool : ∀ k, sec = .enroll k → ∃ p, w.pools[k]? = some p) : Succeeds (w.work d δ sec) := by
  cases sec with
  | declare => rw [work]; split <;> exact .ok _
  | configure i handler ms repeats =>
    refine (Scheduler.configure_succeeds h (named i rfl)).bind fun r _ => ?_
    cases r <;> exact .ok _
  | noteArmed i now => exact (Scheduler.noteArmed_succeeds h (named i rfl)).bind fun _ _ => .ok _
  | forget | shutdown | sessionOver => exact .ok _
  | attach i data =>
    refine (Scheduler.attach_succeeds stored (named i rfl)).bind fun r _ => ?_
    cases r <;> exact .ok _
  | write i data =>
    refine (Scheduler.write_succeeds stored (named i rfl)).bind fun r _ => ?_
    cases r <;> exact .ok _
  | dataLength i row => exact (Arena.slot_succeeds (named i rfl)).bind fun t _ => askElapsed_succeeds h.declared
  | beginSession => exact (Scheduler.beginSession_succeeds h).bind fun _ _ => .ok _
  | adopt best now => exact (Scheduler.adopt_succeeds h named).bind fun _ _ => .ok _
  | fetch i => exact callHandler_succeeds stored (named i rfl)
  | endSession => exact (Scheduler.endSession_succeeds h).bind fun _ _ => .ok _
  | enroll k =>
    obtain ⟨p, found⟩ := pool k rfl
    refine Succeeds.bind ⟨p, Pools.pool_succeeds found⟩ fun q _ => (Scheduler.enrollPool_succeeds found).bind fun r _ => ?_
    rcases r with _ | ⟨first, σ, ps⟩ <;> exact .ok _
  | claim i left =>
    have bound := claims i left rfl
    refine (Arena.slot_succeeds bound).bind fun t slot => ?_
    split
    · exact .ok _
    · exact (Scheduler.alter_succeeds bound).bind fun _ _ => (wiped_succeeds stored slot).bind fun _ _ => .ok _

/-- A frame that is at work goes on, when all that it is about is there. -/
theorem step_succeeds {act : Act} (h : δ.scheduler.Steady) (stored : δ.scheduler.Stored w.pools)
    (finds : act.Finds w.pools) (named : ∀ i, act.names = some i → i < δ.scheduler.arena.size)
    (claims : ∀ i left, act = .locked (.claim i left) → i < δ.scheduler.arena.size)
    (cursor : ∀ skip i, act = .walking skip (some i) → i < δ.scheduler.arena.size)
    (awake : act.attends = false) (answer : ∀ a, act ≠ .answered a) (deadline : ∀ ms, act ≠ .deadline ms) :
    Succeeds (w.step d δ act) := by
  cases act with
  | perform self op => exact perform_succeeds h.declared finds
  | block self ops => cases ops <;> exact .ok _
  | interrupts call bodies => cases bodies <;> exact .ok _
  | reading r => exact resume_succeeds h named
  | locked sec =>
    refine work_succeeds h stored named (fun i left same => claims i left (same ▸ rfl)) fun k same => ?_
    subst same
    exact ⟨_, Array.getElem?_eq_getElem (show k < w.pools.size from finds)⟩
  | opening | closing | sleeping | running | survey | handling | claiming => exact .ok _
  | checkCache =>
    rw [World.step, checkCache]
    split
    · exact .ok _
    · rename_i i soonest
      refine (Arena.slot_succeeds (h.soonest i soonest)).bind fun t _ => ?_
      split <;> exact .ok _
  | walking skip c =>
    cases c with
    | none => exact .ok _
    | some i =>
      refine (Arena.slot_succeeds (cursor skip i rfl)).bind fun t _ => ?_
      split <;> exact .ok _
  | dispatch i =>
    refine (Arena.slot_succeeds (named i rfl)).bind fun t _ => ?_
    split
    · split
      · exact .ok _
      · exact (Scheduler.alter_succeeds (named i rfl)).bind fun _ _ => .ok _
    · exact .ok _
  | settle i => exact (Scheduler.alter_succeeds (named i rfl)).bind fun _ _ => .ok _
  | report | discard | ticking | round => cases awake
  | answered a => exact absurd rfl (answer a)
  | deadline ms => exact absurd rfl (deadline ms)

end World

/-! ## What is on top of the stack -/

/-- What is on top of the stack does not only wait. -/
def Awake (stack : List Frame) : Prop := ∀ f ∈ stack.head?, f.act.attends = false

/-- A step leaves something at work, or ends above something that is. -/
theorem Leads.awake {w : World} {δ : Device} {act : Act} {t : Stride} (l : Leads w δ act t) :
    (∃ a rest, t.frames = a :: rest ∧ a.attends = false) ∨ (t.frames = [] ∧ ∀ b, act.Sits b → b.attends = false) := by
  cases l with
  | blockEnd =>
    refine .inr ⟨rfl, fun b sits => ?_⟩
    rcases sits with ⟨call, bodies, rfl⟩ | ⟨i, k, p, rfl⟩ | rfl <;> rfl
  | interruptsEnd =>
    refine .inr ⟨rfl, fun b resumes => ?_⟩
    cases b <;> first | rfl | cases resumes
  | notDue | notDispatched | settled =>
    refine .inr ⟨rfl, fun b walks => ?_⟩
    cases b <;> first | rfl | cases walks
  | unhandled | handled | woken =>
    refine .inr ⟨rfl, fun b same => ?_⟩
    cases same
    rfl
  | _ => exact .inl ⟨_, _, rfl, rfl⟩

theorem Machine.Turn.awake {m m' : Machine} (turn : m.Turn m') (stacked : Stacked m.stack) : Awake m'.stack := by
  have head : ∀ {f : Frame} {rest : List Frame}, f.act.attends = false → Awake (f :: rest) := fun h f mem => by
    cases mem
    exact h
  cases turn with
  | works d act rest δ t top _ l takes =>
    rw [takes.stack]
    rcases l.awake with ⟨a, acts, frames, awake⟩ | ⟨frames, sits⟩
    · rw [frames]
      exact head awake
    · rw [frames]
      rw [top] at stacked
      cases rest with
      | nil => exact fun f mem => by cases mem
      | cons g rest => exact head (sits _ stacked.1.1)
  | delivers d e ms act rest δ t top _ l takes =>
    rw [takes.stack]
    cases l <;> exact head rfl
  | redirects d e self op rest top _ top' => rw [top']; exact head rfl
  | answers d e a act rest top takes _ top' =>
    rw [top] at stacked
    rw [top']
    cases rest with
    | nil => exact fun f mem => by cases mem
    | cons g rest =>
      refine head ?_
      have sits := stacked.2.1.1
      cases act with
      | report op =>
        obtain ⟨self, ops, same⟩ := sits
        rw [same]
        rfl
      | discard =>
        obtain ⟨i, same⟩ := sits
        rw [same]
        rfl
      | _ => cases takes
  | finishes d a top _ top' => rw [top']; exact fun f mem => by cases mem
  | calls d op top _ top' => rw [top']; exact head rfl

/-! ## What fails -/

/-- The operation that begins next is about something that is not there: a device, a pool, or the task of no handler. -/
inductive Machine.Strays (m : Machine) : Fault → Prop
  | device {d self op rest} : m.stack = ⟨d, .perform self op⟩ :: rest → m.world.devices[d]? = none →
      Strays m (.noDevice d)
  | pool {d self op k rest} : m.stack = ⟨d, .perform self op⟩ :: rest → op.pool? = some k → m.world.pools[k]? = none →
      Strays m (.noPool k)
  | self {d op rest} : m.stack = ⟨d, .perform none op⟩ :: rest → op.task? = some .self → Strays m .noSelf

/-- What the machine goes on with from the top of its stack fails only if that does. -/
theorem Machine.fault_of_onto {rest : List Frame} {x : Except Fault Move} {f : Fault} (fault : onto rest x = .fault f) :
    x = .error f := by
  cases x with
  | ok move => cases fault
  | error e => cases fault; rfl

namespace Act

/-- An operation is about to begin. -/
def isCall : Act → Bool
  | perform .. => true
  | _ => false

end Act

namespace Moment

variable {P : Moment → Prop} {s : Setup} {x y : Moment} {d : Nat} {δ : Device}

/-- Frames that do not just begin lie on devices that are there, and pools that are to come to their slots are there. -/
structure Housed (x : Moment) : Prop where
  devices : ∀ f ∈ x.machine.stack, f.act.isCall = false → f.device < x.machine.world.devices.size
  pools : ∀ f ∈ x.machine.stack, ∀ k, f.act = .locked (.enroll k) → k < x.machine.world.pools.size

/-- No other step brings a pool that is to come to its slots. -/
theorem Next.enrolls_of (next : x.Next y) {f : Frame} {k : Nat} (m : f ∈ y.machine.stack) (enroll : f.act = .locked (.enroll k)) :
    f ∈ x.machine.stack ∨ ∃ p, x.machine.world.pools[k]? = some p := by
  have plain : ∀ {w δ act s}, Leads w δ act s → (∀ self, act ≠ .perform self (.alloc k)) →
      .locked (.enroll k) ∉ s.frames := by
    intro w δ act s l other mem
    cases l with
    | ask ask =>
      cases ask with
      | alloc =>
        simp only [Stride.frames, List.mem_cons, List.not_mem_nil, or_false] at mem
        rcases mem with same | same
        · cases same
        · cases same
          exact other _ rfl
      | _ => simp [Stride.frames] at mem
    | _ => simp [Stride.frames] at mem
  cases next.machine.turn with
  | works d act rest δ s top found l takes =>
    rw [takes.stack] at m
    rcases List.mem_append.1 m with m | m
    · obtain ⟨a, ma, rfl⟩ := List.mem_map.1 m
      cases enroll
      by_cases alloc : ∃ self, act = .perform self (.alloc k)
      · obtain ⟨self, rfl⟩ := alloc
        obtain ⟨δ, move, -, done, -⟩ := next.machine.moves top (fun _ => Act.noConfusion) fun _ => Act.noConfusion
        obtain ⟨p, hp, -⟩ := bind_eq_ok.1 (show x.machine.world.alloc d δ k = .ok move from done)
        exact .inr ⟨p, Pools.pool_eq_ok hp⟩
      · exact absurd ma (plain l fun self same => alloc ⟨self, same⟩)
    · exact .inl (top ▸ List.mem_cons_of_mem _ m)
  | delivers d e ms act rest δ s top found l takes =>
    rw [takes.stack] at m
    rcases List.mem_append.1 m with m | m
    · obtain ⟨a, ma, rfl⟩ := List.mem_map.1 m
      cases enroll
      cases l <;> simp [Stride.frames] at ma
    · exact .inl (top ▸ List.mem_cons_of_mem _ (List.mem_cons_of_mem _ m))
  | redirects d e self op rest top world top' =>
    rw [top'] at m
    rcases List.mem_cons.1 m with rfl | m
    · cases enroll
    · exact .inl (top ▸ List.mem_cons_of_mem _ m)
  | answers d e a act rest top takes alike top' =>
    rw [top'] at m
    exact .inl (top ▸ List.mem_cons_of_mem _ (List.mem_cons_of_mem _ m))
  | finishes d a top world top' => rw [top'] at m; cases m
  | calls d op top world top' =>
    rw [top'] at m
    cases List.mem_singleton.1 m
    cases enroll

/-- A step leaves no frame on a device or a pool that does not exist; only a call may be for one. -/
theorem Next.housed (next : x.Next y) (h : x.Housed) : y.Housed := by
  have size := next.machine.turn.size_devices
  have pool : ∀ k : Nat, k < x.machine.world.pools.size → k < y.machine.world.pools.size := by
    intro k bound
    obtain ⟨q, found, -⟩ := next.machine.pool (Array.getElem?_eq_getElem bound)
    exact (Array.getElem?_eq_some_iff.1 found).1
  constructor
  · intro f m begun
    rw [size]
    -- What is put on the stack lies on the device that works.
    have new : ∀ {d : Nat} {δ : Device} {acts : List Act}, x.machine.world.devices[d]? = some δ →
        f ∈ acts.map (⟨d, ·⟩) → f.device < x.machine.world.devices.size := fun found m => by
      obtain ⟨a, -, rfl⟩ := List.mem_map.1 m
      exact (Array.getElem?_eq_some_iff.1 found).1
    have old : f ∈ x.machine.stack → f.device < x.machine.world.devices.size := fun m => h.devices f m begun
    cases next.machine.turn with
    | works d act rest δ s top found l takes =>
      rw [takes.stack] at m
      exact (List.mem_append.1 m).elim (new found) fun m => old (top ▸ List.mem_cons_of_mem _ m)
    | delivers d e ms act rest δ s top found l takes =>
      rw [takes.stack] at m
      exact (List.mem_append.1 m).elim (new found) fun m => old (top ▸ List.mem_cons_of_mem _ (List.mem_cons_of_mem _ m))
    | redirects d e self op rest top world top' =>
      rw [top'] at m
      rcases List.mem_cons.1 m with rfl | m
      · cases begun
      · exact old (top ▸ List.mem_cons_of_mem _ m)
    | answers d e a act rest top takes alike top' =>
      rw [top'] at m
      exact old (top ▸ List.mem_cons_of_mem _ (List.mem_cons_of_mem _ m))
    | finishes d a top world top' => rw [top'] at m; cases m
    | calls d op top world top' =>
      rw [top'] at m
      cases List.mem_singleton.1 m
      cases begun
  · intro f m k enroll
    rcases next.enrolls_of m enroll with old | ⟨p, found⟩
    · exact pool k (h.pools f old k enroll)
    · exact pool k (Array.getElem?_eq_some_iff.1 found).1

theorem housed (r : Run P (initial s) y) : y.Housed :=
  r.invariant (I := Housed) ⟨fun _ m => (nomatch m), fun _ m => (nomatch m)⟩ fun _ _ h _ next _ => next.housed h

/-- In every run, what is on top of the stack does not only wait. -/
theorem awake (r : Run P (initial s) y) : Awake y.machine.stack := by
  refine (r.also fun z r => stacked_of_run r).invariant (I := fun y => Awake y.machine.stack) ?_ ?_
  · exact fun f m => by cases m
  · exact fun z z' _ p next _ => next.machine.turn.awake p.2

/-- In every run, the slots that a scheduler remembers and links are there. -/
theorem steady (r : Run P (initial s) y) (found : y.machine.world.devices[d]? = some δ) : δ.scheduler.Steady := by
  have inside : TimedTasks.Inside δ.scheduler _ := inside r (view_of_device found)
  exact ⟨inside.declared, fun i e => Nat.lt_of_lt_of_le (inside.soonest i e) inside.declared,
    fun i e => Nat.lt_of_lt_of_le (inside.latecomer i e) inside.declared, _, (ordered r (view_of_device found)).enrolled.holds⟩

/-- In every run, a frame that works on its device goes on, unless it begins an operation. -/
theorem step_succeeds {act : Act} {rest : List Frame} (r : Run P (initial s) y) (top : y.machine.stack = ⟨d, act⟩ :: rest)
    (found : y.machine.world.devices[d]? = some δ) (begun : act.isCall = false) (answer : ∀ a, act ≠ .answered a)
    (deadline : ∀ ms, act ≠ .deadline ms) : Succeeds (y.machine.world.step d δ act) := by
  have shown := view_of_device found
  have mem : (⟨d, act⟩ : Frame) ∈ y.machine.stack := by rw [top]; exact List.mem_cons_self
  have acts : act ∈ pending d y.machine.stack := mem_pending.2 mem
  have steady := steady r found
  have named : ∀ i, act.names = some i → i < δ.scheduler.declared := (inside r shown).named act acts
  refine World.step_succeeds steady ((stored r).scheduler found) ?_
    (fun i name => steady.lt_size (named i name)) (fun i left same => claims r _ mem i left δ same found)
    (fun skip i same => ?_) (awake r _ (by rw [top]; rfl)) answer deadline
  · cases act with
    | perform => cases begun
    | locked sec =>
      cases sec with
      | enroll k => exact (housed r).pools _ mem k rfl
      | _ => trivial
    | _ => trivial
  · have ordered := ordered r shown
    exact Queue.lt_size_of_link (ordered.enrolled.holds.chain.link_isSome i (ordered.marches.cursor skip i (same ▸ acts)))

/-- In every run, whatever handlers and interrupts call, nothing fails but the beginning of an operation that is about
something that is not there. -/
theorem strays_of_fault {f : Fault} (r : Run P (initial s) y) (busy : y.machine.stack ≠ []) (fault : y.machine.step = .fault f) :
    y.machine.Strays f := by
  have stacked := stacked_of_run r
  have awake := awake r
  have device : ∀ g ∈ y.machine.stack, g.act.isCall = false → ∃ δ, y.machine.world.device g.device = .ok δ := fun g m begun =>
    ⟨_, World.device_eq_ok_iff.2 (Array.getElem?_eq_getElem ((housed r).devices g m begun))⟩
  cases top : y.machine.stack with
  | nil => exact absurd top busy
  | cons g rest =>
    rcases g with ⟨d, act⟩
    rw [top] at stacked device awake
    have awake : act.attends = false := awake _ rfl
    by_cases answer : ∃ a, act = .answered a
    · -- The frame below takes the answer, and lies on a device that is there.
      obtain ⟨a, rfl⟩ := answer
      rw [Machine.step, top] at fault
      cases rest with
      | nil => cases fault
      | cons g rest =>
        rcases g with ⟨e, below⟩
        have takes : below.takesAnswer := stacked.1.1
        obtain ⟨δ, found⟩ := device ⟨e, below⟩ (by simp) (by cases below <;> first | rfl | cases takes)
        have fails := Machine.fault_of_onto fault
        rw [found] at fails
        cases below <;> first | cases fails; done | cases takes
    by_cases deadline : ∃ ms, act = .deadline ms
    · obtain ⟨ms, rfl⟩ := deadline
      rw [Machine.step, top] at fault
      cases rest with
      | nil => cases stacked.1
      | cons g rest =>
        rcases g with ⟨e, below⟩
        have sits : below = .round ∨ below.loops := stacked.1.1
        obtain ⟨δ, found⟩ := device ⟨e, below⟩ (by simp) (by
          rcases sits with rfl | loops
          · rfl
          · cases below <;> first | rfl | cases loops)
        have fails := Machine.fault_of_onto fault
        rw [found] at fails
        have takes : Succeeds (y.machine.world.takeDeadline e δ ms below) := by
          rcases sits with rfl | loops
          · exact .ok _
          · cases below with
            | running => rw [World.takeDeadline]; split <;> exact .ok _
            | ticking => exact .ok _
            | _ => cases loops
        obtain ⟨move, takes⟩ := takes
        cases takes.symm.trans (show y.machine.world.takeDeadline e δ ms below = .error f from fails)
    have works : (y.machine.world.device d >>= fun δ => y.machine.world.step d δ act) = .error f := by
      suffices h : Machine.onto rest (y.machine.world.device d >>= fun δ => y.machine.world.step d δ act) = .fault f from
        Machine.fault_of_onto h
      rw [Machine.step, top] at fault
      split at fault
      · rename_i none; cases none
      · rename_i single; cases single; exact absurd ⟨_, rfl⟩ answer
      · rename_i same; cases same; exact absurd ⟨_, rfl⟩ answer
      · rename_i same; cases same; exact absurd ⟨_, rfl⟩ deadline
      · rename_i same; cases same; exact fault
    cases found : y.machine.world.devices[d]? with
    | none =>
      cases begun : act.isCall with
      | false =>
        obtain ⟨δ, there⟩ := device ⟨d, act⟩ (by simp) begun
        cases found.symm.trans (World.device_eq_ok_iff.1 there)
      | true =>
        obtain ⟨self, op, rfl⟩ : ∃ self op, act = .perform self op := by cases act <;> first | exact ⟨_, _, rfl⟩ | cases begun
        rw [World.device, found] at works
        cases works
        exact .device top found
    | some δ =>
      rw [World.device_eq_ok_iff.2 found] at works
      cases begun : act.isCall with
      | false =>
        obtain ⟨move, done⟩ := step_succeeds r top found begun (fun a same => answer ⟨a, same⟩) fun ms same => deadline ⟨ms, same⟩
        cases done.symm.trans (show y.machine.world.step d δ act = .error f from works)
      | true =>
        obtain ⟨self, op, rfl⟩ : ∃ self op, act = .perform self op := by cases act <;> first | exact ⟨_, _, rfl⟩ | cases begun
        rcases World.perform_fault (steady r found).declared works with ⟨k, about, none, rfl⟩ | ⟨rfl, about, rfl⟩
        · exact .pool top about none
        · exact .self top about

/-- In every run, what is in progress goes on, unless an operation begins that is about something that is not there. -/
theorem next_of_not_strays (r : Run P (initial s) y) (busy : y.machine.stack ≠ []) (there : ∀ f, ¬y.machine.Strays f) :
    ∃ z, y.Next z := by
  suffices h : ∃ m', y.machine.Next m' by
    obtain ⟨m', next⟩ := h
    exact ⟨⟨m', fun d => (y.past d).next y.machine m' d⟩, next, fun d => rfl⟩
  cases step : y.machine.step with
  | next m' => exact ⟨m', .step step⟩
  | done a w => exact ⟨_, .finish step⟩
  | fault f => exact absurd (strays_of_fault r busy step) (there f)

/-- In every run, what is not the beginning of an operation goes on. -/
theorem next_of_top {act : Act} {rest : List Frame} (r : Run P (initial s) y) (top : y.machine.stack = ⟨d, act⟩ :: rest)
    (begun : act.isCall = false) : ∃ z, y.Next z := by
  refine next_of_not_strays r (by rw [top]; exact List.cons_ne_nil _ _) fun f strays => ?_
  cases strays with
  | device top' | pool top' | self top' => cases top.symm.trans top'; cases begun

/-- As long as all that is called is proper, a call goes on until there is nothing but its answer. -/
theorem goes_on (r : Run (fun z => z.machine.Proper s) (initial s) y) (busy : y.machine.stack ≠ []) :
    ∃ z, y.Next z := by
  have proper : y.machine.Proper s := r.last
  have there : ∀ k < s.pools.length, k < y.machine.world.pools.size := fun k bound => by
    obtain ⟨p, found⟩ := (furnishing r).2 k bound
    exact (Array.getElem?_eq_some_iff.1 found).1
  have finds : ∀ {d : Nat} {self : Option Nat} {op : Op} {rest : List Frame},
      y.machine.stack = ⟨d, .perform self op⟩ :: rest → op.Finds y.machine.world.pools self := fun top =>
    Op.finds_of_proper (proper.acts _ (by rw [top]; exact List.mem_cons_self)) there
  refine next_of_not_strays r busy fun f strays => ?_
  cases strays with
  | @device d self op rest top none =>
    obtain ⟨δ, found⟩ := device_of_lt r (proper.devices _ (by rw [top]; exact List.mem_cons_self))
    cases found.symm.trans none
  | pool top about none =>
    exact absurd ((finds top).pool _ about) (Nat.not_lt.2 (Array.getElem?_eq_none_iff.1 none))
  | self top about =>
    obtain ⟨i, meant⟩ := (finds top).task _ about
    cases meant

end Moment

end TimedTasks
