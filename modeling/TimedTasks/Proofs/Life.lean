import Mathlib.Logic.Function.Basic
import TimedTasks.Scheduler.Lifecycle
import TimedTasks.Scheduler.Session
import TimedTasks.Scheduler.Slots

/-!
# The life of a slot

Most of what a scheduler guarantees depends on four parts of a slot only: its state, its interval, its mode and its
handler. They are the slot's `Life`; the rest is the link to the next slot, the bytes, and what belongs to pools. For
each piece of an operation the lemmas here say what it does to the lives of all slots, and that it leaves the links, the
queue and the flags of the scheduler alone (`Scheduler.SameFrame`). The few pieces that do change links are the ones of
`Proofs/Chain`.
-/

namespace TimedTasks

/-! ## Computations that succeed -/

/-- A chain of two computations succeeds when both do. -/
theorem bind_eq_ok {ε α β : Type} {x : Except ε α} {f : α → Except ε β} {b : β} :
    (x >>= f) = .ok b ↔ ∃ a, x = .ok a ∧ f a = .ok b := by
  cases x <;> simp [bind, Except.bind]

theorem map_eq_ok {ε α β : Type} {x : Except ε α} {f : α → β} {b : β} :
    (f <$> x) = .ok b ↔ ∃ a, x = .ok a ∧ f a = b := by
  cases x <;> simp [Functor.map, Except.map]

section Except

variable {ε α β α' β' : Type} {x : Except ε α} {f : α → α'} {g : α → Except ε β} {h : β → β'}

/-- What goes on from a changed result gives a changed result, when it does so from each result. -/
theorem bind_of_map {g' : α' → Except ε β'} (goOn : ∀ a, x = .ok a → g' (f a) = h <$> g a) :
    (f <$> x >>= g') = h <$> (x >>= g) := by
  cases x with
  | error e => rfl
  | ok a => exact goOn a rfl

/-- So does what goes on from the same result in two ways. -/
theorem bind_of_same {g' : α → Except ε β'} (goOn : ∀ a, x = .ok a → g' a = h <$> g a) :
    (x >>= g') = h <$> (x >>= g) := by
  cases x with
  | error e => rfl
  | ok a => exact goOn a rfl

end Except

/-! ## Lives -/

/-- The part of a slot that time and dispatch depend on. -/
structure Life where
  state : TaskState
  timing : Interval
  repeats : Bool
  handler : Option Nat
  deriving DecidableEq, Repr

namespace Life

/-- The life of a slot that is not configured. -/
def blank : Life := ⟨.uninit, ⟨0, 0⟩, false, none⟩

/-- The interval begins at clock reading `now`, and the state becomes `next`. -/
def start (ℓ : Life) (next : TaskState) (now : UInt32) : Life :=
  { ℓ with state := next, timing := { ℓ.timing with start := now } }

/-- The interval gets another length, clamped for the mode of the task. -/
def relength (ℓ : Life) (ms : UInt32) : Life :=
  { ℓ with timing := { ℓ.timing with length := Interval.clamp ms ℓ.repeats } }

/-- A new handler, interval and mode. The task is disarmed, and its last stamp stays. -/
def configure (ℓ : Life) (handler : Nat) (ms : UInt32) (repeats : Bool) : Life :=
  ⟨.stopped, ⟨ℓ.timing.start, Interval.clamp ms repeats⟩, repeats, some handler⟩

/-- Disarmed, or to be disarmed when the handler returns. -/
def stop (ℓ : Life) : Life :=
  match ℓ.state with
  | .active => { ℓ with state := .stopped }
  | .executing => { ℓ with state := .stopping }
  | _ => ℓ

/-- The end of a dispatch. -/
def settle (ℓ : Life) : Life :=
  match ℓ.state with
  | .executing => { ℓ with state := .active }
  | .stopping => { ℓ with state := .stopped }
  | _ => ℓ

end Life

namespace Task

def life (t : Task) : Life := ⟨t.state, t.timing, t.repeats, t.handler⟩

/-- To which pool a slot belongs is no part of its life. -/
@[simp] theorem life_giveBack (t : Task) : t.giveBack.life = t.life := by
  unfold giveBack; split <;> rfl

/-- A stop is the same stop of the life, whatever else it gives back. -/
@[simp] theorem life_stop (t : Task) : t.stop.life = t.life.stop := by
  rcases t with ⟨state, timing, repeats, pooled, allocated, next, handler, payload⟩
  cases state <;> cases pooled <;> rfl

/-- So is the end of a dispatch. -/
@[simp] theorem life_settle (t : Task) : t.settle.life = t.life.settle := by
  rcases t with ⟨state, timing, repeats, pooled, allocated, next, handler, payload⟩
  cases state <;> cases pooled <;> rfl

@[simp] theorem next_giveBack (t : Task) : t.giveBack.next = t.next := by
  unfold giveBack; split <;> rfl

@[simp] theorem next_stop (t : Task) : t.stop.next = t.next := by
  unfold stop; split <;> simp

@[simp] theorem next_settle (t : Task) : t.settle.next = t.next := by
  unfold settle; split <;> simp

end Task

namespace Arena

/-- The life of a slot; beyond the arena there is nothing but slots that are not configured. -/
def life (a : Arena) (i : Nat) : Life := (a[i]?.map Task.life).getD .blank

/-- The link of a slot. -/
def link (a : Arena) (i : Nat) : Option (Option Nat) := a[i]?.map (·.next)

theorem life_of_slot {a : Arena} {i : Nat} {t : Task} (h : a.slot i = .ok t) : a.life i = t.life := by
  simp [life, slot_eq_ok_iff.1 h]

/-- A change of one slot that changes its life in one way changes the lives there and nowhere else. -/
theorem life_alter {a b : Arena} {i : Nat} {f : Task → Task} (g : Life → Life) (h : a.alter i f = .ok b)
    (fg : ∀ t, (f t).life = g t.life) : b.life = Function.update a.life i (g (a.life i)) := by
  obtain ⟨bound, -⟩ := alter_eq_ok_iff.1 h
  funext j
  by_cases same : j = i
  · subst same
    simp [life, getElem?_alter h, bound, fg]
  · simp [life, getElem?_alter h, same, Ne.symm same]

/-- A change that no life shows leaves all of them. -/
theorem life_alter_of_same {a b : Arena} {i : Nat} {f : Task → Task} (h : a.alter i f = .ok b)
    (same : ∀ t, (f t).life = t.life) : b.life = a.life := by
  rw [life_alter id h same, id, Function.update_eq_self]

/-- A change that keeps the link of its slot keeps them all. -/
theorem link_alter {a b : Arena} {i : Nat} {f : Task → Task} (h : a.alter i f = .ok b)
    (same : ∀ t, (f t).next = t.next) : b.link = a.link := by
  funext j
  by_cases e : i = j
  · subst e; cases ht : a[i]? <;> simp [link, getElem?_alter h, ht, same]
  · simp [link, getElem?_alter h, e]

/-- The same for the slots of a list. -/
theorem life_alterAll_of_same {a b : Arena} {f : Task → Task} {l : List Nat} (h : a.alterAll f l = .ok b)
    (same : ∀ t, (f t).life = t.life) : b.life = a.life := by
  induction l generalizing a with
  | nil => cases h; rfl
  | cons i rest ih =>
    obtain ⟨c, hc, hb⟩ := bind_eq_ok.1 h
    rw [ih hb, life_alter_of_same hc same]

/-- Giving the slots of a list one life leaves all others as they are. -/
theorem life_alterAll_const {a b : Arena} {f : Task → Task} {l : List Nat} {ℓ : Life} (h : a.alterAll f l = .ok b)
    (const : ∀ t, (f t).life = ℓ) (j : Nat) : b.life j = if j ∈ l then ℓ else a.life j := by
  induction l generalizing a with
  | nil => cases h; simp
  | cons i rest ih =>
    obtain ⟨c, hc, hb⟩ := bind_eq_ok.1 h
    rw [ih hb, life_alter (fun _ => ℓ) hc const]
    by_cases e : j = i
    · subst e; simp
    · simp [e]

end Arena

namespace Scheduler

def life (σ : Scheduler) (i : Nat) : Life := σ.arena.life i

/-- Two states of a scheduler with the same queue, the same links and the same flags. -/
structure SameFrame (σ σ' : Scheduler) : Prop where
  queue : σ'.queue = σ.queue
  link : σ'.arena.link = σ.arena.link
  size : σ'.arena.size = σ.arena.size
  runState : σ'.runState = σ.runState
  inRound : σ'.inRound = σ.inRound

/-- What a piece of an operation that leaves the frame alone makes of the lives and the cache. -/
structure Changes (σ σ' : Scheduler) (life : Nat → Life) (cache : DueCache) : Prop extends SameFrame σ σ' where
  life : σ'.life = life
  cache : σ'.cache = cache

variable {σ σ' : Scheduler} {i : Nat}

theorem Changes.refl (σ : Scheduler) : Changes σ σ σ.life σ.cache := ⟨⟨rfl, rfl, rfl, rfl, rfl⟩, rfl, rfl⟩

/-- A change of one slot changes the arena of the scheduler and nothing else. -/
theorem alter_eq_ok {f : Task → Task} (h : σ.alter i f = .ok σ') :
    ∃ a, σ.arena.alter i f = .ok a ∧ σ' = { σ with arena := a } := by
  obtain ⟨a, ha, hσ⟩ := bind_eq_ok.1 h
  exact ⟨a, ha, (Except.ok.inj hσ).symm⟩

/-- What a change of one slot does to the lives; links, queue and flags stay. -/
theorem alter_changes {f : Task → Task} (g : Life → Life) (h : σ.alter i f = .ok σ')
    (life : ∀ t, (f t).life = g t.life) (next : ∀ t, (f t).next = t.next) :
    Changes σ σ' (Function.update σ.life i (g (σ.life i))) σ.cache := by
  obtain ⟨a, ha, rfl⟩ := alter_eq_ok h
  exact ⟨⟨rfl, Arena.link_alter ha next, Arena.size_alter ha, rfl, rfl⟩, Arena.life_alter g ha life, rfl⟩

/-- A change to what is not part of a life. -/
theorem alter_changes_none {f : Task → Task} (h : σ.alter i f = .ok σ') (life : ∀ t, (f t).life = t.life)
    (next : ∀ t, (f t).next = t.next) : Changes σ σ' σ.life σ.cache := by
  have c := alter_changes id h life next
  rwa [id, Function.update_eq_self] at c

/-- A start gives the slot its new stamp and its new state. -/
theorem start_changes {next : TaskState} {now : UInt32} (h : σ.start i next now = .ok σ') :
    Changes σ σ' (Function.update σ.life i ((σ.life i).start next now)) σ.cache :=
  alter_changes (·.start next now) h (fun _ => rfl) fun _ => rfl

/-- The end of a dispatch arms its slot again or disarms it. -/
theorem settle_changes (h : σ.alter i Task.settle = .ok σ') :
    Changes σ σ' (Function.update σ.life i (σ.life i).settle) σ.cache :=
  alter_changes Life.settle h Task.life_settle Task.next_settle

/-- The dispatch of a task that runs once. -/
theorem stopping_changes (h : (σ.alter i fun t => { t with state := .stopping }) = .ok σ') :
    Changes σ σ' (Function.update σ.life i { σ.life i with state := .stopping }) σ.cache :=
  alter_changes (fun ℓ => { ℓ with state := .stopping }) h (fun _ => rfl) fun _ => rfl

/-- Handing out a slot of a pool shows in no life. -/
theorem handOut_changes (h : σ.alter i Task.handOut = .ok σ') : Changes σ σ' σ.life σ.cache :=
  alter_changes_none h (fun _ => rfl) fun _ => rfl

/-- Only the slots that were handed out are found. -/
theorem lookup_eq_ok_some {t : Task} (h : σ.lookup i = .ok (some t)) : i < σ.declared ∧ σ.arena.slot i = .ok t := by
  unfold lookup at h
  split at h
  · rename_i declared
    obtain ⟨u, hu, e⟩ := map_eq_ok.1 h
    cases e
    exact ⟨declared, hu⟩
  · cases h

theorem declared_le_of_lookup (h : σ.lookup i = .ok none) : σ.declared ≤ i := by
  refine Nat.le_of_not_lt fun bound => ?_
  rw [lookup, if_pos bound] at h
  obtain ⟨t, -, none⟩ := map_eq_ok.1 h
  cases none

theorem life_of_lookup {t : Task} (h : σ.lookup i = .ok (some t)) : σ.life i = t.life :=
  Arena.life_of_slot (lookup_eq_ok_some h).2

/-- The state that a start leads to is settled by the state that the slot is in. -/
theorem startState_eq_ok {next : TaskState} (h : σ.startState i = .ok (.ok next)) :
    i < σ.declared ∧ (σ.life i).state.started = some next := by
  obtain ⟨found, hfound, h⟩ := bind_eq_ok.1 h
  cases found with
  | none => cases h
  | some t =>
    simp only at h
    cases hs : t.state.started with
    | none => simp [hs] at h
    | some s =>
      simp only [hs, Except.ok.injEq] at h
      exact ⟨(lookup_eq_ok_some hfound).1, by rw [life_of_lookup hfound, ← h]; exact hs⟩

theorem lt_declared_of_relength {ms : UInt32} (h : σ.relength i ms = .ok (.ok σ')) : i < σ.declared := by
  obtain ⟨found, hfound, h⟩ := bind_eq_ok.1 h
  cases found with
  | none => cases h
  | some t => exact (lookup_eq_ok_some hfound).1

/-- A new interval is given to configured slots only, with its length clamped for their mode. -/
theorem relength_changes {ms : UInt32} (h : σ.relength i ms = .ok (.ok σ')) :
    (σ.life i).state ≠ .uninit ∧ σ'.declared = σ.declared ∧
      Changes σ σ' (Function.update σ.life i ((σ.life i).relength ms)) σ.cache := by
  obtain ⟨found, hfound, h⟩ := bind_eq_ok.1 h
  cases found with
  | none => cases h
  | some t =>
    simp only at h
    split at h
    · cases h
    · rename_i configured
      obtain ⟨τ, hτ, h⟩ := bind_eq_ok.1 h
      cases h
      refine ⟨by rw [life_of_lookup hfound]; exact configured, ?_, alter_changes (·.relength ms) hτ (fun _ => rfl) fun _ => rfl⟩
      obtain ⟨a, -, rfl⟩ := alter_eq_ok hτ
      rfl

/-- A task that was given a new interval is configured, so a start is not refused. -/
theorem startState_of_relength {ms : UInt32} {e : Error} (h : σ.relength i ms = .ok (.ok σ')) :
    σ'.startState i ≠ .ok (.error e) := by
  obtain ⟨configured, declared, c⟩ := relength_changes h
  intro refused
  obtain ⟨found, hfound, refused⟩ := bind_eq_ok.1 refused
  cases found with
  | none =>
    unfold lookup at hfound
    split at hfound
    · obtain ⟨_, -, e⟩ := map_eq_ok.1 hfound
      cases e
    · rename_i undeclared
      exact undeclared (declared ▸ lt_declared_of_relength h)
  | some t =>
    have state : t.state = (σ.life i).state := by
      rw [show t.state = (σ'.life i).state by rw [life_of_lookup hfound]; rfl, c.life, Function.update_self]
      rfl
    simp only at refused
    cases hs : t.state with
    | uninit => exact configured (state ▸ hs)
    | _ => simp [hs, TaskState.started] at refused

/-- A stop that is not refused stops the life of its slot. -/
theorem stop_changes (h : σ.stop i = .ok (.ok σ')) :
    i < σ.declared ∧ Changes σ σ' (Function.update σ.life i (σ.life i).stop) σ.cache := by
  obtain ⟨found, hfound, h⟩ := bind_eq_ok.1 h
  cases found with
  | none => cases h
  | some t =>
    simp only at h
    split at h
    · cases h
    · obtain ⟨τ, hτ, h⟩ := bind_eq_ok.1 h
      cases h
      exact ⟨(lookup_eq_ok_some hfound).1, alter_changes Life.stop hτ Task.life_stop Task.next_stop⟩

/-- A word to the cache that a task was armed changes the cache only. -/
theorem noteArmed_changes {now : UInt32} (h : σ.noteArmed i now = .ok σ') :
    σ.cache.noteArmed σ.arena i now = .ok σ'.cache ∧ Changes σ σ' σ.life σ'.cache := by
  obtain ⟨cache, hc, h⟩ := bind_eq_ok.1 h
  cases h
  exact ⟨hc, ⟨rfl, rfl, rfl, rfl, rfl⟩, rfl, rfl⟩

/-- The result of a scan changes the cache only. -/
theorem adopt_changes {best : Option Nat} {now : UInt32} {left : Option UInt32}
    (h : σ.adopt best now = .ok (σ', left)) :
    σ.cache.adopt σ.arena best now = .ok (σ'.cache, left) ∧ Changes σ σ' σ.life σ'.cache := by
  obtain ⟨⟨cache, left⟩, hc, h⟩ := bind_eq_ok.1 h
  cases h
  exact ⟨hc, ⟨rfl, rfl, rfl, rfl, rfl⟩, rfl, rfl⟩

theorem forget_changes (σ : Scheduler) (i : Nat) : Changes σ (σ.forget i) σ.life (σ.cache.forget i) :=
  ⟨⟨rfl, rfl, rfl, rfl, rfl⟩, rfl, rfl⟩

/-- Bytes that are attached show in no life. -/
theorem attach_changes {ps ps' : Pools} {data : List UInt8} (h : σ.attach ps i data = .ok (.ok (σ', ps'))) :
    Changes σ σ' σ.life σ.cache := by
  obtain ⟨t, -, h⟩ := bind_eq_ok.1 h
  split at h
  · split at h
    · obtain ⟨τ, hτ, h⟩ := bind_eq_ok.1 h
      cases h
      exact alter_changes_none hτ (fun _ => rfl) fun _ => rfl
    · obtain ⟨kept, -, h⟩ := bind_eq_ok.1 h
      obtain ⟨τ, hτ, h⟩ := bind_eq_ok.1 h
      cases h
      exact alter_changes_none hτ (fun _ => rfl) fun _ => rfl
  · cases h

/-- Nor do bytes that are written. -/
theorem write_changes {ps ps' : Pools} {data : List UInt8} {kept : Nat}
    (h : σ.write ps i data = .ok (.ok (kept, σ', ps'))) : Changes σ σ' σ.life σ.cache := by
  obtain ⟨t, -, h⟩ := bind_eq_ok.1 h
  split at h
  · split at h
    · cases h
    · obtain ⟨_, -, h⟩ := bind_eq_ok.1 h
      obtain ⟨τ, hτ, h⟩ := bind_eq_ok.1 h
      cases h
      exact alter_changes_none hτ (fun _ => rfl) fun _ => rfl
  · cases h

/-- Slots that are handed out keep their lives. -/
theorem takeSlots_changes {count first : Nat} (h : σ.takeSlots count = some (first, σ')) :
    Changes σ σ' σ.life σ.cache := by
  unfold takeSlots at h
  split at h
  · cases h
    exact ⟨⟨rfl, rfl, rfl, rfl, rfl⟩, rfl, rfl⟩
  · cases h

/-- Making slots the slots of a pool changes neither their lives nor their links. -/
theorem enrollSlots_same {a b : Arena} {pool slotSize first count : Nat}
    (h : enrollSlots a pool slotSize first count = .ok b) :
    b.life = a.life ∧ b.link = a.link ∧ b.size = a.size := by
  induction count generalizing b with
  | zero => cases h; exact ⟨rfl, rfl, rfl⟩
  | succ count ih =>
    obtain ⟨c, hc, hb⟩ := bind_eq_ok.1 h
    obtain ⟨life, link, size⟩ := ih hc
    exact ⟨(Arena.life_alter_of_same hb fun _ => rfl).trans life, (Arena.link_alter hb fun _ => rfl).trans link,
      (Arena.size_alter hb).trans size⟩

/-- Binding a pool shows in no life. -/
theorem enrollPool_changes {ps ps' : Pools} {k first : Nat} (h : σ.enrollPool ps k = .ok (some (first, σ', ps'))) :
    Changes σ σ' σ.life σ.cache := by
  obtain ⟨p, -, h⟩ := bind_eq_ok.1 h
  split at h
  · cases h
    exact ⟨⟨rfl, rfl, rfl, rfl, rfl⟩, rfl, rfl⟩
  · split at h
    · cases h
    · rename_i taken
      obtain ⟨a, ha, h⟩ := bind_eq_ok.1 h
      cases h
      have c := takeSlots_changes taken
      obtain ⟨life, link, size⟩ := enrollSlots_same ha
      exact ⟨⟨c.queue, link.trans c.link, size.trans c.size, c.runState, c.inRound⟩, life.trans c.life, c.cache⟩

end Scheduler

end TimedTasks
