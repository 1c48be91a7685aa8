import TimedTasks.Proofs.Notes
import TimedTasks.Proofs.Progress

/-!
# Starts between a scan and its adoption

A scan reads the clock once and looks at the tasks one after the other; its result is adopted later, under the lock.
Interrupts that come in between may start any number of tasks, and one start may interrupt another. All that the cache
keeps of them is one remembered slot and one latecomer. `Scheduler.Arming` says why that is enough: for every waiting
task that the scan saw, and for every one that the cache was told of, there is a waiting slot with no more time left
among those from which the adoption chooses.
-/

namespace TimedTasks

/-- A piece of the start of a stopped task: its stamp, or the word to the cache. -/
inductive StartPiece
  | stamp (i : Nat)
  | note (i : Nat)
  deriving DecidableEq, Repr

namespace StartPiece

/-- Every task is stamped before the cache is told of it, and the cache is told of every task that was stamped. -/
def Paired (stamped : List Nat) : List StartPiece → Prop
  | [] => True
  | stamp i :: rest => note i ∈ rest ∧ Paired (i :: stamped) rest
  | note i :: rest => i ∈ stamped ∧ Paired stamped rest

instance decidablePaired : (stamped : List Nat) → (l : List StartPiece) → Decidable (Paired stamped l)
  | _, [] => .isTrue trivial
  | stamped, stamp i :: rest =>
    have := decidablePaired (i :: stamped) rest
    inferInstanceAs (Decidable (note i ∈ rest ∧ Paired (i :: stamped) rest))
  | stamped, note i :: rest =>
    have := decidablePaired stamped rest
    inferInstanceAs (Decidable (i ∈ stamped ∧ Paired stamped rest))

end StartPiece

/-! ## The soonest of the tasks that wait -/

namespace Arena

variable {a : Arena} {now : UInt32}

/-- A waiting slot with the least time left, if any slot waits. -/
def Soonest (a : Arena) (now : UInt32) : Option Nat → Prop
  | none => ∀ i, ¬a.Waits i
  | some b => a.Waits b ∧ ∀ i, a.Waits i → a.left now b ≤ a.left now i

theorem lt_size_of_configured {i : Nat} (h : (a.life i).state ≠ .uninit) : i < a.size := by
  obtain ⟨t, slot, -⟩ := slot_of_configured h
  obtain ⟨bound, -⟩ := Array.getElem?_eq_some_iff.1 (slot_eq_ok_iff.1 slot)
  exact bound

theorem idle_life (h : ∀ t ∈ a, t.state.inHandler = false) (i : Nat) : (a.life i).state.inHandler = false := by
  unfold life
  cases slot : a[i]? with
  | none => rfl
  | some t => exact h t (Array.mem_of_getElem? slot)

theorem Soonest.waits {best : Option Nat} (h : a.Soonest now best) {b : Nat} (is : best = some b) : a.Waits b := by
  subst is
  exact h.1

theorem Soonest.none_iff {best : Option Nat} (h : a.Soonest now best) : best = none ↔ ∀ i, ¬a.Waits i := by
  cases best with
  | none => exact iff_of_true rfl h
  | some b => exact iff_of_false (fun none => nomatch none) fun idle => idle b h.1

end Arena

namespace Scheduler

variable {σ τ τ' : Scheduler} {now : UInt32} {best : Option Nat} {stamped : List Nat} {rest : List StartPiece} {i : Nat}

/-- A scan of a queue that holds all waiting tasks finds the soonest of them. -/
theorem soonest_of_scan {roster : List Nat} (h : σ.scan now = .ok best) (queued : σ.queued = .ok roster)
    (all : ∀ i, σ.arena.Waits i → i ∈ roster) : σ.arena.Soonest now best := by
  obtain ⟨waits, least⟩ := scan_eq_ok h queued
  cases best with
  | none =>
    intro i wi
    obtain ⟨b, none, -⟩ := least i (all i wi) wi
    cases none
  | some b =>
    refine ⟨waits b rfl, fun i wi => ?_⟩
    obtain ⟨b', same, le⟩ := least i (all i wi) wi
    cases same
    exact le

/-! ## Pieces of starts -/

/-- One piece of a start at clock reading `now`. The start of a stopped task leads to `active`. -/
def arm (σ : Scheduler) (now : UInt32) : StartPiece → Except Fault Scheduler
  | .stamp i => σ.start i .active now
  | .note i => σ.noteArmed i now

/-- Pieces of starts, one after the other. -/
def armAll (σ : Scheduler) (now : UInt32) : List StartPiece → Except Fault Scheduler
  | [] => .ok σ
  | p :: rest => σ.arm now p >>= fun σ => σ.armAll now rest

/-- What holds of a scheduler `τ` that `σ`, of which `best` is the soonest slot at clock reading `now`, has become while
the slots of `stamped` were stamped and the pieces of `rest` are still to come. -/
structure Arming (σ : Scheduler) (now : UInt32) (best : Option Nat) (stamped : List Nat) (rest : List StartPiece)
    (τ : Scheduler) : Prop where
  size : τ.arena.size = σ.arena.size
  life : ∀ i, τ.life i = if i ∈ stamped then (σ.life i).start .active now else σ.life i
  soonest : ∀ i, τ.cache.soonest = some i → i < τ.arena.size
  latecomer : ∀ i, τ.cache.latecomer = some i → i < τ.arena.size
  covered : ∀ i, τ.arena.Waits i → .note i ∈ rest ∨
    ∃ k, τ.cache.Member best k ∧ τ.arena.Waits k ∧ τ.arena.left now k ≤ τ.arena.left now i

namespace Arming

/-- At first nothing is missing: no waiting slot has less time left than the result of the scan. -/
theorem init (chosen : σ.arena.Soonest now best) (soonest : ∀ i, σ.cache.soonest = some i → i < σ.arena.size)
    (latecomer : ∀ i, σ.cache.latecomer = some i → i < σ.arena.size) : Arming σ now best [] rest σ := by
  refine ⟨rfl, fun i => by simp, soonest, latecomer, fun i wi => .inr ?_⟩
  cases best with
  | none => exact absurd wi (chosen i)
  | some b => exact ⟨b, .inl rfl, chosen.1, chosen.2 i wi⟩

theorem waits_of_stamped (h : Arming σ now best stamped rest τ) (m : i ∈ stamped) : τ.arena.Waits i := by
  show (τ.life i).state = .active
  rw [h.life, if_pos m]
  rfl

theorem waits_of_waits (h : Arming σ now best stamped rest τ) (w : σ.arena.Waits i) : τ.arena.Waits i := by
  by_cases m : i ∈ stamped
  · exact h.waits_of_stamped m
  · show (τ.life i).state = .active
    rw [h.life, if_neg m]
    exact w

theorem waits_of_armed (h : Arming σ now best stamped rest τ) (idle : ∀ i, (σ.life i).state.inHandler = false)
    (armed : (τ.arena.life i).state.armed) : τ.arena.Waits i := by
  by_cases m : i ∈ stamped
  · exact h.waits_of_stamped m
  · refine Arena.waits_of_armed armed ?_
    have same : τ.arena.life i = σ.life i := (h.life i).trans (if_neg m)
    rw [same]
    exact idle i

/-- A stamp leaves what waited before as it was: the stamped slot was stopped, or bears the same stamp already. -/
theorem stamp_keeps {j : Nat} (h : Arming σ now best stamped rest τ) (stopped : (σ.life i).state = .stopped)
    (st : τ.start i .active now = .ok τ') (wj : τ.arena.Waits j) : τ'.arena.life j = τ.arena.life j := by
  have c := start_changes st
  show τ'.life j = τ.life j
  by_cases here : j = i
  · subst here
    have again : j ∈ stamped := by
      by_contra first
      have was : τ.arena.life j = σ.life j := (h.life j).trans (if_neg first)
      rw [Arena.Waits, was, stopped] at wj
      cases wj
    rw [c.life, Function.update_self, h.life, if_pos again]
    rfl
  · exact (congrFun c.life j).trans (Function.update_of_ne here ..)

/-- A stamp makes a slot wait of which the cache is still to be told. -/
theorem stamp (h : Arming σ now best stamped (.stamp i :: rest) τ) (stopped : (σ.life i).state = .stopped)
    (told : .note i ∈ rest) (st : τ.start i .active now = .ok τ') : Arming σ now best (i :: stamped) rest τ' := by
  have c := start_changes st
  refine ⟨c.size.trans h.size, fun j => ?_, fun j is => ?_, fun j is => ?_, fun j wj => ?_⟩
  · rw [c.life]
    by_cases here : j = i
    · subst here
      rw [Function.update_self, if_pos List.mem_cons_self, h.life]
      split <;> rfl
    · rw [Function.update_of_ne here, h.life]
      simp only [List.mem_cons, here, false_or]
  · rw [c.size]; exact h.soonest j (c.cache ▸ is)
  · rw [c.size]; exact h.latecomer j (c.cache ▸ is)
  · by_cases here : j = i
    · exact .inl (here ▸ told)
    · have same : τ'.arena.life j = τ.arena.life j := (congrFun c.life j).trans (Function.update_of_ne here ..)
      rw [Arena.Waits, same] at wj
      rcases h.covered j wj with later | ⟨k, mk, wk, le⟩
      · exact .inl ((List.mem_cons.1 later).resolve_left StartPiece.noConfusion)
      · refine .inr ⟨k, c.cache ▸ mk, ?_, ?_⟩
        · rw [Arena.Waits, h.stamp_keeps stopped st wk]
          exact wk
        · rw [Arena.left, Arena.left, h.stamp_keeps stopped st wk, same]
          exact le

/-- A word to the cache covers the slot that it is about, and gives up nothing without another slot that has no more time
left. -/
theorem note (h : Arming σ now best stamped (.note i :: rest) τ) (idle : ∀ i, (σ.life i).state.inHandler = false)
    (m : i ∈ stamped) (nt : τ.noteArmed i now = .ok τ') : Arming σ now best stamped rest τ' := by
  obtain ⟨hc, c⟩ := noteArmed_changes nt
  have noted := DueCache.noteArmed_eq_ok hc
  have same : ∀ j, τ'.arena.life j = τ.arena.life j := fun j => congrFun c.life j
  have present := h.waits_of_stamped m
  obtain ⟨told, kept⟩ := noted.covers best (fun armed => h.waits_of_armed idle armed) present
  have known : ∀ j, (τ'.cache.soonest = some j ∨ τ'.cache.latecomer = some j) → j < τ.arena.size := by
    intro j is
    rcases DueCache.noteArmed_known hc is with rfl | old
    · exact present.lt_size
    · exact old.elim (h.soonest j) (h.latecomer j)
  refine ⟨c.size.trans h.size, fun j => (congrFun c.life j).trans (h.life j), fun j is => ?_, fun j is => ?_,
    fun j wj => ?_⟩
  · rw [c.size]; exact known j (.inl is)
  · rw [c.size]; exact known j (.inr is)
  · simp only [Arena.Waits, Arena.left, same] at wj ⊢
    rcases h.covered j wj with later | ⟨k, mk, wk, le⟩
    · rcases List.mem_cons.1 later with here | later
      · cases here
        exact .inr told
      · exact .inl later
    · obtain ⟨k', mk', wk', le'⟩ := kept k mk wk
      exact .inr ⟨k', mk', wk', UInt32.le_trans le' le⟩

/-- Pieces of starts, one after the other. None of them fails. -/
theorem run {l : List StartPiece} (h : Arming σ now best stamped l τ) (idle : ∀ i, (σ.life i).state.inHandler = false)
    (stopped : ∀ i, .stamp i ∈ l → (σ.life i).state = .stopped) (paired : StartPiece.Paired stamped l) :
    ∃ τ' all, τ.armAll now l = .ok τ' ∧ Arming σ now best all [] τ' ∧ ∀ i, i ∈ all ↔ i ∈ stamped ∨ .stamp i ∈ l := by
  induction l generalizing stamped τ with
  | nil => exact ⟨τ, stamped, rfl, h, by simp⟩
  | cons p rest ih =>
    have later : ∀ i, .stamp i ∈ rest → (σ.life i).state = .stopped := fun i m => stopped i (List.mem_cons_of_mem _ m)
    cases p with
    | stamp i =>
      have here := stopped i List.mem_cons_self
      have bound : i < τ.arena.size := by
        rw [h.size]
        exact Arena.lt_size_of_configured fun uninit => TaskState.noConfusion (here.symm.trans uninit)
      obtain ⟨τ₁, st⟩ : Succeeds (τ.start i .active now) := alter_succeeds bound
      obtain ⟨τ', all, run, done, mem⟩ := ih (h.stamp here paired.1 st) later paired.2
      refine ⟨τ', all, bind_eq_ok.2 ⟨τ₁, st, run⟩, done, fun j => ?_⟩
      rw [mem j]
      simp only [List.mem_cons, StartPiece.stamp.injEq]
      tauto
    | note i =>
      have present := h.waits_of_stamped paired.1
      obtain ⟨cache, noted⟩ : Succeeds (τ.cache.noteArmed τ.arena i now) :=
        DueCache.noteArmed_succeeds present.lt_size h.soonest h.latecomer
      have nt : τ.noteArmed i now = .ok { τ with cache } := bind_eq_ok.2 ⟨cache, noted, rfl⟩
      obtain ⟨τ', all, run, done, mem⟩ := ih (h.note idle paired.1 nt) later paired.2
      exact ⟨τ', all, bind_eq_ok.2 ⟨_, nt, run⟩, done, fun j => by rw [mem j]; simp⟩

/-- The cache was told of all starts, so the least of what the adoption chooses from is the least of all. -/
theorem adopts (h : Arming σ now best stamped [] τ) (chosen : σ.arena.Soonest now best) :
    ∃ τ' left, τ.adopt best now = .ok (τ', left) ∧ τ'.arena = τ.arena ∧ τ'.arena.Soonest now τ'.cache.soonest ∧
      left = τ'.cache.soonest.map (τ'.arena.left now) ∧ τ'.cache.latecomer = none := by
  have waits : ∀ b, best = some b → τ.arena.Waits b := fun b is => h.waits_of_waits (chosen.waits is)
  obtain ⟨⟨cache, left⟩, adopted⟩ : Succeeds (τ.cache.adopt τ.arena best now) :=
    DueCache.adopt_succeeds (fun b is => (waits b is).lt_size) h.soonest h.latecomer
  obtain ⟨shape, least⟩ := DueCache.adopt_eq_ok adopted waits
  have covered : ∀ i, τ.arena.Waits i → ∃ k, cache.soonest = some k ∧ τ.arena.left now k ≤ τ.arena.left now i := by
    intro i wi
    obtain none | ⟨k, mk, wk, le⟩ := h.covered i wi
    · cases none
    · obtain ⟨k', is, le'⟩ := least k (mk.imp id fun known => ⟨known, wk⟩)
      exact ⟨k', is, UInt32.le_trans le' le⟩
  refine ⟨{ τ with cache }, left, bind_eq_ok.2 ⟨_, adopted, rfl⟩, rfl, ?_⟩
  obtain ⟨rfl, rfl⟩ | ⟨k, rfl, rfl, wk⟩ := shape
  · refine ⟨fun i wi => ?_, rfl, rfl⟩
    obtain ⟨k, none, -⟩ := covered i wi
    cases none
  · refine ⟨⟨wk, fun i wi => ?_⟩, rfl, rfl⟩
    obtain ⟨k', same, le⟩ := covered i wi
    cases same
    exact le

end Arming

/-- After a scan at one clock reading, with no handler in progress, any number of stopped tasks are started at the same
reading, their pieces in any order. Whatever the cache remembered, the adoption of the scan then leaves the soonest of all
waiting tasks in the cache, the old ones and the new ones, and no latecomer; it returns the time that this task has left,
and nothing just when no task waits. -/
theorem late_starts_adopted {l : List StartPiece} (idle : ∀ t ∈ σ.arena, t.state.inHandler = false)
    (chosen : σ.arena.Soonest now best) (soonest : ∀ i, σ.cache.soonest = some i → i < σ.arena.size)
    (latecomer : ∀ i, σ.cache.latecomer = some i → i < σ.arena.size)
    (stopped : ∀ i, .stamp i ∈ l → (σ.life i).state = .stopped) (paired : StartPiece.Paired [] l) :
    ∃ τ τ' left, σ.armAll now l = .ok τ ∧ τ.adopt best now = .ok (τ', left) ∧
      (∀ i, τ'.life i = if .stamp i ∈ l then (σ.life i).start .active now else σ.life i) ∧
      τ'.arena.Soonest now τ'.cache.soonest ∧ left = τ'.cache.soonest.map (τ'.arena.left now) ∧
      τ'.cache.latecomer = none ∧ (left = none ↔ ∀ i, ¬τ'.arena.Waits i) := by
  have first : Arming σ now best [] l σ := .init chosen soonest latecomer
  obtain ⟨τ, all, run, done, mem⟩ := first.run (Arena.idle_life idle) stopped paired
  obtain ⟨τ', left, adopted, arena, least, is, cleared⟩ := done.adopts chosen
  refine ⟨τ, τ', left, run, adopted, fun i => ?_, least, is, cleared, ?_⟩
  · have life : τ'.life i = τ.life i := congrArg (Arena.life · i) arena
    rw [life, done.life]
    simp only [mem i, List.not_mem_nil, false_or]
  · rw [is, Option.map_eq_none_iff]
    exact least.none_iff

/-- A task that waits and three that are stopped, two of which the cache remembers from before. -/
def lateStarter : Scheduler :=
  let slot (state : TaskState) (length : UInt32) (next : Option Nat) : Task :=
    { Task.fresh with state, timing := ⟨4294967200, length⟩, next, handler := some 0 }
  { arena := #[slot .active 500 (some 1), slot .stopped 300 (some 2), slot .stopped 50 (some 3), slot .stopped 10 none]
    declared := 4
    queue := ⟨some 0, some 3⟩
    cache := ⟨some 3, some 1⟩
    runState := .active
    inRound := true }

/-- A scan found task 0. Then a start of task 1 is interrupted by one of task 2, which is the soonest. -/
theorem late_starts_adopted_of_interrupt :
    lateStarter.scan 104 = .ok (some 0) ∧ ∃ τ τ', lateStarter.armAll 104 [.stamp 1, .stamp 2, .note 2, .note 1] = .ok τ ∧
      τ.adopt (some 0) 104 = .ok (τ', some 50) ∧ τ'.cache.soonest = some 2 ∧ τ'.cache.latecomer = none ∧
      τ'.arena.Soonest 104 (some 2) := by
  have scan : lateStarter.scan 104 = .ok (some 0) := by decide
  have queued : lateStarter.queued = .ok (List.range 4) := by decide
  have chosen : lateStarter.arena.Soonest 104 (some 0) :=
    soonest_of_scan scan queued fun _ waits => List.mem_range.2 waits.lt_size
  have stopped : ∀ i, .stamp i ∈ [StartPiece.stamp 1, .stamp 2, .note 2, .note 1] →
      (lateStarter.life i).state = .stopped := by
    intro i m
    simp only [List.mem_cons, StartPiece.stamp.injEq, reduceCtorEq, List.not_mem_nil, or_false] at m
    obtain rfl | rfl := m <;> rfl
  obtain ⟨τ, τ', left, run, adopted, -, least, -, cleared, -⟩ :=
    late_starts_adopted (by decide) chosen (by rintro _ ⟨⟩; decide) (by rintro _ ⟨⟩; decide) stopped (by decide)
  have result : (lateStarter.armAll 104 [.stamp 1, .stamp 2, .note 2, .note 1] >>= fun τ => τ.adopt (some 0) 104).map
      (fun r => (r.1.cache.soonest, r.2)) = .ok (some 2, some 50) := by decide
  rw [run, show (Except.ok τ >>= fun τ => τ.adopt (some 0) 104) = _ from adopted] at result
  obtain ⟨soonest, rfl⟩ := Prod.mk.inj (Except.ok.inj result)
  exact ⟨scan, τ, τ', run, adopted, soonest, cleared, soonest ▸ least⟩

end Scheduler

end TimedTasks
