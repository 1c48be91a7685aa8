import TimedTasks.Proofs.Exclusion
import TimedTasks.Proofs.Home
import TimedTasks.Proofs.Stop

/-!
# A slot that is in use is not handed out

A slot of a pool is marked when it is handed out, and loses the mark when it goes back. It goes back at four places, none
of which a client calls for: at a stop, at the end of a dispatch, and at the two ends of a session. In between, starts
and configurations move the state of the task and never look at the mark.

Where no interrupt comes, and clients start a slot of a pool only while it is handed out, the mark is there whenever the
task waits, runs or is being stopped (`View.Custody`). So nobody is given a slot whose task is still in use, whatever
handlers do to their own tasks and to others (`Moment.live_slots_allocated`).
-/

namespace TimedTasks

/-! ## Runs without interrupts -/

/-- What is left of interrupts that call nothing. -/
def Act.inert : Act → Bool
  | interrupts .. => true
  | block _ ops => ops.isEmpty
  | _ => false

theorem tame_none : Tame (fun _ => false) Act.inert where
  perform _ _ := rfl
  block _ ops := by cases ops <;> rfl
  interrupts _ _ := rfl
  handsOn _ _ := rfl
  leads := by
    intro w δ act s l ok no
    cases l with
    | blockEnd => simp
    | interruptsEnd | interruptsNext => cases no
    | _ => cases ok
  round act h := by
    rcases h with rfl | loops
    · rfl
    · cases act <;> first | rfl | cases loops

theorem Confined.of_none {allowed : Op → Bool} {stack : List Frame} (h : Confined (fun _ => false) stack) :
    Confined allowed stack := by
  intro f hf body hb
  have none := h f hf body hb
  cases body with
  | nil => rfl
  | cons op ops => cases none

/-- Interrupts that call nothing change no slot. -/
theorem Becomes.eq_of_inert {ps : Pools} {σ : Scheduler} {now : UInt32} {i : Nat} {act : Act} {t t' : Task}
    (b : Becomes ps σ now i act t t') (h : act.inert) : t' = t := by
  cases b <;> first | rfl | cases h

theorem Act.resumes_of_stamps {a : Act} {i : Nat} (h : a.stamps = some i) : a.resumes := by
  cases a with
  | reading r => rfl
  | _ => cases h

/-! ## The mark -/

/-- A slot of a pool whose task is in use is handed out. -/
def Task.Kept (t : Task) : Prop := t.pooled → t.state.counts → t.allocated

/-- The slots of pools whose tasks are in use are handed out, and so are those that are about to be armed. -/
structure View.Custody (v : View) : Prop where
  kept : ∀ (i : Nat) (t : Task), v.scheduler.arena[i]? = some t → t.Kept
  stamps : ∀ a ∈ v.acts, ∀ (i : Nat) (t : Task), a.stamps = some i → v.scheduler.arena[i]? = some t → t.pooled → t.allocated

/-- What is promised of a device and its clients: no interrupt calls anything, and a slot of a pool is started only
while it is handed out. -/
structure View.Attended (v : View) : Prop where
  orderly : v.Orderly
  inert : Guarded Act.inert v.acts
  declared : ∀ i, (v.scheduler.life i).state ≠ .uninit → i < v.scheduler.declared
  restarts : ∀ (i : Nat) (t : Task), v.Restarts i → v.scheduler.arena[i]? = some t → t.pooled → t.allocated

namespace Task.Kept

variable {t : Task}

theorem stop (h : t.Kept) : t.stop.Kept := by
  rcases t with ⟨state, timing, repeats, pooled, allocated, next, handler, payload⟩
  cases state <;> cases pooled <;> simp_all [Kept, Task.stop, TaskState.counts, giveBack]

theorem settle (h : t.Kept) : t.settle.Kept := by
  rcases t with ⟨state, timing, repeats, pooled, allocated, next, handler, payload⟩
  cases state <;> cases pooled <;> simp_all [Kept, Task.settle, TaskState.counts, giveBack]

/-- After either end of a session, no task of the queue is in use any more. -/
theorem retire (queued declared : Bool) (all : t.state ≠ .uninit → queued = true) : (t.retire queued declared).Kept := by
  have idle : (t.retire queued declared).state = .uninit := by
    cases queued with
    | true => cases declared <;> simp [Task.retire, unconfigure, fresh]
    | false => cases declared <;> simpa [Task.retire] using all
  intro _ counts
  rw [idle] at counts
  cases counts

end Task.Kept

namespace View.Custody

variable {v v' : View}

theorem fresh (h : v.Fresh) : v.Custody := by
  obtain ⟨capacity, fresh⟩ := h.scheduler
  constructor
  · intro i t found
    rw [fresh] at found
    simp only [Scheduler.fresh, Arena.fresh, Array.getElem?_replicate] at found
    split at found <;> cases found
    intro pooled
    cases pooled
  · rw [h.acts]
    simp

theorem shift (h : v.Custody) (t : Shift v v') : v'.Custody := by
  cases t with
  | drops acts _ => exact ⟨h.kept, fun a m => h.stamps a (acts ▸ List.mem_cons_of_mem _ m)⟩
  | arrives self op =>
    refine ⟨h.kept, fun a m i t st => ?_⟩
    rcases List.mem_cons.1 m with rfl | m
    · cases st
    · exact h.stamps a m i t st

end View.Custody

/-- What the step of an act makes of a slot keeps the mark in step with the state. -/
theorem Becomes.kept {ps : Pools} {v : View} {now : UInt32} {i : Nat} {act : Act} {t t' : Task} {rest : List Act}
    (b : Becomes ps v.scheduler now i act t t') (h : v.Custody) (q : v.Attended) (acts : v.acts = act :: rest)
    (found : v.scheduler.arena[i]? = some t) : t'.Kept := by
  have kept : t.Kept := h.kept i t found
  have life : v.scheduler.life i = t.life := Arena.life_of_slot (Arena.slot_eq_ok_iff.2 found)
  have here : act ∈ v.acts := acts ▸ List.mem_cons_self
  have queued : ∀ l, v.scheduler.queued = .ok l → t.state ≠ .uninit → decide (i ∈ l) = true := by
    intro l hl configured
    obtain ⟨l', holds, mem⟩ := q.orderly.linked.queue
    cases (Queue.members_of_holds holds).symm.trans hl
    exact decide_eq_true ((mem i).2 (by rw [life]; exact configured))
  cases b with
  | same | link => exact kept
  | relength => exact kept
  | stop => exact kept.stop
  | settle => exact kept.settle
  | stamp => exact fun pooled _ => h.stamps _ here i t rfl found pooled
  | renew => exact fun pooled _ => h.stamps _ here i t rfl found pooled
  | dispatch active => exact fun pooled _ => kept pooled (by rw [active]; rfl)
  | configure => exact fun _ counts => nomatch counts
  | attach | copy => exact kept
  | handOut => exact fun _ _ => rfl
  | enroll _ _ undeclared =>
    intro _ counts
    have idle : t.state = .uninit := by
      by_contra configured
      have declared := q.declared i (by rw [life]; exact configured)
      omega
    rw [show (t.enroll _).state = t.state from rfl, idle] at counts
    cases counts
  | begin hl => exact Task.Kept.retire _ _ (queued _ hl)
  | finish hl => exact Task.Kept.retire _ _ (queued _ hl)

/-- The clock is read for a task that is handed out, if it belongs to a pool. -/
theorem Leads.stamps_allocated {w : World} {v : View} {act : Act} {s : Stride} {rest : List Act}
    (l : Leads w v.device act s) (h : v.Custody) (q : v.Attended) (acts : v.acts = act :: rest) :
    ∀ a ∈ s.frames, ∀ (i : Nat) (t : Task), a.stamps = some i → s.scheduler.arena[i]? = some t → t.pooled →
      t.allocated := by
  have restarts : ∀ {i : Nat}, act.restarts i → v.Restarts i := fun r => ⟨act, by simp [acts], r⟩
  cases l with
  | @start self task i next ref =>
    intro a m j t st found pooled
    simp only [Stride.frames, List.mem_cons, List.not_mem_nil, or_false] at m
    rcases m with rfl | rfl
    · cases st
    · cases st
      exact q.restarts i t (restarts (decide_eq_true ref)) found pooled
  | @update self task ms i next σ ref re =>
    intro a m j t st found pooled
    simp only [Stride.frames, List.mem_cons, List.not_mem_nil, or_false] at m
    rcases m with rfl | rfl
    · cases st
    · cases st
      obtain ⟨-, ⟨u, hu, -⟩, altered⟩ := Scheduler.relength_alters re
      obtain ⟨a, ha, rfl⟩ := Scheduler.alter_eq_ok altered
      rw [Arena.getElem?_alter ha, if_pos rfl, hu] at found
      cases found
      exact q.restarts i u (restarts (decide_eq_true ref)) hu pooled
  | @renewing i u slot active =>
    intro a m j t st found pooled
    simp only [Stride.frames, List.mem_cons, List.not_mem_nil, or_false] at m
    rcases m with rfl | rfl
    · cases st
    · cases st
      cases (Arena.slot_eq_ok_iff.1 slot).symm.trans found
      exact h.kept i u found pooled (by rw [active]; rfl)
  | ask ask => cases ask <;> simp [Stride.frames, Act.stamps]
  | asked _ r | lengthAsked r => simp [Stride.frames, Act.stamps_of_asks r]
  | _ => simp [Stride.frames, Act.stamps]

theorem View.Custody.turn {v v' : View} (h : v.Custody) (q : v.Attended) (t : View.Turn v v') : v'.Custody := by
  cases t with
  | @works w act s _ rest acts l =>
    have before : ∀ {i : Nat} {t : Task}, s.scheduler.arena[i]? = some t → ∃ u, v.scheduler.arena[i]? = some u ∧
        Becomes w.pools v.scheduler v.clock i act u t := by
      intro i t found
      have slot := l.slots i
      rw [found] at slot
      generalize old : v.device.scheduler.arena[i]? = o at slot
      cases slot with
      | some b => exact ⟨_, old, b⟩
    refine ⟨fun i t found => ?_, fun a m i t st found pooled => ?_⟩
    · rw [take, scheduler, Stride.scheduler_device] at found
      obtain ⟨u, hu, b⟩ := before found
      exact b.kept h q acts hu
    · rw [take, scheduler, Stride.scheduler_device] at found
      rcases List.mem_append.1 m with new | old
      · exact l.stamps_allocated h q acts a new i t st found pooled
      · -- A task that is about to be stamped is buried under interrupts only.
        have inert : act.inert := by
          by_contra works
          have works : act.inert = false := by simpa using works
          have col : Column (act :: rest) := acts ▸ q.orderly.sound.column
          have none := col.unresumed tame_none (acts ▸ q.inert) works a old
          rw [Act.resumes_of_stamps st] at none
          cases none
        obtain ⟨u, hu, b⟩ := before found
        cases b.eq_of_inert inert
        exact h.stamps a (acts ▸ List.mem_cons_of_mem _ old) i t st hu pooled
  | @delivers ms act s _ rest acts l =>
    have same : s.scheduler.arena = v.scheduler.arena := by cases l <;> rfl
    have new : ∀ a ∈ s.frames, a.stamps = none := by cases l <;> simp [Stride.frames, Act.stamps]
    refine ⟨fun i t found => ?_, fun a m i t st found => ?_⟩
    · rw [take, scheduler, Stride.scheduler_device, same] at found
      exact h.kept i t found
    · rw [take, scheduler, Stride.scheduler_device, same] at found
      rcases List.mem_append.1 m with m | m
      · rw [new a m] at st; cases st
      · exact h.stamps a (acts ▸ List.mem_cons_of_mem _ (List.mem_cons_of_mem _ m)) i t st found

namespace View

/-- A start or an update is called on a slot of a pool only while it is handed out. -/
def Mindful (v : View) : Prop :=
  ∀ i < v.scheduler.arena.size, v.Restarts i → ∀ t ∈ v.scheduler.arena[i]?, t.pooled → t.allocated

instance (v : View) : Decidable v.Mindful :=
  inferInstanceAs (Decidable (∀ i < v.scheduler.arena.size, v.Restarts i → ∀ t ∈ v.scheduler.arena[i]?,
    t.pooled → t.allocated))

/-- Task `i` is not armed, and its handler is not in progress. -/
structure Unused (v : View) (i : Nat) : Prop where
  state : (v.scheduler.life i).state = .uninit ∨ (v.scheduler.life i).state = .stopped
  handling : ∀ k p, .handling i k p ∉ v.acts

theorem Sound.unused {v : View} (h : v.Sound) {i : Nat} (idle : (v.scheduler.life i).state.counts = false) :
    v.Unused i := by
  refine ⟨?_, fun k p m => ?_⟩
  · cases state : (v.scheduler.life i).state <;> rw [state] at idle <;> first | cases idle; done | simp
  · have busy := (h.handling i).2 (h.column.settle_of_handling m)
    cases state : (v.scheduler.life i).state <;> rw [state] at idle busy <;> first | cases idle; done | cases busy

end View

namespace Moment

variable {P : Moment → Prop} {s : Setup} {x y : Moment} {d : Nat} {v : View}

/-- Only tasks that were handed out are configured. -/
theorem lt_declared_of_configured (r : Run P (initial s) y) (calm : ∀ z, P z → Confined Op.calm z.machine.stack)
    (h : y.view d = some v) {i : Nat} (configured : (v.scheduler.life i).state ≠ .uninit) :
    i < v.scheduler.declared := by
  obtain ⟨roster, t⟩ := r.traced (recording d View.enlist) []
  have rostered := (enrolled t h).rostered
  obtain ⟨l, holds, mem⟩ := (orderly r calm h).linked.queue
  cases (Queue.members_of_holds holds).symm.trans rostered.queued
  exact (rostered.members i ((mem i).2 configured)).1

/-- Where interrupts call nothing and clients mind what they start, the mark of every slot is in step with its state. -/
theorem custody (r : Run P (initial s) y) (free : ∀ z, P z → Confined (fun _ => false) z.machine.stack)
    (mindful : ∀ z v, P z → z.view d = some v → v.Mindful) (h : y.view d = some v) : v.Custody := by
  have attended : ∀ z, Run P (initial s) z → ∀ v, z.view d = some v → v.Attended := by
    intro z r v hv
    have calm : ∀ z, P z → Confined Op.calm z.machine.stack := fun z p => (free z p).of_none
    refine ⟨orderly r calm hv, guarded r tame_none free hv, fun i => lt_declared_of_configured r calm hv, ?_⟩
    intro i t restarts found
    obtain ⟨bound, -⟩ := Array.getElem?_eq_some_iff.1 found
    exact mindful z v r.last hv i bound restarts t found
  exact view_of_run (r.also attended) (fun z v p hv => p.2 v hv) (fun _ => View.Custody.fresh)
    (fun _ _ h q t _ => h.turn q t) (fun _ _ h t => h.shift t) h

/-- What a call for a free slot of a pool has come to. -/
def Seeking (d k : Nat) (self : Option Nat) (z : Moment) (g : Frame) : Prop :=
  g.device = d ∧ (g.act = .perform self (.alloc k) ∨ g.act = .locked (.enroll k) ∨ (∃ i left, g.act = .claiming i left) ∨
    (∃ i left, g.act = .locked (.claim i left)) ∨
    ∃ a, g.act = .answered a ∧ ∀ i, a = .slot (some ⟨i⟩) → ∀ v, z.view d = some v → v.Unused i)

/-- What the lowest frame of such a call comes to by its own steps. -/
theorem Seeking.own {k : Nat} {self : Option Nat} {z z' : Moment} {g g' : Frame} {above' below : List Frame}
    (h : Seeking d k self z g) (next : z.Next z') (stack : z.machine.stack = g :: below)
    (stack' : z'.machine.stack = above' ++ g' :: below)
    (unused : ∀ i t, (∃ δ, z.machine.world.devices[d]? = some δ ∧ δ.scheduler.arena[i]? = some t) →
      (∃ left, g.act = .locked (.claim i left)) → t.allocated = false →
      ∀ v, z'.view d = some v → v.Unused i) : Seeking d k self z' g' := by
  rcases g with ⟨e, act⟩
  obtain ⟨rfl, which⟩ := h
  have lowest : ∀ {frames : List Frame}, z'.machine.stack = frames ++ below → frames.getLast? = some g' :=
    fun e => getLast?_eq_of_append (e.symm.trans stack')
  by_cases answers : ∃ a, act = .answered a
  · obtain ⟨a, rfl⟩ := answers
    exact absurd ⟨above', g', stack'⟩ (next.not_within stack)
  · obtain ⟨δ, move, found, moved, after⟩ := next.machine.moves stack (fun a e => answers ⟨a, e⟩)
      (by rintro ms rfl; rcases which with h | h | ⟨_, _, h⟩ | ⟨_, _, h⟩ | ⟨_, h, -⟩ <;> cases h)
    have lowest := lowest (congrArg Machine.stack after)
    rcases which with rfl | rfl | ⟨i, left, rfl⟩ | ⟨i, left, rfl⟩ | ⟨a, rfl, -⟩
    · obtain ⟨p, -, moved⟩ := bind_eq_ok.1 moved
      split at moved
      · cases moved
        cases lowest
        exact ⟨rfl, .inr (.inr (.inl ⟨_, _, rfl⟩))⟩
      · cases moved
        cases lowest
        exact ⟨rfl, .inr (.inl rfl)⟩
    · obtain ⟨p, -, moved⟩ := bind_eq_ok.1 moved
      obtain ⟨r, -, moved⟩ := bind_eq_ok.1 moved
      rcases r with _ | ⟨first, σ, ps⟩
      · cases moved
        cases lowest
        exact ⟨rfl, .inr (.inr (.inr (.inr ⟨_, rfl, fun i h => by cases h⟩)))⟩
      · cases moved
        cases lowest
        exact ⟨rfl, .inr (.inr (.inl ⟨_, _, rfl⟩))⟩
    · cases moved
      cases left with
      | zero =>
        cases lowest
        exact ⟨rfl, .inr (.inr (.inr (.inr ⟨_, rfl, fun i h => by cases h⟩)))⟩
      | succ left =>
        rw [World.claiming] at lowest
        split at lowest
        · cases lowest
          exact ⟨rfl, .inr (.inr (.inr (.inr ⟨_, rfl, fun i h => by cases h⟩)))⟩
        · split at lowest
          · cases lowest
            exact ⟨rfl, .inr (.inr (.inl ⟨_, _, rfl⟩))⟩
          · cases lowest
            exact ⟨rfl, .inr (.inr (.inr (.inl ⟨_, _, rfl⟩)))⟩
    · obtain ⟨t, slot, ⟨-, rfl⟩ | ⟨free, σ, ps, -, -, rfl⟩⟩ := World.claim_eq_ok moved
      · cases lowest
        exact ⟨rfl, .inr (.inr (.inl ⟨_, _, rfl⟩))⟩
      · cases lowest
        refine ⟨rfl, .inr (.inr (.inr (.inr ⟨_, rfl, fun j same => ?_⟩)))⟩
        cases same
        exact unused i t ⟨δ, found, Arena.slot_eq_ok_iff.1 slot⟩ ⟨left, rfl⟩ free
    · exact absurd ⟨a, rfl⟩ answers

/-- What happens above the lowest frame of such a call leaves it as it is. -/
theorem Seeking.above {k : Nat} {self : Option Nat} {z z' : Moment} {g a : Frame} {above below : List Frame}
    (h : Seeking d k self z g) (stacked : Stacked z.machine.stack) (stack : z.machine.stack = a :: above ++ g :: below) :
    Seeking d k self z' g := by
  rcases g with ⟨e, act⟩
  obtain ⟨rfl, which⟩ := h
  refine ⟨rfl, ?_⟩
  rcases which with h | h | h | h | ⟨x, rfl, -⟩
  · exact .inl h
  · exact .inr (.inl h)
  · exact .inr (.inr (.inl h))
  · exact .inr (.inr (.inr (.inl h)))
  · rw [stack] at stacked
    exact stacked.bare.elim

theorem Seeking.calls {k : Nat} {self : Option Nat} {z : Moment} {g : Frame} (h : Seeking d k self z g) :
    g.act.calls ∧ g.act.loops = false := by
  obtain ⟨-, h | h | ⟨_, _, h⟩ | ⟨_, _, h⟩ | ⟨_, h, -⟩⟩ := h <;> rw [h] <;> exact ⟨rfl, rfl⟩

/-- The slot that a call for a free slot answers with is not in use. -/
theorem unused_of_alloc {self : Option Nat} {k i : Nat} {below : List Frame}
    (top : x.machine.stack = ⟨d, .perform self (.alloc k)⟩ :: below)
    (r : Run (fun z => z.Within below ∧ Stacked z.machine.stack ∧ z.machine.Claims ∧
      ∀ v, z.view d = some v → v.Custody ∧ v.Sound) x y)
    (answered : y.machine.stack = ⟨d, .answered (.slot (some ⟨i⟩))⟩ :: below) (h : y.view d = some v) : v.Unused i := by
  suffices come : ∃ above g, y.machine.stack = above ++ g :: below ∧ Seeking d k self y g by
    obtain ⟨above, g, stack, seeking⟩ := come
    have lowest : [_].getLast? = some g := getLast?_eq_of_append (answered.symm.trans stack)
    cases lowest
    obtain ⟨-, h' | h' | ⟨_, _, h'⟩ | ⟨_, _, h'⟩ | ⟨a, h', unused⟩⟩ := seeking <;> cases h'
    exact unused i rfl v h
  refine Run.bottom (I := Seeking d k self) r top ⟨rfl, .inl rfl⟩ (fun z p => p.1)
    (fun z g h => Act.takesAnswer_of_calls h.calls.1)
    (fun z z' g a above above' h p _ _ stack _ => h.above p.2.1 stack)
    (fun z z' g g' above' h p next p' stack stack' => h.own next stack stack' ?_)
    (fun z z' g g' e ms above' h p next _ stack stack' => ?_)
  · -- The slot belongs to a pool and was not handed out, so its task is not in use; handing it out leaves that alone.
    rintro j t ⟨δ, found, slot⟩ ⟨left, act⟩ free v' hv'
    obtain ⟨v, hv, later⟩ := next.view_later p.2.1 hv'
    obtain ⟨found', acts, -⟩ := view_eq_some hv
    cases found.symm.trans found'
    obtain ⟨custody, sound⟩ := p.2.2.2 v hv
    have pooled : t.pooled := by
      obtain ⟨δ', t', hδ', ht', pooled⟩ := p.2.2.1 g (by simp [stack]) j (left + 1) (by rw [act]; rfl) j (by omega) (by omega)
      rw [h.1, found] at hδ'
      cases hδ'
      cases slot.symm.trans ht'
      exact pooled
    have idle : t.state.counts = false := by
      by_contra counts
      have allocated := custody.kept j t slot pooled (by simpa using counts)
      rw [free] at allocated
      cases allocated
    have life : v.scheduler.life j = t.life := Arena.life_of_slot (Arena.slot_eq_ok_iff.2 slot)
    rcases g with ⟨e, act'⟩
    obtain ⟨rfl, -⟩ := h
    cases act
    rw [stack, pending_same] at acts
    obtain ⟨w, s, l, rfl⟩ := next.leads p.2.1 hv hv' acts rfl
    refine (p'.2.2.2 _ hv').2.unused ?_
    have same : s.scheduler.life = v.scheduler.life := by
      cases l with
      | claimed c => exact (Scheduler.handOut_changes c).life
      | claimedMeanwhile => rfl
      | refused r => cases r
    rw [View.take, View.scheduler, Stride.scheduler_device, same, life]
    exact idle
  · have sits : Act.Sits (.deadline ms) g.act := by
      have stacked := p.2.1
      rw [stack] at stacked
      exact stacked.1.1
    obtain ⟨calls, loops⟩ := h.calls
    rcases sits with round | loop
    · rw [round] at calls
      cases calls
    · rw [loop] at loops
      cases loops

/-- Where no interrupt calls anything, pools are used on the device where their slots lie, and clients start a slot of
a pool only while it is handed out: every slot of a pool whose task waits, runs or is being stopped is handed out. So no
call for a free slot, wherever it is made, answers with a slot whose task is armed or whose handler is in progress. -/
theorem live_slots_allocated (r : Run P (initial s) y)
    (free : ∀ z, P z → Confined (fun _ => false) z.machine.stack) (home : ∀ z, P z → z.machine.AtHome)
    (mindful : ∀ z v, P z → z.view d = some v → v.Mindful) (h : y.view d = some v) :
    (∀ (i : Nat) (t : Task), v.scheduler.arena[i]? = some t → t.pooled →
      t.state = .active ∨ t.state = .executing ∨ t.state = .stopping → t.allocated) ∧
    ∀ x self k below i, Run P (initial s) x → x.machine.stack = ⟨d, .perform self (.alloc k)⟩ :: below →
      Run (fun z => P z ∧ z.Within below) x y →
      y.machine.stack = ⟨d, .answered (.slot (some ⟨i⟩))⟩ :: below → v.Unused i := by
  constructor
  · intro i t found pooled inUse
    refine (custody r free mindful h).kept i t found pooled ?_
    rcases inUse with e | e | e <;> rw [e] <;> rfl
  · intro x self k below i r₀ top r' answered
    refine unused_of_alloc top ((r'.also fun z rz => ?_).mono fun z p => ⟨p.1.2, p.2⟩) answered h
    have whole : Run P (initial s) z := r₀.trans (rz.mono fun _ p => p.1)
    exact ⟨stacked_of_run whole, claims_pooled whole home, fun u hu => ⟨custody whole free mindful hu, sound whole hu⟩⟩

/-- A scheduler with two slots, a pool of both, and a handler that stops its task, starts it again and asks for a free
slot. -/
def selfish : Setup := ⟨[⟨2, 0, [], []⟩], false, [(2, 4)], [[[.stop .self, .start .self, .alloc 0]]], 5, false⟩

/-- A session in which a task of the pool is armed and a round finds it due. -/
def selfishCalls : List (Nat × Op) :=
  [(0, .init), (0, .alloc 0), (0, .configure (.slot 0) 0 10 true), (0, .start (.slot 0)), (0, .advance 10), (0, .tick)]

/-- A handler that stopped its own task and started it again is given another slot than its own. -/
theorem live_slots_allocated_of_restart : ∃ (x y : Moment) (v : View) (below : List Frame) (t : Task),
    x.machine.stack = ⟨0, .perform (some 0) (.alloc 0)⟩ :: below ∧
    y.machine.stack = ⟨0, .answered (.slot (some ⟨1⟩))⟩ :: below ∧ y.view 0 = some v ∧
    v.scheduler.arena[0]? = some t ∧ t.state = .executing ∧ t.allocated ∧ v.Unused 1 := by
  let at' := fun n => ((initial selfish).steps n selfishCalls).1
  let P := fun z : Moment => Confined (fun _ => false) z.machine.stack ∧ z.machine.AtHome ∧ ∀ v ∈ z.view 0, v.Mindful
  have top : (at' 55).machine.stack = ⟨0, .perform (some 0) (.alloc 0)⟩ :: (at' 55).machine.stack.tail := by rfl
  have answered : (at' 60).machine.stack = ⟨0, .answered (.slot (some ⟨1⟩))⟩ :: (at' 55).machine.stack.tail := by rfl
  have running : ((at' 60).view 0).bind (fun v => v.scheduler.arena[0]?.map fun t => (t.state, t.pooled)) =
      some (.executing, true) := by decide +kernel
  obtain ⟨v, hv, running⟩ := Option.bind_eq_some_iff.1 running
  obtain ⟨t, ht, running⟩ := Option.map_eq_some_iff.1 running
  obtain ⟨state, pooled⟩ := Prod.mk.inj running
  have first : Run P (initial selfish) (at' 55) := run_steps (by decide +kernel)
  have later : Run (fun z => P z ∧ (at' 55).machine.stack.tail.length < z.machine.stack.length) (at' 55) (at' (55 + 5)) :=
    run_steps_add (by decide +kernel) (by decide +kernel)
  have within := later.within (stacked_of_run first) top rfl fun z p => p.2
  have whole : Run P (initial selfish) (at' 60) := first.trans (later.mono fun _ p => p.1)
  obtain ⟨kept, unused⟩ := live_slots_allocated whole (fun z p => p.1) (fun z p => p.2.1)
    (fun z v p hv => p.2.2 v hv) hv
  exact ⟨at' 55, at' 60, v, _, t, top, answered, hv, ht, state, kept 0 t ht pooled (.inr (.inl state)),
    unused (at' 55) _ _ _ 1 first top (within.mono fun z p => ⟨p.1.1, p.2⟩) answered⟩

end Moment

end TimedTasks
