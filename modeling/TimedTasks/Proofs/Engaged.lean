import Mathlib.Data.List.Chain
import TimedTasks.Proofs.Exclusion
import TimedTasks.Proofs.Linked
import TimedTasks.Proofs.Roster
import TimedTasks.Proofs.Within

/-!
# One session at a time

The beginning of a session, its rounds and its end are calls with frames of their own (`Act.engages`). Where interrupts
begin no session and no round, such a call finds no other one below it on its device: below it nothing waits for the
interrupts of a call on the board, no result is taken, and what runs when a sleep is over only asks for the end of the
session (`Machine.Waking`). A loop that is below it therefore has a round right above, and with a round in progress the
call is refused.

So the run state tells where the session stands (`View.Engaged`), and the session is open from the call on the board
with which it begins to the one with which it ends (`View.sessionOpen`).
-/

namespace TimedTasks

namespace Act

/-- Operations that no handler runs: those of interrupts, and of the end of a sleep. -/
def unowned : Act → Bool
  | block none _ => true
  | _ => false

/-- Operations that the handler of a task runs. -/
def owned : Act → Bool
  | block (some _) _ => true
  | _ => false

/-- The act is what a call that begins a session, or one of its rounds, or ends it, has come to. -/
def engages (a : Act) : Bool := a.inSession || a.loops

/-- The session is about to begin. -/
def begins : Act → Bool
  | opening | locked .beginSession => true
  | _ => false

/-- A session is in progress. -/
def lives : Act → Bool
  | running | ticking | closing _ | locked .endSession | locked (.sessionOver _) => true
  | _ => false

/-- The board was told that the session is over. -/
def leaves : Act → Bool
  | closing _ | locked (.sessionOver _) => true
  | _ => false

/-- The begin of a session is a part of one. -/
theorem engages_of_begins {a : Act} (h : a.begins) : a.engages := by
  cases a with
  | locked s => cases s <;> first | rfl | cases h
  | _ => first | rfl | cases h

/-- And so is what is in progress in it. -/
theorem engages_of_lives {a : Act} (h : a.lives) : a.engages := by
  cases a with
  | locked s => cases s <;> first | rfl | cases h
  | _ => first | rfl | cases h

/-- A session whose end the board was told is still in progress, up to its last word. -/
theorem lives_of_leaves {a : Act} (h : a.leaves) : a.lives := by
  cases a with
  | locked s => cases s <;> first | rfl | cases h
  | _ => first | rfl | cases h

/-- That last word comes after a call on the board. -/
theorem resumes_of_leaves {a : Act} (h : a.leaves) : a.resumes := by
  cases a <;> first | rfl | cases h

/-- How a session goes on: what the calls that begin and end it, and its rounds, come to one after the other. -/
inductive Proceeds (σ : Scheduler) : Act → Act → Prop
  | opens {self} : σ.runState = .stopped → Proceeds σ (perform self .init) opening
  | begins : Proceeds σ opening (locked .beginSession)
  | ticks {self} : σ.runState = .active → σ.inRound = false → Proceeds σ (perform self .tick) ticking
  | runs {self} : σ.runState ≠ .stopped → σ.inRound = false → Proceeds σ (perform self .run) running
  | goesOn : σ.runState = .active → Proceeds σ running running
  | ends : σ.runState ≠ .active → Proceeds σ running (locked .endSession)
  | closes {n} : Proceeds σ (locked .endSession) (closing n)
  | closed {n} : Proceeds σ (closing n) (locked (.sessionOver n))

/-- What an act makes of the run state. -/
inductive Restates (r : RunState) : Act → RunState → Prop
  | same {act} : Restates r act r
  | begun : Restates r (locked .beginSession) .active
  | asked : Restates r (locked .shutdown) (if r = .stopped then .stopped else .stopping)
  | ended {n} : Restates r (locked (.sessionOver n)) .stopped

namespace Restates

variable {r r' : RunState} {act : Act}

/-- Only the beginning of a session ends the time without one. -/
theorem stopped (h : act.Restates r r') (stopped : r = .stopped) (other : act ≠ .locked .beginSession) : r' = .stopped := by
  cases h with
  | same => exact stopped
  | begun => exact absurd rfl other
  | asked => exact if_pos stopped
  | ended => rfl

/-- Only its end ends a session. -/
theorem ne_stopped (h : act.Restates r r') (some : r ≠ .stopped) (other : ∀ n, act ≠ .locked (.sessionOver n)) :
    r' ≠ .stopped := by
  cases h with
  | same => exact some
  | begun => nofun
  | asked => rw [if_neg some]; nofun
  | ended => exact absurd rfl (other _)

end Restates

end Act

/-- No step brings a part of a session but the one that comes next. -/
theorem Leads.proceeds {w : World} {δ : Device} {act a : Act} {s : Stride} (l : Leads w δ act s) (m : a ∈ s.frames)
    (engages : a.engages) : act.Proceeds δ.scheduler a := by
  cases l with
  | ask ask =>
    cases ask <;>
      (simp only [Stride.frames, List.mem_cons, List.not_mem_nil, or_false] at m; rcases m with rfl | rfl <;> cases engages)
  | asked asks r | lengthAsked r =>
    simp only [Stride.frames, List.mem_cons, List.not_mem_nil, or_false] at m
    rcases m with rfl | rfl <;> cases engages
  | init stopped =>
    simp only [Stride.frames, List.mem_cons, List.not_mem_nil, or_false] at m
    rcases m with rfl | rfl
    · cases engages
    · exact .opens stopped
  | opened =>
    simp only [Stride.frames, List.mem_cons, List.not_mem_nil, or_false] at m
    rcases m with rfl | rfl
    · cases engages
    · exact .begins
  | tick active idle =>
    simp only [Stride.frames, List.mem_cons, List.not_mem_nil, or_false] at m
    rcases m with rfl | rfl | rfl
    · cases engages
    · cases engages
    · exact .ticks active idle
  | run some idle => cases List.mem_singleton.1 m; exact .runs some idle
  | anotherRound active =>
    simp only [Stride.frames, List.mem_cons, List.not_mem_nil, or_false] at m
    rcases m with rfl | rfl | rfl
    · cases engages
    · cases engages
    · exact .goesOn active
  | lastRound late =>
    simp only [Stride.frames, List.mem_cons, List.not_mem_nil, or_false] at m
    rcases m with rfl | rfl
    · cases engages
    · exact .ends late
  | ended =>
    simp only [Stride.frames, List.mem_cons, List.not_mem_nil, or_false] at m
    rcases m with rfl | rfl
    · cases engages
    · exact .closes
  | closed =>
    simp only [Stride.frames, List.mem_cons, List.not_mem_nil, or_false] at m
    rcases m with rfl | rfl
    · cases engages
    · exact .closed
  | _ =>
    simp only [Stride.frames, List.mem_cons, List.not_mem_nil, or_false] at m <;>
      first
        | (subst m; cases engages)
        | (rcases m with rfl | rfl <;> cases engages)
        | (rcases m with rfl | rfl | rfl <;> cases engages)

open Scheduler in
/-- The run state is changed by the begin of a session, by its last word and by a shutdown, and by nothing else. -/
theorem Leads.restates {w : World} {δ : Device} {act : Act} {s : Stride} (l : Leads w δ act s) :
    act.Restates δ.scheduler.runState s.scheduler.runState := by
  have kept : ∀ {r : RunState}, r = δ.scheduler.runState → act.Restates δ.scheduler.runState r := fun e => e ▸ .same
  cases l with
  | update _ re => exact kept (relength_changes re).2.2.runState
  | stop _ st => exact kept (stop_changes st).2.runState
  | stamp st | renew st => exact kept (start_changes st).runState
  | dispatched _ _ _ st => exact kept (stopping_changes st).runState
  | settled st => exact kept (settle_changes st).runState
  | claimed c => exact kept (handOut_changes c).runState
  | noted n => exact kept (noteArmed_changes n).2.runState
  | adopted a => exact kept (adopt_changes a).2.runState
  | attached a => exact kept (attach_changes a).runState
  | written a => exact kept (write_changes a).runState
  | declared t => exact kept (takeSlots_changes t).runState
  | enrolled e => exact kept (enrollPool_changes e).runState
  | forgotten => exact kept (forget_changes _ _).runState
  | configured c => exact kept (Scheduler.configured c).runState
  | begun => exact .begun
  | ended e => exact kept (endSession_dismissed e).2.1
  | sessionOver => exact .ended
  | shutdown =>
    have left : δ.scheduler.shutdown.runState = if δ.scheduler.runState = .stopped then .stopped else .stopping := by
      unfold Scheduler.shutdown
      split
      · assumption
      · rfl
    rw [left]
    exact .asked
  | _ => exact .same

/-! ## Operations without a handler -/

/-- Operations that no handler runs begin neither a session nor a round, and neither does what they have come to. -/
structure Machine.Waking (stack : List Frame) : Prop where
  own : ∀ f ∈ stack, f.act.unowned → f.act.minor
  above : stack.Pairwise fun f g => g.act.unowned → f.act.minor

/-- What interrupts run begins nothing, when it did not so far. -/
theorem Leads.unowned_minor {w : World} {δ : Device} {act : Act} {s : Stride} (l : Leads w δ act s)
    (own : act.unowned → act.minor) (confined : ∀ body ∈ act.bodies, body.all Op.calm) :
    (∀ a ∈ s.frames, a.unowned → a.minor) ∧ s.frames.Pairwise fun a b => b.unowned → a.minor := by
  cases l with
  | @interruptsNext call body rest =>
    have calm := confined body List.mem_cons_self
    simp [Stride.frames, Act.unowned, Act.minor]
    simpa using calm
  | @blockNext self op ops =>
    cases self with
    | none =>
      have calm : (op :: ops).all Op.calm := own rfl
      simp only [List.all_cons, Bool.and_eq_true] at calm
      simp [Stride.frames, Act.unowned, Act.minor, calm.1, calm.2]
    | some i => simp [Stride.frames, Act.unowned]
  | wokenLast => simp [Stride.frames, Act.unowned, Act.minor, Op.calm]
  | _ => simp [Stride.frames, Act.unowned]

/-- What runs at the end of a sleep asks for a shutdown at most, after every turn. -/
theorem Machine.Turn.waking {m m' : Machine} (t : m.Turn m') (confined : Confined Op.calm m.stack)
    (h : Machine.Waking m.stack) : Machine.Waking m'.stack := by
  have tail : ∀ {f : Frame} {rest : List Frame}, Machine.Waking (f :: rest) → Machine.Waking rest :=
    fun h => ⟨fun g m => h.own g (List.mem_cons_of_mem _ m), h.above.tail⟩
  cases t with
  | works d act rest δ s top _ l takes =>
    rw [top] at h confined
    have bodies := confined ⟨d, act⟩ List.mem_cons_self
    obtain ⟨own, above⟩ := l.unowned_minor (h.own _ List.mem_cons_self) bodies
    rw [takes.stack]
    constructor
    · intro f m
      rcases List.mem_append.1 m with m | m
      · obtain ⟨a, ma, rfl⟩ := List.mem_map.1 m
        exact own a ma
      · exact h.own f (List.mem_cons_of_mem _ m)
    · refine List.pairwise_append.2 ⟨List.pairwise_map.2 above, h.above.tail, fun f mf g mg unowned => ?_⟩
      obtain ⟨a, ma, rfl⟩ := List.mem_map.1 mf
      have minor := (List.pairwise_cons.1 h.above).1 g mg unowned
      exact tame_calm.frames l minor bodies a ma
  | delivers d e ms act rest δ s top _ l takes =>
    rw [top] at h
    -- A loop or a round is not minor, so nothing without a handler is below it.
    have major : act.minor = false := by cases l <;> rfl
    have none : ∀ g ∈ rest, g.act.unowned = false := by
      intro g mg
      by_contra unowned
      have minor := (List.pairwise_cons.1 h.above.tail).1 g mg (by simpa using unowned)
      rw [major] at minor
      cases minor
    rw [takes.stack]
    constructor
    · intro f m unowned
      rcases List.mem_append.1 m with m | m
      · obtain ⟨a, ma, rfl⟩ := List.mem_map.1 m
        cases l <;> simp [Stride.frames] at ma
        · subst ma; cases unowned
        · subst ma; cases unowned
        · rcases ma with rfl | rfl | rfl <;> cases unowned
        · subst ma; cases unowned
      · rw [none f m] at unowned
        cases unowned
    · refine List.pairwise_append.2 ⟨?_, h.above.tail.tail, fun f _ g mg unowned => ?_⟩
      · cases l <;> simp [Stride.frames, Act.unowned]
      · rw [none g mg] at unowned; cases unowned
  | redirects d e self op rest top _ top' =>
    rw [top] at h
    rw [top']
    refine ⟨fun f m unowned => ?_, List.Pairwise.cons (fun g mg unowned => ?_) h.above.tail⟩
    · rcases List.mem_cons.1 m with rfl | m
      · cases unowned
      · exact h.own f (List.mem_cons_of_mem _ m) unowned
    · exact (List.pairwise_cons.1 h.above).1 g mg unowned
  | answers d e a act rest top _ _ top' => rw [top']; rw [top] at h; exact tail (tail h)
  | finishes d a top _ top' => rw [top']; exact ⟨by simp, List.Pairwise.nil⟩
  | calls d op top _ top' => rw [top']; exact ⟨by simp [Act.unowned], List.pairwise_singleton _ _⟩

/-- The operations of a handler lie on its frame. -/
def Handled (acts : List Act) : Prop := acts.IsChain fun a b => a.owned → b.handles

namespace Handled

variable {a b : Act} {acts rest : List Act}

theorem tail (h : Handled (a :: rest)) : Handled rest := List.IsChain.tail h

theorem push (h : Handled rest) (free : a.owned = false) : Handled (a :: rest) := by
  cases rest with
  | nil => exact List.IsChain.singleton a
  | cons b rest => exact List.IsChain.cons_cons (fun owned => by rw [free] at owned; cases owned) h

/-- Acts that are no operations of handlers can be put on the others. -/
theorem append (h : Handled rest) (free : ∀ a ∈ acts, a.owned = false) : Handled (acts ++ rest) := by
  induction acts with
  | nil => exact h
  | cons a acts ih => exact (ih fun b m => free b (List.mem_cons_of_mem _ m)).push (free a List.mem_cons_self)

/-- One act in place of another. -/
theorem replace (h : Handled (a :: rest)) (same : b.owned → a.owned) : Handled (b :: rest) := by
  cases rest with
  | nil => exact List.IsChain.singleton b
  | cons c rest =>
    cases h with
    | cons_cons own h => exact List.IsChain.cons_cons (fun owned => own (same owned)) h

/-- A step leaves the operations of a handler on its frame. -/
theorem leads {w : World} {δ : Device} {s : Stride} (l : Leads w δ a s) (h : Handled (a :: rest)) :
    Handled (s.frames ++ rest) := by
  cases l with
  | @blockNext self op ops =>
    have same : (Act.block self ops).owned = (Act.block self (op :: ops)).owned := by cases self <;> rfl
    exact push (push (replace h fun owned => same ▸ owned) rfl) rfl
  | fetched =>
    refine List.IsChain.cons_cons (fun _ => rfl) ?_
    exact push h.tail rfl
  | ask | asked | lengthAsked | told | refused | lengthTold | answer | unclaimed =>
    exact append h.tail (by simp [Stride.frames, Act.owned])
  | _ => exact append h.tail (by simp [Stride.frames, Act.owned])

end Handled

namespace View

variable {v v' : View}

/-- Handlers' operations lie on their frames. -/
def Handled (v : View) : Prop := TimedTasks.Handled v.acts

/-- So does every step of the device. -/
theorem Handled.turn (h : v.Handled) (t : Turn v v') : v'.Handled := by
  cases t with
  | works acts l =>
    rw [Handled, acts] at h
    exact h.leads l
  | delivers acts l =>
    rw [Handled, acts] at h
    refine TimedTasks.Handled.append h.tail.tail ?_
    cases l <;> simp [Stride.frames, Act.owned]

/-- And whatever happens between. -/
theorem Handled.shift (h : v.Handled) (t : Shift v v') : v'.Handled := by
  cases t with
  | drops acts _ =>
    rw [Handled, acts] at h
    exact h.tail
  | arrives self op => exact TimedTasks.Handled.push h rfl

end View

/-! ## What is below a call -/

/-- Each act of a column lies as it can on the next one. -/
theorem Column.sits_of_append {a b : Act} {front under : List Act} (h : Column (front ++ a :: b :: under)) :
    a.Sits b := by
  induction front with
  | nil => exact h.1
  | cons c front ih => exact ih h.tail

/-- What is known of a device whose interrupts begin no session and no round, and of the operations in progress on
it. -/
structure View.Calm (v : View) : Prop extends v.Orderly where
  own : ∀ a ∈ v.acts, a.unowned → a.minor
  above : v.acts.Pairwise fun a b => b.unowned → a.minor
  handled : v.Handled

namespace View.Calm

variable {v : View} {act b : Act} {rest : List Act}

/-- Nothing waits below an act that interrupts cannot bring. -/
theorem still (h : v.Calm) (acts : v.acts = act :: rest) (major : act.minor = false) : ∀ c ∈ rest, c.resumes = false :=
  Column.unresumed (acts ▸ h.sound.column) tame_calm (acts ▸ h.guarded) major

/-- A loop that is below a call has a round right above it. -/
theorem round_of_loop (h : v.Calm) (acts : v.acts = act :: rest) (calls : act.calls) (major : act.minor = false)
    (m : b ∈ rest) (loops : b.loops) : Act.round ∈ rest := by
  have column : Column (act :: rest) := acts ▸ h.sound.column
  obtain ⟨between, under, e⟩ := List.append_of_mem m
  -- What lies right above the loop is a round, or one of the things that are ruled out here.
  rcases List.eq_nil_or_concat between with rfl | ⟨front, c, rfl⟩
  · rw [e, List.nil_append] at column
    have takes := column.takesAnswer_of_calls calls b rfl
    cases b <;> first | cases loops; done | cases takes
  · have mc : c ∈ rest := by rw [e]; simp
    have split : act :: rest = (act :: front) ++ c :: b :: under := by rw [e]; simp
    have sits : c.Sits b := Column.sits_of_append (split ▸ column)
    have handled : c.owned → b.handles := by
      have chain : TimedTasks.Handled (act :: rest) := acts ▸ h.handled
      rw [split] at chain
      exact (List.isChain_append_cons_cons.1 chain).2.1
    have bloops : b.calls := by cases b <;> first | cases loops; done | rfl
    rcases Act.sits_on_call sits bloops with ⟨resumes, -⟩ | ⟨-, rfl | ⟨ms, rfl⟩ | ⟨ms, rfl⟩ | ⟨self, ops, rfl⟩⟩
    · cases b <;> first | cases loops; done | cases resumes
    · exact mc
    · exact absurd mc (column.no_result.1 ms)
    · have still := h.still acts major _ mc
      cases still
    · cases self with
      | none =>
        have above := h.above
        rw [acts] at above
        have minor := (List.pairwise_cons.1 above).1 _ mc rfl
        rw [major] at minor
        cases minor
      | some i =>
        have handles := handled rfl
        cases b <;> first | cases loops; done | cases handles

/-- A call that begins or ends something finds no session in progress below it, unless a round is. -/
theorem unengaged (h : v.Calm) (acts : v.acts = act :: rest) (calls : act.calls) (major : act.minor = false)
    (none : Act.round ∉ rest) : ∀ b ∈ rest, b.engages = false := by
  intro b m
  by_contra engaged
  have engaged : b.inSession = true ∨ b.loops = true := by simpa only [Act.engages, Bool.or_eq_true, Bool.not_eq_false] using engaged
  by_cases loops : b.loops = true
  · exact none (h.round_of_loop acts calls major m loops)
  · have still := h.still acts major b m
    rcases engaged with e | e
    · cases b with
      | locked s => cases still
      | _ => first | cases e; done | cases still; done | exact loops rfl
    · exact loops e

end View.Calm

/-! ## Where the session stands -/

namespace View

variable {v v' : View}

/-- The run state tells of the parts of a session that are in progress. -/
structure Engaged (v : View) : Prop where
  begins : ∀ a ∈ v.acts, a.begins → v.scheduler.runState = .stopped
  lives : ∀ a ∈ v.acts, a.lives → v.scheduler.runState ≠ .stopped

theorem Fresh.engaged (h : v.Fresh) : v.Engaged := ⟨by simp [h.acts], by simp [h.acts]⟩

/-- Below the last word on a session, no part of another one is in progress. -/
theorem Calm.alone {act : Act} {rest : List Act} (h : v.Calm) (acts : v.acts = act :: rest)
    (last : act = .locked .beginSession ∨ ∃ n, act = .locked (.sessionOver n)) : ∀ b ∈ rest, b.engages = false := by
  have none : Act.round ∉ rest := by
    have layered : Layered (act :: rest) := acts ▸ h.sound.layered
    rcases last with rfl | ⟨n, rfl⟩ <;> exact layered.1
  rcases last with rfl | ⟨n, rfl⟩ <;> exact h.unengaged acts rfl rfl none

/-- A step leaves the run state telling of the session, as no other call is in progress at either end of it. -/
theorem Engaged.turn (h : v.Engaged) (calm : v.Calm) (t : Turn v v') : v'.Engaged := by
  cases t with
  | @works w act s _ rest acts l =>
    have restates : act.Restates v.scheduler.runState (take s rest (v.past.after v.clock act s)).scheduler.runState := by
      show act.Restates _ s.device.scheduler.runState
      rw [Stride.scheduler_device]
      exact l.restates
    have top : act ∈ v.acts := acts ▸ List.mem_cons_self
    have alone : ∀ a ∈ rest, a.engages → act ≠ .locked .beginSession ∧ ∀ n, act ≠ .locked (.sessionOver n) := by
      intro a m engages
      constructor
      · intro begun
        rw [calm.alone acts (.inl begun) a m] at engages
        cases engages
      · intro n same
        rw [calm.alone acts (.inr ⟨n, same⟩) a m] at engages
        cases engages
    constructor
    · intro a m begins
      have engages := Act.engages_of_begins begins
      rcases List.mem_append.1 m with m | m
      · cases l.proceeds m engages with
        | opens stopped => exact restates.stopped stopped nofun
        | begins => exact restates.stopped (h.begins _ top rfl) nofun
        | _ => cases begins
      · exact restates.stopped (h.begins a (acts ▸ List.mem_cons_of_mem _ m) begins) (alone a m engages).1
    · intro a m lives
      have engages := Act.engages_of_lives lives
      rcases List.mem_append.1 m with m | m
      · cases l.proceeds m engages with
        | ticks active => exact restates.ne_stopped (fun stopped => RunState.noConfusion (active.symm.trans stopped)) nofun
        | runs some => exact restates.ne_stopped some nofun
        | goesOn | ends | closes | closed => exact restates.ne_stopped (h.lives _ top rfl) nofun
        | _ => cases lives
      · exact restates.ne_stopped (h.lives a (acts ▸ List.mem_cons_of_mem _ m) lives) (alone a m engages).2
  | @delivers ms act s _ rest acts l =>
    have same : s.device.scheduler.runState = v.scheduler.runState := by
      rw [Stride.scheduler_device]
      cases l <;> rfl
    have known : ∀ a ∈ s.frames ++ rest, a.engages → a ∈ v.acts := by
      intro a m engages
      rw [acts]
      rcases List.mem_append.1 m with m | m
      · cases l with
        | sleeping =>
          simp only [Stride.frames, List.mem_cons, List.not_mem_nil, or_false] at m
          rcases m with rfl | rfl | rfl
          · cases engages
          · cases engages
          · simp
        | awake => cases List.mem_singleton.1 m; simp
        | round | ticking => cases List.mem_singleton.1 m; cases engages
      · exact List.mem_cons_of_mem _ (List.mem_cons_of_mem _ m)
    constructor
    · intro a m begins
      exact same.trans (h.begins a (known a m (Act.engages_of_begins begins)) begins)
    · intro a m lives
      rw [show (take s rest v.past).scheduler.runState = _ from same]
      exact h.lives a (known a m (Act.engages_of_lives lives)) lives

/-- What happens between the steps of a device changes its run state in no way. -/
theorem Engaged.shift (h : v.Engaged) (t : Shift v v') : v'.Engaged := by
  cases t with
  | drops acts _ =>
    exact ⟨fun a m => h.begins a (acts ▸ List.mem_cons_of_mem _ m), fun a m => h.lives a (acts ▸ List.mem_cons_of_mem _ m)⟩
  | arrives self op =>
    refine ⟨fun a m b => ?_, fun a m l => ?_⟩
    · rcases List.mem_cons.1 m with rfl | m
      · cases b
      · exact h.begins a m b
    · rcases List.mem_cons.1 m with rfl | m
      · cases l
      · exact h.lives a m l

end View

namespace Moment

variable {P : Moment → Prop} {s : Setup} {y : Moment} {d : Nat} {v : View}

/-- In every run whose interrupts begin nothing, a session has no other one below it. -/
theorem calm (r : Run P (initial s) y) (calm : ∀ z, P z → Confined Op.calm z.machine.stack) (h : y.view d = some v) :
    v.Calm := by
  have waking : Machine.Waking y.machine.stack :=
    r.invariant (I := fun y => Machine.Waking y.machine.stack) ⟨by simp [initial], List.Pairwise.nil⟩
      fun x z g p next _ => next.machine.turn.waking (calm x p) g
  have handled : v.Handled :=
    view_of_run r (fun _ _ _ _ => trivial) (fun v f => by rw [View.Handled, f.acts]; exact List.IsChain.nil)
      (fun _ _ h (_ : True) t _ => h.turn t) (fun _ _ h t => h.shift t) h
  have acts := (view_eq_some h).2.1
  have actOn : ∀ {f : Frame} {a : Act}, Frame.actOn d f = some a → f.act = a := by
    intro f a e
    unfold Frame.actOn at e
    split at e <;> cases e
    rfl
  refine ⟨orderly r calm h, fun a m unowned => ?_, ?_, handled⟩
  · rw [acts, pending, List.mem_filterMap] at m
    obtain ⟨f, mf, e⟩ := m
    cases actOn e
    exact waking.own f mf unowned
  · rw [acts]
    refine List.Pairwise.filterMap _ (fun f g imp a ha b hb => ?_) waking.above
    cases actOn ha
    cases actOn hb
    exact imp

/-- And the run state tells where it stands. -/
theorem engaged (r : Run P (initial s) y) (calm : ∀ z, P z → Confined Op.calm z.machine.stack) (h : y.view d = some v) :
    v.Engaged := by
  have known : ∀ z, Run P (initial s) z → ∀ u, z.view d = some u → u.Calm := fun z r u hu => Moment.calm r calm hu
  exact view_of_run (Q := View.Calm) (r.also known) (fun z u p hu => p.2 u hu) (fun _ => View.Fresh.engaged)
    (fun _ _ h q t _ => h.turn q t) (fun _ _ h t => h.shift t) h

end Moment

end TimedTasks
