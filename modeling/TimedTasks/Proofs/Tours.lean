import TimedTasks.Proofs.Outcomes
import TimedTasks.Proofs.Winding

/-!
# The way of a round

A round that does not wait for the task that the cache remembers goes along the queue. It may run that task first, and it
passes it later on. Handlers and interrupts may add tasks to the queue meanwhile, but only at its end, so the round comes to
the slots of the queue in their order, to each of them once, and it comes to an end.

`Tour` is what a round did so far, and `Tours` how the place where it stands agrees with that. `Act.toll` bounds the steps
that are yet to come before the round goes on to another slot.
-/

namespace TimedTasks

/-- What a round did so far. -/
structure Tour where
  /-- The tasks that it dispatched, oldest first. -/
  dispatched : List Nat
  /-- The tasks whose handlers it invoked, oldest first. -/
  invoked : List Nat
  /-- The slots of the queue that it came to, oldest first. -/
  visited : List Nat
  /-- How many steps it made of its own, without those of handlers and interrupts. -/
  steps : Nat
  deriving DecidableEq

/-- The round did nothing yet. -/
def Tour.none : Tour := ⟨[], [], [], 0⟩

namespace Act

/-- How many steps of its own a round makes at most, on account of the act, before it comes to another slot. -/
def toll : Act → Nat
  | checkCache => 10
  | reading (.cached ..) => 9
  | survey _ => 4
  | walking .. => 3
  | reading (.due ..) => 5
  | dispatch _ => 4
  | reading (.renew _) => 3
  | locked (.fetch _) | settle _ => 1
  | reading .scan => 2
  | locked (.adopt ..) => 1
  | _ => 0

/-- The slot of the queue that the round comes to. -/
def visits : Act → Option Nat
  | walking _ (some i) => some i
  | _ => none

/-- The task that the walk along the queue passes. -/
def skips : Act → Option (Option Nat)
  | survey skip | walking skip _ => some skip
  | _ => none

/-- The task that the round is to dispatch if it is due and waits. -/
def looks : Act → Option Nat
  | reading (.due i _) | dispatch i => some i
  | _ => none

/-- The task whose handler is about to be invoked. -/
def fires : Act → Option Nat
  | reading (.renew i) | locked (.fetch i) => some i
  | _ => none

/-- Where the round stands is somewhere else. -/
def apart : Act → Bool
  | checkCache | survey _ | walking .. | dispatch _ | reading (.cached ..) | reading (.due ..) => false
  | _ => true

variable {a : Act}

theorem apart_of_rests (h : a.rests) (still : a.turns = false) : a.apart := by
  cases a with
  | reading r => cases r <;> first | rfl | cases h; done | cases still
  | _ => first | rfl | cases h; done | cases still

theorem fires_of_rests (h : a.rests) : a.fires = none := by
  cases a with
  | reading r => cases r <;> first | rfl | cases h
  | locked s => cases s <;> first | rfl | cases h
  | _ => rfl

theorem toll_of_asks {r : Reading} (h : r.asks) : (reading r).toll = 0 := by
  cases r <;> first | rfl | cases h

theorem fires_of_asks {r : Reading} (h : r.asks) : (reading r).fires = none := by
  cases r <;> first | rfl | cases h

theorem apart_of_asks {r : Reading} (h : r.asks) : (reading r).apart := by
  cases r <;> first | rfl | cases h

theorem apart_of_op {σ : Scheduler} {self : Option Nat} {op : Op} {s : Section} (h : op.Asks σ self s) :
    (locked s).apart := by
  cases h <;> rfl

theorem apart_of_skips (h : a.apart) : a.skips = none := by
  cases a <;> first | rfl | cases h

theorem apart_of_looks (h : a.apart) : a.looks = none := by
  cases a with
  | reading r => cases r <;> first | rfl | cases h
  | _ => first | rfl | cases h

theorem skips_of_walks (h : a.walks) : ∃ skip, a.skips = some skip := by
  cases a <;> first | exact ⟨_, rfl⟩ | cases h

end Act

/-- What is below a dispatch: the walk of the round, and below that nothing that is part of the way. -/
theorem Column.way_of_dispatch {i : Nat} {rest : List Act} (h : Column (.dispatch i :: rest))
    (lay : Layered (.dispatch i :: rest)) :
    ∃ walk below, rest = walk :: below ∧ walk.walks ∧ ∀ b ∈ below, b.rests ∧ b.turns = false := by
  cases rest with
  | nil => cases h
  | cons walk rest =>
    have walks : walk.walks := h.1
    have turns := Act.turns_of_walks walks
    exact ⟨walk, rest, rfl, walks, fun b m =>
      ⟨h.tail.rests_of_turns lay.2 turns b m, Sound.turns_head_of h.tail lay.2 turns b m⟩⟩

/-- The task that the act of a round dispatches: one that waits. -/
def Scheduler.dispatches (σ : Scheduler) : Act → Option Nat
  | .dispatch i => if (σ.life i).state = .active then some i else none
  | _ => none

/-- The task whose handler the act of a round invokes. -/
def Scheduler.invokes (σ : Scheduler) : Act → Option Nat
  | .locked (.fetch i) => if (σ.life i).handler.isSome then some i else none
  | _ => none

/-- What the round did once its next step is made. -/
def View.tour (v : View) (b : Tour) : Tour :=
  match v.acts.head? with
  | some act => {
    dispatched := b.dispatched ++ (v.scheduler.dispatches act).toList
    invoked := b.invoked ++ (v.scheduler.invokes act).toList
    visited := b.visited ++ act.visits.toList
    steps := b.steps + if 0 < act.toll then 1 else 0 }
  | none => b

/-! ## In order -/

/-- Of the tasks that are dispatched, `skip` may be the first; the others are slots of a list, in its order, and `skip` is
none of them. -/
def InOrder (skip : Option Nat) (visited dispatched : List Nat) : Prop :=
  ∃ ahead rest, dispatched = Option.toList ahead ++ rest ∧ (ahead = none ∨ ahead = skip) ∧ rest.Sublist visited ∧
    ∀ j ∈ skip, j ∉ rest

namespace InOrder

variable {skip : Option Nat} {visited dispatched : List Nat} {i : Nat}

theorem nil : InOrder skip [] [] := ⟨none, [], rfl, .inl rfl, .slnil, fun _ _ => by simp⟩

theorem visit (h : InOrder skip visited dispatched) (more : List Nat) : InOrder skip (visited ++ more) dispatched := by
  obtain ⟨ahead, rest, same, first, sub, others⟩ := h
  exact ⟨ahead, rest, same, first, sub.trans (List.sublist_append_left _ _), others⟩

theorem dispatch (h : InOrder skip visited dispatched) (other : skip ≠ some i) :
    InOrder skip (visited ++ [i]) (dispatched ++ [i]) := by
  obtain ⟨ahead, rest, rfl, first, sub, others⟩ := h
  refine ⟨ahead, rest ++ [i], List.append_assoc .., first, sub.append (.refl _), fun j m => ?_⟩
  rw [List.mem_append, List.mem_singleton, not_or]
  exact ⟨others j m, fun same => other (same ▸ m)⟩

end InOrder

/-- The next one to be dispatched may be `i`: the task that goes ahead of the queue, or the slot that was come to last. -/
inductive Candidate (skip : Option Nat) (i : Nat) : List Nat → List Nat → Prop
  | ahead : skip = some i → Candidate skip i [] []
  | next {visited dispatched} : skip ≠ some i → InOrder skip visited dispatched →
      Candidate skip i (visited ++ [i]) dispatched

theorem Candidate.dispatch {skip : Option Nat} {i : Nat} {visited dispatched : List Nat}
    (h : Candidate skip i visited dispatched) : InOrder skip visited (dispatched ++ [i]) := by
  cases h with
  | ahead first =>
    subst first
    exact ⟨some i, [], rfl, .inr rfl, .slnil, fun _ _ => by simp⟩
  | next other order => exact order.dispatch other

/-! ## The place where a round stands -/

/-- What the round did agrees with where it stands. -/
structure Tours (cached : Option Nat) (roster : List Nat) (acts : List Act) (visited dispatched : List Nat) : Prop where
  late : .checkCache ∉ acts
  seen : ∀ i timing, .reading (.cached i timing) ∈ acts → cached = some i ∧ visited = [] ∧ dispatched = []
  way : ∀ a ∈ acts, ∀ skip, a.skips = some skip → (skip = none ∨ skip = cached) ∧ InOrder skip visited dispatched
  survey : ∀ skip, .survey skip ∈ acts → visited = []
  /-- The walk comes to the slots in their order. -/
  cursor : ∀ skip k, .walking skip (some k) ∈ acts → visited ++ [k] <+: roster
  candidate : ∀ a ∈ acts, ∀ i, a.looks = some i → ∀ g ∈ acts, ∀ skip, g.skips = some skip →
    Candidate skip i visited dispatched
  passed : visited <+: roster
  order : ∃ skip, (skip = none ∨ skip = cached) ∧ InOrder skip visited dispatched

namespace Tours

variable {cached : Option Nat} {roster visited dispatched : List Nat} {act : Act} {acts rest : List Act}

/-- What is somewhere else can come and go. -/
theorem of_part (h : Tours cached roster acts visited dispatched) {acts' : List Act}
    (part : ∀ a ∈ acts', a.apart = false → a ∈ acts) : Tours cached roster acts' visited dispatched := by
  have skips : ∀ {a} {skip : Option Nat}, a ∈ acts' → a.skips = some skip → a ∈ acts := fun {a} _ m some =>
    part a m (Bool.eq_false_iff.2 fun apart => by rw [Act.apart_of_skips apart] at some; cases some)
  have looks : ∀ {a} {i : Nat}, a ∈ acts' → a.looks = some i → a ∈ acts := fun {a} _ m some =>
    part a m (Bool.eq_false_iff.2 fun apart => by rw [Act.apart_of_looks apart] at some; cases some)
  exact {
    late := fun m => h.late (part _ m rfl)
    seen := fun i timing m => h.seen i timing (part _ m rfl)
    way := fun a m skip some => h.way a (skips m some) skip some
    survey := fun skip m => h.survey skip (part _ m rfl)
    cursor := fun skip k m => h.cursor skip k (part _ m rfl)
    candidate := fun a m i some g mg skip some' => h.candidate a (looks m some) i some g (skips mg some') skip some'
    passed := h.passed
    order := h.order }

/-- An act comes that is somewhere else. -/
theorem cons (h : Tours cached roster rest visited dispatched) (apart : act.apart) :
    Tours cached roster (act :: rest) visited dispatched :=
  h.of_part fun _ m here => (List.mem_cons.1 m).resolve_left fun same => by rw [same, apart] at here; cases here

theorem tail (h : Tours cached roster (act :: rest) visited dispatched) : Tours cached roster rest visited dispatched :=
  h.of_part fun _ m _ => List.mem_cons_of_mem _ m

/-- Acts come that are somewhere else. -/
theorem push (h : Tours cached roster rest visited dispatched) (apart : ∀ a ∈ acts, a.apart) :
    Tours cached roster (acts ++ rest) visited dispatched :=
  h.of_part fun a m here => (List.mem_append.1 m).resolve_left fun m => by rw [apart a m] at here; cases here

/-- The interrupts of a call on the board are somewhere else. -/
theorem called {s : Stride} (h : Tours cached roster (s.acts ++ rest) visited dispatched) :
    Tours cached roster (s.frames ++ rest) visited dispatched := by
  unfold Stride.frames
  split
  · exact h
  · exact h.cons rfl

/-- Below the place where the round stands, all acts are somewhere else. -/
theorem under (h : Tours cached roster acts visited dispatched) (apart : ∀ b ∈ rest, b.apart) :
    Tours cached roster (acts ++ rest) visited dispatched :=
  h.of_part fun a m here => (List.mem_append.1 m).resolve_right fun m => by rw [apart a m] at here; cases here

/-- Tasks come to the end of the queue. -/
theorem grow (h : Tours cached roster acts visited dispatched) (more : List Nat) :
    Tours cached (roster ++ more) acts visited dispatched :=
  { h with
    cursor := fun skip k m => (h.cursor skip k m).trans (List.prefix_append _ _)
    passed := h.passed.trans (List.prefix_append _ _) }

/-- The clock is about to be read for the task that the cache remembers. -/
theorem of_cached {i : Nat} {timing : Interval} (known : cached = some i) :
    Tours cached roster [.reading (.cached i timing)] [] [] where
  late := by simp
  seen j timing' m := by
    cases List.mem_singleton.1 m
    exact ⟨known, rfl, rfl⟩
  way a m skip some := by
    cases List.mem_singleton.1 m
    cases some
  survey := by simp
  cursor := by simp
  candidate a m i looks := by
    cases List.mem_singleton.1 m
    cases looks
  passed := List.nil_prefix
  order := ⟨none, .inl rfl, .nil⟩

/-- The walk is to begin. -/
theorem of_survey {skip : Option Nat} (known : skip = none ∨ skip = cached) (order : InOrder skip [] dispatched) :
    Tours cached roster [.survey skip] [] dispatched where
  late := by simp
  seen := by simp
  way a m skip' some := by
    cases List.mem_singleton.1 m
    cases some
    exact ⟨known, order⟩
  survey _ _ := rfl
  cursor := by simp
  candidate a m i looks := by
    cases List.mem_singleton.1 m
    cases looks
  passed := List.nil_prefix
  order := ⟨skip, known, order⟩

/-- The walk came to a place. -/
theorem of_walking {skip cursor : Option Nat} (known : skip = none ∨ skip = cached) (order : InOrder skip visited dispatched)
    (passed : visited <+: roster) (next : ∀ k ∈ cursor, visited ++ [k] <+: roster) :
    Tours cached roster [.walking skip cursor] visited dispatched where
  late := by simp
  seen := by simp
  way a m skip' some := by
    cases List.mem_singleton.1 m
    cases some
    exact ⟨known, order⟩
  survey := by simp
  cursor skip' k m := by
    cases List.mem_singleton.1 m
    exact next k rfl
  candidate a m i looks := by
    cases List.mem_singleton.1 m
    cases looks
  passed := passed
  order := ⟨skip, known, order⟩

/-- Above the walk, the round looks at a task. -/
theorem look {g : Act} {skip : Option Nat} {i : Nat} (h : Tours cached roster [g] visited dispatched)
    (walk : g.skips = some skip) (looks : act.looks = some i) (candidate : Candidate skip i visited dispatched) :
    Tours cached roster [act, g] visited dispatched := by
  have other : ∀ {a}, a ∈ [act, g] → a = act ∨ a ∈ [g] := fun m => by simpa using m
  have still : g.looks = none := by cases g <;> first | rfl | cases walk
  have here : act.skips = none := by cases act <;> first | rfl | cases looks
  exact {
    late := fun m => (other m).elim (fun same => by rw [← same] at looks; cases looks) h.late
    seen := fun j timing m => (other m).elim (fun same => by rw [← same] at looks; cases looks) (h.seen j timing)
    way := fun a m skip' some => (other m).elim (fun same => by rw [same, here] at some; cases some)
      fun m => h.way a m skip' some
    survey := fun skip' m => (other m).elim (fun same => by rw [← same] at looks; cases looks) (h.survey skip')
    cursor := fun skip' k m => (other m).elim (fun same => by rw [← same] at looks; cases looks) (h.cursor skip' k)
    candidate := fun a m j some g' mg skip' some' => by
      rcases other m with rfl | m
      · cases looks.symm.trans some
        rcases other mg with rfl | mg
        · rw [here] at some'
          cases some'
        · cases List.mem_singleton.1 mg
          cases walk.symm.trans some'
          exact candidate
      · cases List.mem_singleton.1 m
        rw [still] at some
        cases some
    passed := h.passed
    order := h.order }

/-- Another look takes the place of one. -/
theorem relook {act' : Act} {i : Nat} (h : Tours cached roster (act :: rest) visited dispatched) (looks : act.looks = some i)
    (looks' : act'.looks = some i) : Tours cached roster (act' :: rest) visited dispatched := by
  have here : act'.skips = none := by cases act' <;> first | rfl | cases looks'
  have skips : ∀ {a} {skip : Option Nat}, a ∈ act' :: rest → a.skips = some skip → a ∈ rest := fun m some =>
    (List.mem_cons.1 m).resolve_left fun same => by rw [same, here] at some; cases some
  have part : ∀ {a}, a ∈ act' :: rest → a.looks = none → a ∈ rest := fun m none =>
    (List.mem_cons.1 m).resolve_left fun same => by rw [same, looks'] at none; cases none
  have tail := h.tail
  exact {
    late := fun m => tail.late (part m rfl)
    seen := fun j timing m => tail.seen j timing (part m rfl)
    way := fun a m skip some => tail.way a (skips m some) skip some
    survey := fun skip m => tail.survey skip (part m rfl)
    cursor := fun skip k m => tail.cursor skip k (part m rfl)
    candidate := fun a m j some g mg skip some' => by
      rcases List.mem_cons.1 m with rfl | m
      · cases looks'.symm.trans some
        exact h.candidate act List.mem_cons_self i looks g (List.mem_cons_of_mem _ (skips mg some')) skip some'
      · exact tail.candidate a m j some g (skips mg some') skip some'
    passed := h.passed
    order := h.order }

/-- The task that the round looked at is dispatched. -/
theorem dispatch {i : Nat} (h : Tours cached roster (.dispatch i :: rest) visited dispatched)
    (column : Column (.dispatch i :: rest)) (layered : Layered (.dispatch i :: rest)) :
    Tours cached roster rest visited (dispatched ++ [i]) := by
  obtain ⟨walk, below, rfl, walks, idle⟩ := column.way_of_dispatch layered
  obtain ⟨skip, skips⟩ := Act.skips_of_walks walks
  have candidate := h.candidate (.dispatch i) List.mem_cons_self i rfl walk (by simp) skip skips
  obtain ⟨known, -⟩ := h.way walk (by simp) skip skips
  have under : ∀ {visited' dispatched'}, Tours cached roster [walk] visited' dispatched' →
      Tours cached roster (walk :: below) visited' dispatched' := fun h =>
    h.under fun b m => Act.apart_of_rests (idle b m).1 (idle b m).2
  cases walk with
  | survey =>
    cases skips
    obtain rfl := h.survey skip (by simp)
    exact under (.of_survey known candidate.dispatch)
  | walking _ cursor =>
    cases skips
    refine under (.of_walking known candidate.dispatch h.passed fun k m => ?_)
    exact h.cursor skip k (by rw [show cursor = some k from m]; simp)
  | _ => cases walks

end Tours

/-! ## One step -/

/-- The next slot of the queue, if there is one, comes behind those that the walk came to. -/
theorem Chain.next_of_prefix {link : Nat → Option (Option Nat)} {c next : Option Nat} {l visited : List Nat} {i : Nat}
    (h : Chain link c l) (passed : visited ++ [i] <+: l) (found : link i = some next) :
    ∀ k ∈ next, visited ++ [i] ++ [k] <+: l := by
  obtain ⟨later, rfl⟩ := passed
  induction visited generalizing c with
  | nil =>
    obtain ⟨-, next', found', h⟩ := h
    cases found'.symm.trans found
    intro k m
    cases m
    cases later with
    | nil => cases h
    | cons j later =>
      cases h.1
      exact ⟨later, by simp⟩
  | cons j visited ih =>
    obtain ⟨-, next', -, h⟩ := h
    intro k m
    exact List.prefix_cons_iff.2 (.inr ⟨_, rfl, ih h k m⟩)

/-- While a round is in progress, no other one begins. -/
theorem Leads.no_round {w : World} {δ : Device} {act : Act} {s : Stride} {rest : List Act} (l : Leads w δ act s)
    (sound : Sound δ.scheduler (act :: rest)) (busy : .round ∈ rest) : .round ∉ s.acts := by
  cases l with
  | tick _ free => rw [sound.inRound.2 (List.mem_cons_of_mem _ busy)] at free; cases free
  | anotherRound => exact absurd busy sound.layered.1
  | _ => simp

section

variable {w : World} {δ : Device} {cached : Option Nat} {roster visited dispatched : List Nat} {act : Act} {rest : List Act}
  {s : Stride}

/-- Every step leaves the round at the place that agrees with what it did. -/
theorem Leads.tours (l : Leads w δ act s) (h : Tours cached roster (act :: rest) visited dispatched)
    (enrolled : Enrolled δ.scheduler (act :: rest) roster) (sound : Sound δ.scheduler (act :: rest))
    (busy : .round ∈ rest) : Tours cached roster (s.frames ++ rest) (visited ++ act.visits.toList)
      (dispatched ++ (δ.scheduler.dispatches act).toList) := by
  have stays : act.visits = none → δ.scheduler.dispatches act = none →
      Tours cached roster (s.acts ++ rest) visited dispatched → Tours cached roster (s.frames ++ rest)
        (visited ++ act.visits.toList) (dispatched ++ (δ.scheduler.dispatches act).toList) := by
    intro nowhere noOne h
    rw [nowhere, noOne, Option.toList_none, List.append_nil, List.append_nil]
    exact h.called
  have comes : ∀ i, act.visits = some i → δ.scheduler.dispatches act = none →
      Tours cached roster (s.acts ++ rest) (visited ++ [i]) dispatched → Tours cached roster (s.frames ++ rest)
        (visited ++ act.visits.toList) (dispatched ++ (δ.scheduler.dispatches act).toList) := by
    intro i there noOne h
    rw [there, noOne, Option.toList_none, List.append_nil]
    exact h.called
  have idle : (∀ a ∈ s.acts, a.apart) → act.visits = none → δ.scheduler.dispatches act = none →
      Tours cached roster (s.frames ++ rest) (visited ++ act.visits.toList)
        (dispatched ++ (δ.scheduler.dispatches act).toList) := fun apart nowhere noOne =>
    stays nowhere noOne (h.tail.push apart)
  -- Where the round stands, nothing below is part of its way.
  have under : ∀ {acts : List Act} {visited' dispatched' : List Nat}, act.turns → Tours cached roster acts visited' dispatched' →
      Tours cached roster (acts ++ rest) visited' dispatched' := fun turns h => h.under fun b m =>
    Act.apart_of_rests (sound.column.rests_of_turns sound.layered turns b m)
      (Sound.turns_head_of sound.column sound.layered turns b m)
  have state : ∀ {i : Nat} {t : Task}, δ.scheduler.arena.slot i = .ok t → (δ.scheduler.life i).state = t.state :=
    fun found => congrArg Life.state (Arena.life_of_slot found)
  have link : ∀ {i : Nat} {t : Task}, δ.scheduler.arena.slot i = .ok t → δ.scheduler.arena.link i = some t.next :=
    fun found => by rw [Arena.link, Arena.slot_eq_ok_iff.1 found, Option.map_some]
  have alone := l.no_round sound busy
  cases l with
  | tick | anotherRound => exact absurd (by simp) alone
  | remembered | nothingRemembered => exact absurd List.mem_cons_self h.late
  | ask ask => exact idle (by simp [Act.apart_of_op ask]) rfl rfl
  | asked r r' => exact idle (by simp [Act.apart_of_asks r']) rfl rfl
  | lengthAsked r => exact idle (by simp [Act.apart_of_asks r]) rfl rfl
  | refused r => exact idle (by simp [Act.apart]) rfl (by cases ‹Section› <;> rfl)
  | retarget =>
    obtain ⟨-, rfl, rfl⟩ := h.seen _ _ List.mem_cons_self
    exact stays rfl rfl (under rfl (.of_survey (.inl rfl) .nil))
  | dueFirst =>
    obtain ⟨rfl, rfl, rfl⟩ := h.seen _ _ List.mem_cons_self
    exact stays rfl rfl (under rfl ((Tours.of_survey (.inr rfl) .nil).look rfl rfl (.ahead rfl)))
  | @surveyed skip =>
    obtain ⟨known, order⟩ := h.way _ List.mem_cons_self skip rfl
    obtain rfl := h.survey skip List.mem_cons_self
    refine stays rfl rfl (under rfl (.of_walking known order List.nil_prefix fun k m => ?_))
    rw [enrolled.holds.chain.eq_head?] at m
    obtain ⟨later, rfl⟩ := List.head?_eq_some_iff.1 m
    exact ⟨later, rfl⟩
  | @looked skip i t other found =>
    obtain ⟨known, order⟩ := h.way _ List.mem_cons_self skip rfl
    have passed := h.cursor skip i List.mem_cons_self
    have walk := Tours.of_walking known (order.visit [i]) passed (enrolled.holds.chain.next_of_prefix passed (link found))
    exact comes i rfl rfl (under rfl (walk.look rfl rfl (.next other order)))
  | @passed skip i t _ found =>
    obtain ⟨known, order⟩ := h.way _ List.mem_cons_self skip rfl
    have passed := h.cursor skip i List.mem_cons_self
    exact comes i rfl rfl (under rfl (.of_walking known (order.visit [i]) passed
      (enrolled.holds.chain.next_of_prefix passed (link found))))
  | @due i => exact stays rfl rfl (h.relook (i := i) rfl rfl)
  | @renewing i t found active | @dispatched i t _ found active =>
    have one : δ.scheduler.dispatches (.dispatch i) = some i := if_pos ((state found).trans active)
    rw [one]
    refine .called (.push ?_ (by simp [Act.apart]))
    simpa [Act.visits] using h.dispatch sound.column sound.layered
  | @notDispatched i t found idle' =>
    exact stays rfl (if_neg fun active => idle' ((state found).symm.trans active)) h.tail
  | _ => exact idle (by simp [Act.apart]) rfl rfl

/-- The round begins: it looks at the task that the cache remembers, or goes along the queue. -/
theorem Leads.begins (l : Leads w δ .checkCache s) (apart : ∀ a ∈ rest, a.apart) :
    Tours δ.scheduler.cache.soonest roster (s.frames ++ rest) [] [] := by
  refine .called (.under ?_ apart)
  cases l with
  | remembered known => exact .of_cached known
  | nothingRemembered => exact .of_survey (.inl rfl) .nil

/-- A step of the round makes the way to the next slot shorter, and comes to another slot only if there is one. -/
theorem Leads.toll_le (l : Leads w δ act s) (free : .round ∉ s.acts) :
    (if 0 < act.toll then 1 else 0) + (s.frames.map Act.toll).sum ≤ act.toll + 6 * act.visits.toList.length := by
  have idle : (∀ a ∈ s.frames, a.toll = 0) → act.toll = 0 →
      (if 0 < act.toll then 1 else 0) + (s.frames.map Act.toll).sum ≤ act.toll + 6 * act.visits.toList.length := by
    intro frames here
    rw [here, if_neg (Nat.lt_irrefl 0), List.sum_eq_zero (by simpa using frames)]
    omega
  cases l with
  | tick | anotherRound => simp at free
  | ask ask => exact idle (by cases ask <;> simp [Stride.frames, Act.toll]) rfl
  | asked r r' => exact idle (by simp [Stride.frames, Act.toll_of_asks r']; rfl) (Act.toll_of_asks r)
  | lengthAsked r => exact idle (by simp [Stride.frames, Act.toll_of_asks r]; rfl) rfl
  | told r => exact idle (by simp [Stride.frames, Act.toll]) (Act.toll_of_asks r)
  | refused r => exact idle (by simp [Stride.frames, Act.toll]) (by cases ‹Section› <;> first | rfl | cases r)
  | _ => simp [Stride.frames, Act.toll, Act.visits]

/-- A handler is invoked for a dispatch, and no other one is about to be invoked. -/
theorem Leads.fires (l : Leads w δ act s) : ((δ.scheduler.invokes act).toList ++ s.frames.filterMap Act.fires).Sublist
    (act.fires.toList ++ (δ.scheduler.dispatches act).toList) := by
  have none : δ.scheduler.invokes act = none → s.frames.filterMap Act.fires = [] →
      ((δ.scheduler.invokes act).toList ++ s.frames.filterMap Act.fires).Sublist
        (act.fires.toList ++ (δ.scheduler.dispatches act).toList) := by
    intro h h'
    rw [h, h']
    exact List.nil_sublist _
  have life : ∀ {i : Nat} {t : Task}, δ.scheduler.arena.slot i = .ok t → δ.scheduler.life i = t.life := Arena.life_of_slot
  cases l with
  | @renewing i t found active | @dispatched i t _ found active =>
    have one : δ.scheduler.dispatches (.dispatch i) = some i := if_pos ((congrArg Life.state (life found)).trans active)
    rw [one]
    exact .refl [i]
  | @renew i => exact List.sublist_append_left [i] _
  | @fetched i t k found handler =>
    have one : δ.scheduler.invokes (.locked (.fetch i)) = some i :=
      if_pos (by rw [life found, Task.life, handler]; rfl)
    rw [one]
    exact .refl [i]
  | @unhandled i t found handler =>
    exact none (if_neg (by rw [life found, Task.life, handler]; simp)) rfl
  | ask ask => exact none rfl (by cases ask <;> rfl)
  | asked r r' => exact none rfl (by simp [Stride.frames, Act.fires_of_asks r']; rfl)
  | lengthAsked r => exact none rfl (by simp [Stride.frames, Act.fires_of_asks r]; rfl)
  | refused r => exact none (by cases ‹Section› <;> first | rfl | cases r) rfl
  | _ => exact none rfl rfl

/-- The tasks whose handlers ran, or are about to run, were dispatched in this order. -/
theorem Leads.invoked_sublist {invoked : List Nat} (l : Leads w δ act s) (sound : Sound δ.scheduler (act :: rest))
    (h : (invoked ++ (act :: rest).filterMap Act.fires).Sublist dispatched) :
    ((invoked ++ (δ.scheduler.invokes act).toList) ++ (s.frames ++ rest).filterMap Act.fires).Sublist
      (dispatched ++ (δ.scheduler.dispatches act).toList) := by
  have fires := l.fires
  have first : (act :: rest).filterMap Act.fires = act.fires.toList ++ rest.filterMap Act.fires := by
    cases fired : act.fires with
    | none => rw [List.filterMap_cons_none fired]; rfl
    | some i => rw [List.filterMap_cons_some fired]; rfl
  have split : (invoked ++ (δ.scheduler.invokes act).toList) ++ (s.frames ++ rest).filterMap Act.fires =
      invoked ++ ((δ.scheduler.invokes act).toList ++ s.frames.filterMap Act.fires) ++ rest.filterMap Act.fires := by
    simp [List.filterMap_append]
  rw [first] at h
  rw [split]
  cases one : δ.scheduler.dispatches act with
  | none =>
    rw [one, Option.toList_none, List.append_nil] at fires
    rw [Option.toList_none, List.append_nil, List.append_assoc]
    exact ((List.Sublist.refl invoked).append (fires.append (.refl _))).trans h
  | some i =>
    obtain rfl : act = .dispatch i := by
      cases act with
      | dispatch j =>
        obtain ⟨-, same⟩ := Option.ite_none_right_eq_some.1 one
        cases same
        rfl
      | _ => cases one
    obtain ⟨walk, below, rfl, walks, idle⟩ := sound.column.way_of_dispatch sound.layered
    -- Nothing below a dispatch is about to invoke a handler.
    have none : (walk :: below).filterMap Act.fires = [] := by
      refine List.filterMap_eq_nil_iff.2 fun b m => ?_
      rcases List.mem_cons.1 m with rfl | m
      · cases b <;> first | rfl | cases walks
      · exact Act.fires_of_rests (idle b m).1
    rw [none, List.append_nil] at h ⊢
    exact ((List.sublist_append_left _ _).trans h).append (one ▸ fires)

/-- The handlers that are invoked are those that the round invokes. -/
theorem Leads.invoked_eq (l : Leads w δ act s) : s.invoked = δ.scheduler.invokes act := by
  have life : ∀ {i : Nat} {t : Task}, δ.scheduler.arena.slot i = .ok t → δ.scheduler.life i = t.life := Arena.life_of_slot
  cases l with
  | fetched found handler => exact (if_pos (by rw [life found, Task.life, handler]; rfl)).symm
  | unhandled found handler => exact (if_neg (by rw [life found, Task.life, handler]; simp)).symm
  | refused r => cases ‹Section› <;> first | rfl | cases r
  | _ => rfl

end

/-! ## Along the round -/

/-- Without a round, nothing is left to do for one. -/
theorem Column.toll_eq_zero {acts : List Act} (h : Column acts) (free : .round ∉ acts) :
    ∀ a ∈ acts, a.toll = 0 ∧ a.fires = none := by
  intro a m
  have approaches := h.approaches_eq_none free a m
  have turns := h.no_turns free a m
  cases a with
  | reading r => cases r <;> first | exact ⟨rfl, rfl⟩ | cases approaches; done | cases turns
  | locked s => cases s <;> first | exact ⟨rfl, rfl⟩ | cases approaches; done | cases turns
  | settle => exact absurd (h.round_of_settle m) free
  | _ => first | exact ⟨rfl, rfl⟩ | cases approaches; done | cases turns

namespace View

variable {v v' : View} {cached : Option Nat} {fired : Nat → Nat} {b : Tour}

/-- A handler ran once more when the act of a round invokes it. -/
theorem length_fired_after {w : World} {act : Act} {s : Stride} (l : Leads w v.device act s) (i : Nat) :
    ((v.past.after v.clock act s).fired i).length =
      (v.past.fired i).length + (v.scheduler.invokes act).toList.count i := by
  show (v.past.fired i ++ if s.invoked = some i then [v.past.time] else []).length = _
  rw [l.invoked_eq, List.length_append]
  show _ + (if v.scheduler.invokes act = some i then [v.past.time] else []).length = _
  cases v.scheduler.invokes act with
  | none => rfl
  | some j => by_cases same : j = i <;> simp [same]

/-- What a round did so far agrees with what its device shows. When it began, the cache remembered `cached`, and the handlers
had run as often as `fired` says. -/
structure Underway (cached : Option Nat) (fired : Nat → Nat) (v : View) (b : Tour) : Prop where
  stands : (∃ rest, v.acts = .checkCache :: rest ∧ (∀ a ∈ rest, a.apart) ∧ v.scheduler.cache.soonest = cached ∧
      b.visited = [] ∧ b.dispatched = []) ∨
    Tours cached v.roster v.acts b.visited b.dispatched
  toll : b.steps + (v.acts.map Act.toll).sum ≤ 10 + 6 * b.visited.length
  invoked : (b.invoked ++ v.acts.filterMap Act.fires).Sublist b.dispatched
  fired : ∀ i, (v.past.fired i).length = fired i + b.invoked.count i

theorem Underway.begin {rest : List Act} (sound : v.Sound) (acts : v.acts = .checkCache :: rest) :
    v.Underway v.scheduler.cache.soonest (fun i => (v.past.fired i).length) .none := by
  have column : Column (.checkCache :: rest) := acts ▸ sound.column
  have layered : Layered (.checkCache :: rest) := acts ▸ sound.layered
  obtain ⟨below, rfl, free⟩ := column.round_of_turns layered rfl
  have idle := column.tail.tail.toll_eq_zero free
  have apart : ∀ a ∈ .round :: below, a.apart := fun a m => Act.apart_of_rests (column.rests_of_turns layered rfl a m)
    (Sound.turns_head_of column layered rfl a m)
  have tolls : (below.map Act.toll).sum = 0 := List.sum_eq_zero fun n m => by
    obtain ⟨a, ma, rfl⟩ := List.mem_map.1 m
    exact (idle a ma).1
  have fires : below.filterMap Act.fires = [] := List.filterMap_eq_nil_iff.2 fun a m => (idle a m).2
  refine ⟨.inl ⟨_, acts, apart, rfl, rfl, rfl⟩, ?_, ?_, fun i => rfl⟩
  · rw [acts, List.map_cons, List.map_cons, List.sum_cons, List.sum_cons, tolls]
    rfl
  · rw [acts, List.filterMap_cons_none rfl, List.filterMap_cons_none rfl, fires]
    exact .slnil

/-- When its device works, a round goes on, or a handler or an interrupt does. -/
theorem Underway.turn (h : v.Underway cached fired b) (sound : v.Sound) (ordered : v.Ordered) (busy : .round ∈ v.acts)
    (t : Turn v v') : v'.Underway cached fired (v.tour b) := by
  obtain ⟨more, grows⟩ := ordered.roster_grows sound busy t
  have toll := h.toll
  have invoked := h.invoked
  cases t with
  | @works w act s _ rest acts l =>
    have told : v.tour b = {
        dispatched := b.dispatched ++ (v.scheduler.dispatches act).toList
        invoked := b.invoked ++ (v.scheduler.invokes act).toList
        visited := b.visited ++ act.visits.toList
        steps := b.steps + if 0 < act.toll then 1 else 0 } := by rw [tour, acts]; rfl
    have sound : TimedTasks.Sound v.scheduler (act :: rest) := acts ▸ sound
    have busy : .round ∈ rest := by
      rw [acts] at busy
      exact (List.mem_cons.1 busy).resolve_left fun same => by subst same; cases l
    rw [told]
    rw [acts] at toll invoked
    refine ⟨.inr ?_, ?_, ?_, fun i => ?_⟩
    · rw [grows]
      refine .grow ?_ more
      rcases h.stands with ⟨rest', acts', apart, rfl, nowhere, noOne⟩ | tours
      · cases acts.symm.trans acts'
        rw [nowhere, noOne]
        exact l.begins apart
      · rw [acts] at tours
        exact l.tours tours (acts ▸ ordered.enrolled) sound busy
    · have le := l.toll_le (l.no_round sound busy)
      simp only [take, List.map_append, List.sum_append, List.length_append, List.map_cons, List.sum_cons] at toll ⊢
      omega
    · exact l.invoked_sublist sound invoked
    · show ((v.past.after v.clock act s).fired i).length = _
      rw [length_fired_after l, h.fired, List.count_append, Nat.add_assoc]
  | @delivers ms act s _ rest acts l =>
    have told : v.tour b = b := by
      rw [tour, acts]
      simp [Scheduler.dispatches, Scheduler.invokes, Act.visits, Act.toll]
    rw [told]
    rw [acts] at toll invoked
    have idle : ∀ a ∈ s.frames, a.apart ∧ a.toll = 0 ∧ a.fires = none := by
      cases l <;> simp [Stride.frames, Act.apart, Act.toll, Act.fires]
    refine ⟨.inr ?_, ?_, ?_, h.fired⟩
    · rw [grows]
      refine .grow ?_ more
      rcases h.stands with ⟨rest', acts', -⟩ | tours
      · cases acts.symm.trans acts'
      · rw [acts] at tours
        exact tours.tail.tail.push fun a m => (idle a m).1
    · have none : (s.frames.map Act.toll).sum = 0 := List.sum_eq_zero fun n m => by
        obtain ⟨a, ma, rfl⟩ := List.mem_map.1 m
        exact (idle a ma).2.1
      simp only [take, List.map_append, List.sum_append, List.map_cons, List.sum_cons] at toll ⊢
      omega
    · have none : s.frames.filterMap Act.fires = [] := List.filterMap_eq_nil_iff.2 fun a m => (idle a m).2.2
      have waits : act.fires = Option.none := by cases l <;> rfl
      rw [List.filterMap_cons_none rfl, List.filterMap_cons_none waits] at invoked
      simpa [take, List.filterMap_append, none] using invoked

theorem Underway.shift (h : v.Underway cached fired b) (t : Shift v v') : v'.Underway cached fired b := by
  have toll := h.toll
  have invoked := h.invoked
  cases t with
  | @drops act _ rest acts drops =>
    rw [acts] at toll invoked
    have none : act.toll = 0 ∧ act.fires = none := by cases act <;> first | exact ⟨rfl, rfl⟩ | cases drops
    refine ⟨.inr ?_, ?_, ?_, h.fired⟩
    · rcases h.stands with ⟨rest', acts', -⟩ | tours
      · cases acts.symm.trans acts'
        cases drops
      · rw [acts] at tours
        exact tours.tail
    · rwa [List.map_cons, List.sum_cons, none.1, Nat.zero_add] at toll
    · rwa [List.filterMap_cons_none none.2] at invoked
  | arrives self op takes =>
    refine ⟨.inr ?_, ?_, invoked, h.fired⟩
    · rcases h.stands with ⟨rest, acts, -⟩ | tours
      · cases takes .checkCache (by rw [acts]; rfl)
      · exact tours.cons rfl
    · rwa [List.map_cons, List.sum_cons, show (Act.perform self op).toll = 0 from rfl, Nat.zero_add]

end View

/-! ## The end of a round -/

/-- The round of a device goes on once what is on top of the stack came to its end. -/
inductive GoesOn (d : Nat) : List Frame → Prop
  | own {act rest} : 0 < act.toll → GoesOn d (⟨d, act⟩ :: rest)
  | ends {ms rest} : GoesOn d (⟨d, .deadline ms⟩ :: rest)
  | interrupts {call bodies rest} : GoesOn d rest → GoesOn d (⟨d, .interrupts call bodies⟩ :: rest)
  | handler {self ops i k p rest} : GoesOn d rest → GoesOn d (⟨d, .block self ops⟩ :: ⟨d, .handling i k p⟩ :: rest)

/-- A step of the round leaves what the round goes on with, under the handler or the interrupts that come first. -/
theorem Leads.goesOn {w : World} {δ : Device} {d : Nat} {act : Act} {s : Stride} {rest : List Frame} (l : Leads w δ act s)
    (own : 0 < act.toll) (stacked : Stacked (⟨d, act⟩ :: rest)) : GoesOn d (s.frames.map (⟨d, ·⟩) ++ rest) := by
  -- An act that leaves nothing was on one with which the round goes on.
  have under : act.calls = false → (∀ b, act.Sits b → 0 < b.toll) → GoesOn d rest := by
    intro calls toll
    cases rest with
    | nil =>
      have called : act.calls := stacked.1
      rw [calls] at called
      cases called
    | cons g rest =>
      rcases g with ⟨e, b⟩
      obtain ⟨sits, same⟩ := stacked.1
      obtain rfl : e = d := same.resolve_left fun called => by rw [calls] at called; cases called
      exact .own (toll b sits)
  have walk : ∀ b : Act, b.walks → 0 < b.toll := fun b walks => by cases b <;> first | exact Nat.succ_pos _ | cases walks
  cases l with
  | remembered | walked | scan | renewing | looked | renew | dispatched => exact .interrupts (.own (Nat.succ_pos _))
  | nothingRemembered | retarget | surveyed | passed | dueFirst | due => exact .own (Nat.succ_pos _)
  | wait | adopted => exact .ends
  | notDue | notDispatched | settled => exact under rfl walk
  | unhandled => exact under rfl fun b same => by cases (show b = _ from same); exact Nat.succ_pos _
  | fetched =>
    refine .handler ?_
    have sits := stacked.1
    cases rest with
    | nil => cases sits
    | cons g rest =>
      rcases g with ⟨e, b⟩
      obtain ⟨same, here⟩ := sits
      cases (show b = _ from same)
      obtain rfl : e = d := here.resolve_left nofun
      exact .own (Nat.succ_pos _)
  | asked r | told r => rw [Act.toll_of_asks r] at own; cases own
  | refused r => cases ‹Section› <;> first | cases r; done | cases own
  | _ => cases own

/-- Something is above the frames `below`. -/
def Exceeds (below stack : List Frame) : Prop := ∃ above f, stack = above ++ f :: below

namespace Exceeds

variable {below stack : List Frame}

theorem push (h : Exceeds below stack) (front : List Frame) : Exceeds below (front ++ stack) := by
  obtain ⟨above, f, rfl⟩ := h
  exact ⟨front ++ above, f, by simp⟩

theorem tail {f : Frame} (h : Exceeds below (f :: stack)) (other : stack ≠ below) : Exceeds below stack := by
  obtain ⟨above, g, same⟩ := h
  cases above with
  | nil =>
    cases same
    exact absurd rfl other
  | cons a above =>
    cases same
    exact ⟨above, g, rfl⟩

theorem within {x : Moment} (h : Exceeds below stack) (top : x.machine.stack = stack) : x.Within below := by
  rw [Moment.Within, top]
  exact h

end Exceeds

/-- A round does not wait for itself. -/
theorem GoesOn.ne_round {d : Nat} {stack below : List Frame} (h : GoesOn d stack) : stack ≠ ⟨d, .round⟩ :: below := by
  rintro rfl
  cases h with
  | own toll => cases toll

namespace Moment

/-- The blocks of handlers and interrupts that run while a call above `below` is in progress come to their end. -/
def Returns (below : List Frame) (x : Moment) : Prop :=
  ∀ z e self ops rest, Run (·.Within below) x z → z.machine.stack = ⟨e, .block self ops⟩ :: rest →
    ∃ w, Run (·.Within below) z w ∧ w.machine.stack = rest

theorem Within.exceeds {x : Moment} {below stack : List Frame} (h : x.Within below) (top : x.machine.stack = stack) :
    Exceeds below stack := by
  rw [Within, top] at h
  exact h

/-- When its deadline is taken, a round is over. -/
theorem Next.stack_of_deadline {x y : Moment} {d e : Nat} {ms : Option UInt32} {rest : List Frame} (next : x.Next y)
    (top : x.machine.stack = ⟨e, .deadline ms⟩ :: ⟨d, .round⟩ :: rest) : y.machine.stack = ⟨d, .deadline ms⟩ :: rest := by
  obtain ⟨_, _, _, δ, s, same, -, l, takes⟩ := next.delivers_of_top top
  cases same
  cases l
  exact takes.stack

section Returns

variable {s : Setup} {x y z : Moment} {d : Nat} {below rest : List Frame}

theorem Returns.later (h : x.Returns below) (r : Run (·.Within below) x z) : z.Returns below :=
  fun w e self ops rest r' top => h w e self ops rest (r.trans r') top

/-- The interrupts of a call on the board come to their end. -/
theorem Returns.interrupts {call : BoardCall} {bodies : List (List Op)} (h : z.Returns below)
    (r : Run (fun _ => True) (initial s) z) (top : z.machine.stack = ⟨d, .interrupts call bodies⟩ :: rest)
    (exceeds : Exceeds below rest) : ∃ w, Run (·.Within below) z w ∧ w.machine.stack = rest := by
  induction bodies generalizing z with
  | nil =>
    obtain ⟨z', next⟩ := next_of_top r top rfl
    obtain ⟨δ, t, -, l, takes⟩ := next.leads_of_top top rfl
    have within : z.Within below := (exceeds.push [_]).within top
    cases l with
    | interruptsEnd => exact ⟨z', (Run.here within).more next (exceeds.within takes.stack), takes.stack⟩
  | cons body bodies ih =>
    obtain ⟨z', next⟩ := next_of_top r top rfl
    obtain ⟨δ, t, -, l, takes⟩ := next.leads_of_top top rfl
    have within : z.Within below := (exceeds.push [_]).within top
    cases l with
    | interruptsNext =>
      have stack : z'.machine.stack = ⟨d, .block none body⟩ :: ⟨d, .interrupts call bodies⟩ :: rest := takes.stack
      have step : Run (·.Within below) z z' := (Run.here within).more next ((exceeds.push [_, _]).within stack)
      obtain ⟨w, block, stackw⟩ := h.later step _ _ _ _ _ (.here step.last) stack
      have here := step.trans block
      obtain ⟨w', interrupts, stackw'⟩ := ih (h.later here) (r.trans (here.mono fun _ _ => trivial)) stackw
      exact ⟨w', here.trans interrupts, stackw'⟩

/-- After a handler that runs for the last time asks for a shutdown, too, its dispatch goes on. -/
theorem Returns.handling {i k : Nat} {p : Payload} (h : z.Returns below) (r : Run (fun _ => True) (initial s) z)
    (top : z.machine.stack = ⟨d, .handling i k p⟩ :: rest) (exceeds : Exceeds below rest) :
    ∃ w, Run (·.Within below) z w ∧ w.machine.stack = rest := by
  obtain ⟨z', next⟩ := next_of_top r top rfl
  obtain ⟨δ, t, -, l, takes⟩ := next.leads_of_top top rfl
  have within : z.Within below := (exceeds.push [_]).within top
  cases l with
  | handled => exact ⟨z', (Run.here within).more next (exceeds.within takes.stack), takes.stack⟩
  | handledLast =>
    have stack : z'.machine.stack = ⟨d, .interrupts .lock _⟩ :: ⟨d, .locked .shutdown⟩ :: ⟨d, .discard⟩ :: rest := takes.stack
    have step : Run (·.Within below) z z' := (Run.here within).more next ((exceeds.push [_, _, _]).within stack)
    obtain ⟨w, interrupts, stackw⟩ := (h.later step).interrupts (r.trans (step.mono fun _ _ => trivial)) stack
      (exceeds.push [_, _])
    have here := step.trans interrupts
    obtain ⟨w', next'⟩ := next_of_top (r.trans (here.mono fun _ _ => trivial)) stackw rfl
    obtain ⟨δ', t', -, l', takes'⟩ := next'.leads_of_top stackw rfl
    cases l' with
    | refused refuses => cases refuses
    | shutdown =>
      have stack' : w'.machine.stack = ⟨d, .answered .done⟩ :: ⟨d, .discard⟩ :: rest := takes'.stack
      have here := here.more next' ((exceeds.push [_, _]).within stack')
      obtain ⟨w'', next''⟩ := next_of_top (r.trans (here.mono fun _ _ => trivial)) stack' rfl
      have left := next''.stack_of_answer stack'
      exact ⟨w'', here.more next'' (exceeds.within left), left⟩

/-- The round goes on once handlers and interrupts came to their end. -/
theorem Returns.goesOn {stack : List Frame} (goesOn : GoesOn d stack) (h : z.Returns (⟨d, .round⟩ :: below))
    (r : Run (fun _ => True) (initial s) z) (top : z.machine.stack = stack) (within : z.Within (⟨d, .round⟩ :: below)) :
    ∃ w act rest, Run (·.Within (⟨d, .round⟩ :: below)) z w ∧ w.machine.stack = ⟨d, act⟩ :: rest ∧
      (0 < act.toll ∨ ∃ ms, act = .deadline ms) := by
  induction goesOn generalizing z with
  | own toll => exact ⟨z, _, _, .here within, top, .inl toll⟩
  | ends => exact ⟨z, _, _, .here within, top, .inr ⟨_, rfl⟩⟩
  | interrupts goesOn ih =>
    have exceeds : Exceeds _ _ := (within.exceeds top).tail goesOn.ne_round
    obtain ⟨w, run, stack⟩ := h.interrupts r top exceeds
    obtain ⟨w', act, rest, run', top', own⟩ := ih (h.later run) (r.trans (run.mono fun _ _ => trivial)) stack run.last
    exact ⟨w', act, rest, run.trans run', top', own⟩
  | handler goesOn ih =>
    have exceeds : Exceeds _ _ := ((within.exceeds top).tail (by simp)).tail goesOn.ne_round
    obtain ⟨w, run, stack⟩ := h z _ _ _ _ (.here within) top
    obtain ⟨w', run', stack'⟩ := (h.later run).handling (r.trans (run.mono fun _ _ => trivial)) stack exceeds
    have run := run.trans run'
    obtain ⟨w'', act, rest, run'', top', own⟩ := ih (h.later run) (r.trans (run.mono fun _ _ => trivial)) stack' run.last
    exact ⟨w'', act, rest, run.trans run'', top', own⟩

end Returns

/-! ## Rounds in order -/

end Moment

/-- A round was in order so far. When it began the cache remembered `cached`, and by now the queue is `queue`. -/
structure Tour.Regular (b : Tour) (cached : Option Nat) (queue : List Nat) : Prop where
  /-- The task that the cache remembered may go first. All others are in the order of the queue. -/
  dispatched : ∃ ahead rest, b.dispatched = Option.toList ahead ++ rest ∧ (∀ i ∈ ahead, cached = some i ∧ i ∉ rest) ∧
    rest.Sublist queue
  once : b.dispatched.Nodup
  invoked : b.invoked.Sublist b.dispatched
  /-- The round came to the slots of the queue one after the other, to each of them once. -/
  visited : b.visited <+: queue
  distinct : b.visited.Nodup
  short : b.steps ≤ 10 + 6 * b.visited.length

theorem View.Underway.regular {v : View} {cached : Option Nat} {fired : Nat → Nat} {b : Tour} (h : v.Underway cached fired b)
    (ordered : v.Ordered) : b.Regular cached v.roster := by
  have nodup := ordered.enrolled.holds.nodup
  have short : b.steps ≤ 10 + 6 * b.visited.length := Nat.le_trans (Nat.le_add_right _ _) h.toll
  have invoked : b.invoked.Sublist b.dispatched := (List.sublist_append_left _ _).trans h.invoked
  rcases h.stands with ⟨rest, -, -, -, nowhere, noOne⟩ | tours
  · refine ⟨⟨none, [], noOne, nofun, List.nil_sublist _⟩, noOne ▸ List.nodup_nil, invoked, ?_, ?_, short⟩
    · rw [nowhere]
      exact List.nil_prefix
    · rw [nowhere]
      exact List.nodup_nil
  · obtain ⟨skip, known, ahead, rest, dispatched, first, sub, others⟩ := tours.order
    have rest_nodup : rest.Nodup := (nodup.sublist tours.passed.sublist).sublist sub
    have out : ∀ i ∈ ahead, cached = some i ∧ i ∉ rest := by
      intro i m
      rcases first with rfl | rfl
      · cases m
      · refine ⟨?_, others i m⟩
        rcases known with rfl | rfl
        · cases m
        · exact m
    refine ⟨⟨ahead, rest, dispatched, out, sub.trans tours.passed.sublist⟩, ?_, invoked, tours.passed,
      nodup.sublist tours.passed.sublist, short⟩
    rw [dispatched]
    cases ahead with
    | none => exact rest_nodup
    | some i => exact List.nodup_cons.2 ⟨(out i rfl).2, rest_nodup⟩

namespace Moment

variable {P : Moment → Prop} {s : Setup} {x y : Moment} {d : Nat} {below : List Frame} {δ : Device} {tour : Tour}

/-- When a round begins, its frames are right above `below`. -/
theorem round_of_top (stacked : Stacked x.machine.stack) (top : x.machine.stack = ⟨d, .checkCache⟩ :: below) :
    ∃ rest, below = ⟨d, .round⟩ :: rest := by
  rw [top] at stacked
  cases below with
  | nil => cases stacked.1
  | cons g rest =>
    rcases g with ⟨e, act⟩
    obtain ⟨sits, same⟩ := stacked.1
    obtain rfl : act = .round := sits
    obtain rfl : e = d := same.resolve_left nofun
    exact ⟨rest, rfl⟩

/-- What a round did agrees with what its device shows, as long as the round is in progress. -/
theorem underway {rest : List Frame} (r : Run P (initial s) x)
    (top : x.machine.stack = ⟨d, .checkCache⟩ :: ⟨d, .round⟩ :: rest) (found : x.machine.world.devices[d]? = some δ)
    (toured : Traced (·.Within (⟨d, .round⟩ :: rest)) (recording d View.tour) .none x y tour) {v : View}
    (h : y.view d = some v) :
    v.Underway δ.scheduler.cache.soonest (x.machine.world.invocations d) tour ∧ v.Ordered ∧
      v.scheduler.capacity = δ.scheduler.capacity := by
  have r' : Run (fun _ => True) (initial s) x := r.mono fun _ _ => trivial
  have known := toured.also fun z run => r'.trans (run.mono fun _ _ => trivial)
  refine ⟨?_, ordered known.run.last.2 h, ?_⟩
  · refine view_of_record_from (Q := fun u => u.Sound ∧ u.Ordered ∧ .round ∈ u.acts) known (stacked_of_run r)
      (fun z u p hu => ⟨sound p.2 hu, ordered p.2 hu, ?_⟩) (fun u b idle => ?_) (fun u hu => ?_)
      (fun u u' b i q t _ => i.turn q.1 q.2.1 q.2.2 t) (fun u u' b i t => i.shift t) h
    · obtain ⟨above, f, stack⟩ := p.1
      rw [(view_eq_some hu).2.1]
      exact mem_pending.2 (by rw [stack]; simp)
    · unfold View.tour
      cases acts : u.acts with
      | nil => rfl
      | cons act rest =>
        have waits : act.waits := idle act (by rw [acts]; rfl)
        cases act <;> first | cases waits; done | simp [Scheduler.dispatches, Scheduler.invokes, Act.visits, Act.toll]
    · have shown := view_of_device found
      rw [top, pending_same] at shown
      cases shown.symm.trans hu
      have begins := View.Underway.begin (sound r hu) rfl
      exact { begins with fired := fun i => (length_fired r i) }
  · refine view_of_run_from (I := fun u => u.scheduler.capacity = δ.scheduler.capacity) (Q := fun _ => True) known.run
      (stacked_of_run r) (fun _ _ _ _ => trivial) (fun u hu => ?_) (fun u u' i _ t _ => t.size_eq.trans i)
      (fun u u' i t => ?_) h
    · cases found.symm.trans (view_eq_some hu).1
      rfl
    · cases t <;> exact i

/-- A step of the round leaves it in progress. -/
theorem next_of_own {act : Act} {rest rest' : List Frame} (r : Run P (initial s) y) (within : y.Within (⟨d, .round⟩ :: rest))
    (top : y.machine.stack = ⟨d, act⟩ :: rest') (own : 0 < act.toll) :
    ∃ z, y.Next z ∧ z.Within (⟨d, .round⟩ :: rest) ∧ GoesOn d z.machine.stack := by
  obtain ⟨z, next⟩ := next_of_top r top (by cases act <;> first | rfl | cases own)
  obtain ⟨δ, t, -, l, takes⟩ := next.leads_of_top top (by cases act <;> first | rfl | cases own)
  have goesOn := l.goesOn own (top ▸ stacked_of_run r)
  refine ⟨z, next, ?_, takes.stack ▸ goesOn⟩
  by_cases lowest : rest' = ⟨d, .round⟩ :: rest
  · subst lowest
    rcases List.eq_nil_or_concat (t.frames.map (Frame.mk d)) with none | ⟨front, last, frames⟩
    · rw [none] at goesOn
      exact absurd rfl goesOn.ne_round
    · refine ⟨front, last, ?_⟩
      rw [takes.stack, frames]
      simp
  · exact (((within.exceeds top).tail lowest).push _).within takes.stack

/-- The steps of a round only become more. -/
theorem steps_le {b b' : Tour} (t : Traced P (recording d View.tour) b x y b') : b.steps ≤ b'.steps := by
  induction t with
  | here => exact Nat.le_refl _
  | @more y z b' t _ _ ih =>
    refine Nat.le_trans ih ?_
    unfold recording
    split
    · unfold View.tour
      split
      · exact Nat.le_add_right _ _
      · exact Nat.le_refl _
    · exact Nat.le_refl _

/-- The deadline of the round in progress lies right on the frames that it began on. -/
theorem stack_of_deadline {rest rest' : List Frame} {ms : Option UInt32} {v : View} (sound : v.Sound) (h : y.view d = some v)
    (stacked : Stacked y.machine.stack) (within : y.Within (⟨d, .round⟩ :: rest))
    (top : y.machine.stack = ⟨d, .deadline ms⟩ :: rest') : rest' = ⟨d, .round⟩ :: rest := by
  by_contra other
  have exceeds : Exceeds _ rest' := (within.exceeds top).tail other
  obtain ⟨g, tail, rfl, under⟩ : ∃ g tail, rest' = g :: tail ∧ (⟨d, .round⟩ : Frame) ∈ tail := by
    obtain ⟨above, f, rfl⟩ := exceeds
    cases above <;> exact ⟨_, _, rfl, by simp⟩
  obtain ⟨e, act⟩ := g
  rw [top] at stacked
  obtain ⟨sits, same⟩ := stacked.1
  obtain rfl : e = d := same.resolve_left nofun
  have acts : v.acts = .deadline ms :: act :: pending e tail := by rw [(view_eq_some h).2.1, top, pending_same, pending_same]
  have column : Column (.deadline ms :: act :: pending e tail) := acts ▸ sound.column
  have layered : Layered (.deadline ms :: act :: pending e tail) := acts ▸ sound.layered
  have busy : .round ∈ pending e tail := mem_pending.2 under
  rcases sits with same | loops
  · obtain rfl : act = .round := same
    exact column.tail.alone layered.2 busy
  · have rests := layered.2.1
    cases act <;> first | cases loops; done | exact rests busy

/-- The device of a round stays there. -/
theorem view_within {f : Frame} {rest : List Frame} (r : Run P (initial s) x) (found : x.machine.world.devices[d]? = some δ)
    (run : Run (·.Within (f :: rest)) x y) : ∃ v, y.view d = some v := by
  have bound : d < s.devices.length := by
    rw [← (furnishing r).1]
    exact (Array.getElem?_eq_some_iff.1 found).1
  obtain ⟨δ', found'⟩ := device_of_lt ((r.mono fun _ _ => trivial).trans (run.mono fun _ _ => trivial)) bound
  exact ⟨_, view_of_device found'⟩

/-- As long as a round is in progress, it is in order. -/
theorem regular_of_traced {rest : List Frame} (r : Run P (initial s) x)
    (top : x.machine.stack = ⟨d, .checkCache⟩ :: ⟨d, .round⟩ :: rest) (found : x.machine.world.devices[d]? = some δ)
    (toured : Traced (·.Within (⟨d, .round⟩ :: rest)) (recording d View.tour) .none x y tour) :
    tour.Regular δ.scheduler.cache.soonest (y.queued d) ∧ tour.visited.length ≤ δ.scheduler.capacity ∧
      ∀ i, y.machine.world.invocations d i = x.machine.world.invocations d i + if i ∈ tour.invoked then 1 else 0 := by
  have r' : Run (fun _ => True) (initial s) y := (r.mono fun _ _ => trivial).trans (toured.run.mono fun _ _ => trivial)
  obtain ⟨v, h⟩ := view_within r found toured.run
  obtain ⟨underway, ordered, capacity⟩ := underway r top found toured h
  have regular := underway.regular ordered
  have queued : y.queued d = v.roster := queued_eq (view_eq_some h).1 (Queue.members_of_holds ordered.enrolled.holds)
  refine ⟨queued ▸ regular, ?_, fun i => ?_⟩
  · rw [← capacity]
    exact Nat.le_trans regular.visited.length_le ordered.enrolled.holds.length_le
  · have fired := underway.fired i
    rw [(view_eq_some h).2.2, length_fired r' i] at fired
    rw [fired, (regular.once.sublist regular.invoked).count]

/-- If handlers and interrupts come to their end, a round that is not over makes another step of its own. -/
theorem round_goes_on {act : Act} {rest rest' : List Frame} (r : Run P (initial s) x)
    (found : x.machine.world.devices[d]? = some δ) (returns : x.Returns (⟨d, .round⟩ :: rest))
    (toured : Traced (·.Within (⟨d, .round⟩ :: rest)) (recording d View.tour) .none x y tour)
    (here : y.machine.stack = ⟨d, act⟩ :: rest') (own : 0 < act.toll) : ∃ z tour' act' rest'',
      Traced (·.Within (⟨d, .round⟩ :: rest)) (recording d View.tour) .none x z tour' ∧
      z.machine.stack = ⟨d, act'⟩ :: rest'' ∧ (0 < act'.toll ∨ ∃ ms, act' = .deadline ms) ∧ tour.steps < tour'.steps := by
  have r' : ∀ {y}, Run (·.Within (⟨d, .round⟩ :: rest)) x y → Run (fun _ => True) (initial s) y := fun run =>
    (r.mono fun _ _ => trivial).trans (run.mono fun _ _ => trivial)
  obtain ⟨z, next, within, goesOn⟩ := next_of_own (r' toured.run) toured.run.last here own
  have stepped := toured.more next within
  obtain ⟨w, act', rest'', back, top', own'⟩ := (returns.later stepped.run).goesOn goesOn (r' stepped.run) rfl within
  obtain ⟨tour', told⟩ := back.traced (recording d View.tour) (recording d View.tour y tour)
  refine ⟨w, tour', act', rest'', stepped.trans told, top', own', Nat.lt_of_lt_of_le ?_ (steps_le told)⟩
  obtain ⟨v, h⟩ := view_within r found toured.run
  have acts : v.acts = act :: pending d rest' := by rw [(view_eq_some h).2.1, here, pending_same]
  have counted : (recording d View.tour y tour).steps = tour.steps + 1 := by
    rw [recording, h]
    show (v.tour tour).steps = _
    rw [View.tour, acts]
    exact congrArg (tour.steps + ·) (if_pos own)
  exact Nat.lt_of_lt_of_eq (Nat.lt_succ_self _) counted.symm

/-- If handlers and interrupts come to their end, a round does. -/
theorem round_ends {rest : List Frame} (r : Run P (initial s) x)
    (top : x.machine.stack = ⟨d, .checkCache⟩ :: ⟨d, .round⟩ :: rest) (found : x.machine.world.devices[d]? = some δ)
    (returns : x.Returns (⟨d, .round⟩ :: rest)) :
    ∃ y ms, Run (·.Within (⟨d, .round⟩ :: rest)) x y ∧ y.machine.stack = ⟨d, .deadline ms⟩ :: ⟨d, .round⟩ :: rest := by
  -- The induction is on the steps that the round can still make.
  suffices ends : ∀ n y tour act rest', 10 + 6 * δ.scheduler.capacity - tour.steps = n →
      Traced (·.Within (⟨d, .round⟩ :: rest)) (recording d View.tour) .none x y tour →
      y.machine.stack = ⟨d, act⟩ :: rest' → (0 < act.toll ∨ ∃ ms, act = .deadline ms) →
      ∃ z ms, Run (·.Within (⟨d, .round⟩ :: rest)) x z ∧ z.machine.stack = ⟨d, .deadline ms⟩ :: ⟨d, .round⟩ :: rest from
    ends _ x .none _ _ rfl (.here ⟨[], _, top⟩) top (.inl (Nat.succ_pos _))
  intro n
  induction n using Nat.strong_induction_on with
  | _ n ih =>
    rintro y tour act rest' rfl toured here (own | ⟨ms, rfl⟩)
    · obtain ⟨z, tour', act', rest'', toured', here', own', more⟩ := round_goes_on r found returns toured here own
      obtain ⟨regular, visited, -⟩ := regular_of_traced r top found toured'
      have short := regular.short
      exact ih _ (by omega) z tour' act' rest'' rfl toured' here' own'
    · have r' : Run (fun _ => True) (initial s) y := (r.mono fun _ _ => trivial).trans (toured.run.mono fun _ _ => trivial)
      obtain ⟨v, h⟩ := view_within r found toured.run
      obtain rfl := stack_of_deadline (sound r' h) h (stacked_of_run r') toured.run.last here
      exact ⟨y, ms, toured.run, here⟩

/-- A block is in progress until what is below it goes on. -/
theorem block_ends {e : Nat} {self : Option Nat} {ops : List Op} {rest : List Frame} (run : Run P x y)
    (stacked : Stacked x.machine.stack) (top : x.machine.stack = ⟨e, .block self ops⟩ :: rest) :
    (∃ w, Run P x w ∧ w.machine.stack = rest) ∨ ∃ above ops, y.machine.stack = above ++ ⟨e, .block self ops⟩ :: rest := by
  suffices h : ((∃ w, Run P x w ∧ w.machine.stack = rest) ∨
      ∃ above ops, y.machine.stack = above ++ ⟨e, .block self ops⟩ :: rest) ∧ Stacked y.machine.stack from h.1
  induction run with
  | here => exact ⟨.inr ⟨[], ops, top⟩, stacked⟩
  | @more y z run next p ih =>
    obtain ⟨returned | ⟨above, ops, stack⟩, stackedY⟩ := ih
    · exact ⟨.inl returned, next.machine.turn.stacked stackedY⟩
    refine ⟨?_, next.machine.turn.stacked stackedY⟩
    cases above with
    | nil =>
      obtain ⟨δ, t, -, l, takes⟩ := next.leads_of_top stack rfl
      cases l with
      | blockEnd => exact .inl ⟨z, run.more next p, takes.stack⟩
      | @blockNext _ op ops => exact .inr ⟨[⟨e, .perform self op⟩, ⟨e, .report op.name⟩], ops, takes.stack⟩
    | cons a above =>
      obtain ⟨above', kept⟩ := next.machine.turn.keeps_of_no_result stackedY stack ⟨nofun, rfl⟩ rfl
      exact .inr ⟨above', ops, kept⟩

/-- If a round comes to its end, so did the handlers and interrupts that ran meanwhile. -/
theorem returns_of_ends {rest : List Frame} {ms : Option UInt32} (r : Run P (initial s) x)
    (run : Run (·.Within (⟨d, .round⟩ :: rest)) x y) (top : y.machine.stack = ⟨d, .deadline ms⟩ :: ⟨d, .round⟩ :: rest) :
    x.Returns (⟨d, .round⟩ :: rest) := by
  intro z e self ops rest' run' block
  have stacked : Stacked z.machine.stack := stacked_of_run ((r.mono fun _ _ => trivial).trans (run'.mono fun _ _ => trivial))
  have busy : ∀ z : Moment, z.Within (⟨d, .round⟩ :: rest) → z.machine.stack ≠ [] := by
    rintro z ⟨above, f, stack⟩ none
    rw [none] at stack
    cases above <;> cases stack
  rcases run.meets busy run' with ahead | behind
  · have exceeds : Exceeds _ rest' := (ahead.first.exceeds block).tail fun lowest => by
      rw [block, lowest] at stacked
      rcases stacked.1.1 with ⟨_, _, same⟩ | ⟨_, _, _, same⟩ | same <;> cases same
    rcases block_ends ahead stacked block with ends | ⟨above, ops', stack⟩
    · exact ends
    · obtain ⟨above', f, rfl⟩ := exceeds
      have length := congrArg List.length (top.symm.trans stack)
      simp only [List.length_cons, List.length_append] at length
      omega
  · -- After its end, the round is not in progress any more.
    rcases behind.here_or_next with rfl | ⟨z', next, later⟩
    · cases top.symm.trans block
    · exfalso
      obtain ⟨above, f, stack⟩ := later.first
      have length := congrArg List.length ((next.stack_of_deadline top).symm.trans stack)
      simp only [List.length_cons, List.length_append] at length
      omega

/-- A round that is in progress goes on to be, as long as its deadline is not there and its frame is not on top. -/
theorem Within.next_of_round {rest : List Frame} (h : y.Within (⟨d, .round⟩ :: rest)) (next : y.Next z) :
    z.Within (⟨d, .round⟩ :: rest) ∨ z.machine.stack = ⟨d, .round⟩ :: rest ∨
      ∃ e ms, y.machine.stack = ⟨e, .deadline ms⟩ :: ⟨d, .round⟩ :: rest := by
  obtain ⟨above, g, stack⟩ := h
  obtain ⟨a, above', stack'⟩ : ∃ a above', y.machine.stack = a :: above' ++ ⟨d, .round⟩ :: rest := by
    rw [stack]
    cases above with
    | nil => exact ⟨g, [], rfl⟩
    | cons a above => exact ⟨a, above ++ [g], by simp⟩
  rcases next.machine.turn.keeps stack' with ⟨above'', kept⟩ | ⟨rfl, ms, deadline⟩ | ⟨-, takes, -⟩
  · rcases List.eq_nil_or_concat above'' with rfl | ⟨front, last, rfl⟩
    · exact .inr (.inl kept)
    · exact .inl ⟨front, last, by rw [kept]; simp⟩
  · rcases a with ⟨e, act⟩
    cases deadline
    exact .inr (.inr ⟨e, ms, stack'⟩)
  · cases takes

/-- A round is in progress as long as there are enough frames. -/
theorem within_of_long {f : Frame} {rest : List Frame} (run : Run P x y) (top : x.machine.stack = f :: ⟨d, .round⟩ :: rest)
    (long : ∀ z, P z → rest.length + 1 < z.machine.stack.length) : y.Within (⟨d, .round⟩ :: rest) := by
  induction run with
  | here => exact ⟨[], f, top⟩
  | @more y z run next p ih =>
    have length := long z p
    rcases ih.next_of_round next with within | done | ⟨e, ms, ended⟩
    · exact within
    · rw [done, List.length_cons] at length
      omega
    · rw [next.stack_of_deadline ended, List.length_cons] at length
      omega

/-- Each round is in order, and comes to its end. The tasks that a round dispatches are, perhaps, the one that the cache
remembered when the round began, and then others, in the order of the queue as it is in the end; it dispatches none of them
twice, and invokes no other handlers than theirs, and none twice. It comes to the slots of the queue one after the other, to
each of them once, though handlers and interrupts of all kinds may run on the way and put more tasks at the end of the queue.
So its steps are as few as the slots of the arena allow, and if those handlers and interrupts come to their end, so does the
round. -/
theorem rounds_in_order (r : Run P (initial s) x) (top : x.machine.stack = ⟨d, .checkCache⟩ :: below)
    (found : x.machine.world.devices[d]? = some δ) :
    (∀ y tour, Traced (·.Within below) (recording d View.tour) .none x y tour →
      tour.Regular δ.scheduler.cache.soonest (y.queued d) ∧ tour.visited.length ≤ δ.scheduler.capacity ∧
      ∀ i, y.machine.world.invocations d i = x.machine.world.invocations d i + if i ∈ tour.invoked then 1 else 0) ∧
    (x.Returns below → ∃ y ms, Run (·.Within below) x y ∧ y.machine.stack = ⟨d, .deadline ms⟩ :: below) := by
  obtain ⟨rest, rfl⟩ := round_of_top (stacked_of_run r) top
  exact ⟨fun y tour toured => regular_of_traced r top found toured, round_ends r top found⟩

/-- The handler of the second task configures a third one and starts it. -/
def extensible : Setup :=
  ⟨[⟨4, 0, [], []⟩], false, [], [[[]], [[.configure (.slot 2) 0 0 false, .start (.slot 2)]]], 9, false⟩

def extensibleCalls : List (Nat × Op) :=
  [(0, .declare), (0, .declare), (0, .declare), (0, .declare), (0, .init), (0, .configure (.slot 0) 0 10 false),
    (0, .configure (.slot 1) 1 5 false), (0, .start (.slot 0)), (0, .start (.slot 1)), (0, .tick), (0, .advance 10),
    (0, .hook .lock 0 [.configure (.slot 3) 0 10 false]), (0, .tick)]

/-- An interrupt and the handler of the task that goes first put two tasks on the queue, and the round comes to them, too. -/
theorem rounds_in_order_of_newcomers : ∃ (x y : Moment) (below : List Frame) (tour : Tour),
    x.machine.stack = ⟨0, .checkCache⟩ :: below ∧
    Traced (·.Within below) (recording 0 View.tour) .none x y tour ∧ x.Returns below ∧
    tour.dispatched = [1, 0, 2] ∧ tour.Regular (some 1) [0, 1, 3, 2] ∧
    (∀ i, y.machine.world.invocations 0 i = x.machine.world.invocations 0 i + if i ∈ tour.invoked then 1 else 0) ∧
    ∃ y ms, Run (·.Within below) x y ∧ y.machine.stack = ⟨0, .deadline ms⟩ :: below := by
  let at' := fun n => ((initial extensible).steps n extensibleCalls).1
  let tour := (at' 77).noted (recording 0 View.tour) 54 ((initial extensible).steps 77 extensibleCalls).2 .none
  have before : Run (fun _ => True) (initial extensible) (at' 77) := run_steps (by decide +kernel)
  have top : (at' 77).machine.stack = ⟨0, .checkCache⟩ :: ⟨0, .round⟩ :: [⟨0, .ticking⟩] := by rfl
  have cache : ((at' 77).machine.world.devices[0]?.any fun δ => δ.scheduler.cache.soonest = some 1) = true := by
    decide +kernel
  obtain ⟨δ, found, cached⟩ := (Option.any_eq_true _ _).1 cache
  have long : Traced (fun z => 2 < z.machine.stack.length) (recording 0 View.tour) .none (at' 77) (at' (77 + 54)) tour :=
    traced_steps_add (by decide +kernel) (by decide +kernel)
  have toured : Traced (·.Within (⟨0, .round⟩ :: [⟨0, .ticking⟩])) (recording 0 View.tour) .none (at' 77) (at' (77 + 54)) tour :=
    (long.also fun z run => within_of_long run top fun _ p => p).mono fun _ p => p.2
  have last : (at' 131).machine.stack = ⟨0, .deadline none⟩ :: ⟨0, .round⟩ :: [⟨0, .ticking⟩] := by rfl
  have returns := returns_of_ends before toured.run last
  obtain ⟨inOrder, ends⟩ := rounds_in_order before top found
  obtain ⟨regular, -, invoked⟩ := inOrder _ _ toured
  have queue : (at' 131).queued 0 = [0, 1, 3, 2] := by decide +kernel
  rw [of_decide_eq_true cached, queue] at regular
  exact ⟨_, _, _, tour, top, toured, returns, by decide +kernel, regular, invoked, ends returns⟩

end Moment

end TimedTasks
