import TimedTasks.Proofs.Engaged

/-!
# A round comes to each task once

A round goes along the queue, and whoever it has passed has had his turn: tasks are only ever added at the end of the
queue, so the round comes to none of them a second time. `Act.Passes` says whom the place where a round stands has
passed, and `Marches` that the task that the round is about to run is one of them. A round that was ahead of its tasks
when it began is therefore done after as many turns as the arena has slots.
-/

namespace TimedTasks

namespace Act

/-- The task that the act of a round is about to look at or to run. -/
def approaches : Act → Option Nat
  | reading (.due i _) | reading (.renew i) | dispatch i | locked (.fetch i) => some i
  | _ => none

/-- From there a round does not come to task `i` any more. -/
def Passes (roster : List Nat) (i : Nat) : Act → Prop
  | checkCache | reading (.cached ..) => False
  | survey skip => skip = some i
  | walking skip cursor => skip = some i ∨ ∀ k ∈ cursor, roster.idxOf i < roster.idxOf k
  | _ => True

theorem turns_of_walks {a : Act} (h : a.walks) : a.turns := by
  cases a <;> first | rfl | cases h

/-- The act is no part of the way along the queue. -/
def rests (a : Act) : Bool := a.approaches.isNone && !a.walks

end Act

/-! ## Along the roster -/

namespace Chain

variable {link : Nat → Option (Option Nat)} {c : Option Nat} {l : List Nat} {i k : Nat}

theorem mem_of_some (h : Chain link (some k) l) : k ∈ l := by
  cases l with
  | nil => cases h
  | cons j l =>
    cases h.1
    exact List.mem_cons_self

/-- A link of the chain leads to the next one of its slots. -/
theorem idxOf_lt_of_link (h : Chain link c l) (nodup : l.Nodup) (m : i ∈ l) (next : link i = some (some k)) :
    k ∈ l ∧ l.idxOf i < l.idxOf k := by
  induction l generalizing c with
  | nil => cases m
  | cons j l ih =>
    obtain ⟨-, next', found, h⟩ := h
    obtain ⟨out, nodup⟩ := List.nodup_cons.1 nodup
    rcases List.mem_cons.1 m with rfl | m
    · cases found.symm.trans next
      cases l with
      | nil => cases h
      | cons k' l =>
        cases h.1
        have other : i ≠ k := fun same => out (same ▸ List.mem_cons_self)
        exact ⟨by simp, by simp [List.idxOf_cons_ne _ other]⟩
    · obtain ⟨mk, lt⟩ := ih h nodup m
      have before : j ≠ i := fun same => out (same ▸ m)
      have after : j ≠ k := fun same => out (same ▸ mk)
      exact ⟨List.mem_cons_of_mem _ mk, by rw [List.idxOf_cons_ne _ before, List.idxOf_cons_ne _ after]; omega⟩

end Chain

/-- Where a round is on the way along the queue, and what it does there. -/
structure Marches (roster : List Nat) (acts : List Act) : Prop where
  cursor : ∀ skip k, .walking skip (some k) ∈ acts → k ∈ roster
  /-- The walk goes on behind the task that is looked at or run. -/
  passed : ∀ a ∈ acts, ∀ i, a.approaches = some i → ∀ b ∈ acts, b.walks → b.Passes roster i

section

variable {acts rest : List Act} {act : Act} {roster : List Nat} {i : Nat}

theorem Column.approaches_eq_none (h : Column acts) (free : Act.round ∉ acts) : ∀ a ∈ acts, a.approaches = none := by
  intro a m
  cases a with
  | reading r => cases r <;> first | rfl | exact absurd (h.round_of_walked m rfl fun _ => id) free
  | locked s => cases s <;> first | rfl | exact absurd (h.round_of_settle (h.settle_of_fetch m)) free
  | dispatch i => exact absurd (h.round_of_walked m rfl fun _ => id) free
  | _ => rfl

/-- Without a round, no act is part of the way along the queue. -/
theorem Column.rests_of_no_round (h : Column acts) (free : Act.round ∉ acts) : ∀ a ∈ acts, a.rests := by
  intro a m
  have walks : a.walks = false := Bool.eq_false_iff.2 fun walks => by
    have still := h.no_turns free a m
    rw [Act.turns_of_walks walks] at still
    cases still
  simp [Act.rests, h.approaches_eq_none free a m, walks]

/-- Below the place where a round stands, no other act is part of its way. -/
theorem Column.rests_of_turns (h : Column (act :: rest)) (lay : Layered (act :: rest)) (turns : act.turns) :
    ∀ b ∈ rest, b.rests := by
  obtain ⟨below, rfl, free⟩ := h.round_of_turns lay turns
  intro b m
  rcases List.mem_cons.1 m with rfl | m
  · rfl
  · exact h.tail.tail.rests_of_no_round free b m

namespace Marches

theorem tail (h : Marches roster (act :: rest)) : Marches roster rest :=
  ⟨fun skip k m => h.cursor skip k (List.mem_cons_of_mem _ m),
    fun a m i ap b mb walks => h.passed a (List.mem_cons_of_mem _ m) i ap b (List.mem_cons_of_mem _ mb) walks⟩

/-- Acts come that are no part of the way. -/
theorem push (h : Marches roster rest) (idle : ∀ a ∈ acts, a.rests) : Marches roster (acts ++ rest) := by
  have part : ∀ {a}, a ∈ acts ++ rest → a.rests = false → a ∈ rest := by
    intro a m part
    exact (List.mem_append.1 m).resolve_left fun m => by
      rw [idle a m] at part
      cases part
  constructor
  · exact fun skip k m => h.cursor skip k (part m rfl)
  · intro a m i ap b mb walks
    refine h.passed a (part m ?_) i ap b (part mb ?_) walks
    · simp [Act.rests, ap]
    · simp [Act.rests, walks]

/-- The round stands at one place only. -/
theorem stand (idle : ∀ b ∈ rest, b.rests) (cursor : ∀ skip k, .walking skip (some k) ∈ acts → k ∈ roster)
    (passed : ∀ a ∈ acts, ∀ i, a.approaches = some i → ∀ b ∈ acts, b.walks → b.Passes roster i) :
    Marches roster (acts ++ rest) := by
  have part : ∀ {a}, a ∈ acts ++ rest → a.rests = false → a ∈ acts := by
    intro a m part
    exact (List.mem_append.1 m).resolve_right fun m => by
      rw [idle a m] at part
      cases part
  constructor
  · exact fun skip k m => cursor skip k (part m rfl)
  · intro a m i ap b mb walks
    refine passed a (part m ?_) i ap b (part mb ?_) walks
    · simp [Act.rests, ap]
    · simp [Act.rests, walks]

/-- Acts that come to the same task take the place of one. -/
theorem replace (h : Marches roster (act :: rest)) (same : ∀ a ∈ acts, ∀ i, a.approaches = some i → act.approaches = some i)
    (still : ∀ a ∈ acts, a.walks = false) : Marches roster (acts ++ rest) := by
  have part : ∀ {a}, a ∈ acts ++ rest → a.walks → a ∈ act :: rest := by
    intro a m walks
    refine List.mem_cons_of_mem _ ((List.mem_append.1 m).resolve_left fun m => ?_)
    rw [still a m] at walks
    cases walks
  constructor
  · exact fun skip k m => h.cursor skip k (part m rfl)
  · intro a m i ap b mb walks
    rcases List.mem_append.1 m with m | m
    · exact h.passed act List.mem_cons_self i (same a m i ap) b (part mb walks) walks
    · exact h.passed a (List.mem_cons_of_mem _ m) i ap b (part mb walks) walks

end Marches

/-! ## More tasks on the roster -/

/-- Whoever was passed stays passed when tasks come to the end of the roster. -/
theorem Act.Passes.append {a : Act} {more : List Nat} (h : a.Passes roster i)
    (cursor : ∀ skip k, a = .walking skip (some k) → k ∈ roster) : a.Passes (roster ++ more) i := by
  cases a with
  | walking skip c =>
    refine h.imp_right fun before k m => ?_
    have here := cursor skip k (by rw [show c = some k from m])
    have lt := before k m
    have mi : i ∈ roster := List.idxOf_lt_length_iff.1 (Nat.lt_trans lt (List.idxOf_lt_length_iff.2 here))
    rw [List.idxOf_append_of_mem mi, List.idxOf_append_of_mem here]
    exact lt
  | reading r => cases r <;> exact h
  | _ => exact h

theorem Marches.append {more : List Nat} (h : Marches roster acts) : Marches (roster ++ more) acts where
  cursor skip k m := List.mem_append_left _ (h.cursor skip k m)
  passed a m i ap b mb walks := (h.passed a m i ap b mb walks).append fun skip k e => h.cursor skip k (e ▸ mb)

/-! ## One step -/

theorem Act.rests_of_asks {r : Reading} (h : r.asks) : (reading r).rests := by
  cases r <;> first | rfl | cases h

theorem Act.rests_of_op {σ : Scheduler} {self : Option Nat} {op : Op} {s : Section} (h : op.Asks σ self s) :
    (locked s).rests := by
  cases h <;> rfl

/-- What is below the walk of a round: the round, and nothing of another one. -/
theorem Column.way_of_walk (h : Column (act :: rest)) (lay : Layered (act :: rest)) (walks : act.walks) :
    ∃ below, rest = .round :: below ∧ ∀ b ∈ below, b.rests ∧ b.turns = false := by
  obtain ⟨below, rfl, free⟩ := h.round_of_turns lay (Act.turns_of_walks walks)
  exact ⟨below, rfl, fun b m => ⟨h.tail.tail.rests_of_no_round free b m, h.tail.tail.no_turns free b m⟩⟩

/-- What is below the fetching of a handler: its dispatch, and the way of the round. -/
theorem Column.way_of_fetch (h : Column (.locked (.fetch i) :: rest)) (lay : Layered (.locked (.fetch i) :: rest)) :
    ∃ walk below, rest = .settle i :: walk :: .round :: below ∧ walk.walks ∧ ∀ b ∈ below, b.rests ∧ b.turns = false := by
  match rest, h, lay with
  | [b], h, _ => cases (show b = .settle i from h.1); cases h.2
  | b :: walk :: below, h, lay =>
    cases (show b = .settle i from h.1)
    have walks : walk.walks := h.2.1
    obtain ⟨below, rfl, idle⟩ := h.tail.tail.way_of_walk lay.2.2 walks
    exact ⟨walk, below, rfl, walks, idle⟩

/-- Every step leaves a round at one place of its way, behind the tasks that it came to. -/
theorem Leads.marches {w : World} {δ : Device} {s : Stride} (l : Leads w δ act s) (h : Marches roster (act :: rest))
    (enrolled : Enrolled δ.scheduler (act :: rest) roster) (sound : Sound δ.scheduler (act :: rest)) :
    Marches (δ.scheduler.enlist roster act) (s.frames ++ rest) := by
  have idle : ∀ {acts : List Act}, (∀ a ∈ acts, a.rests) → Marches roster (acts ++ rest) := h.tail.push
  -- Where the round stands, nothing below is part of its way.
  have below : act.turns → ∀ b ∈ rest, b.rests := sound.column.rests_of_turns sound.layered
  have onward : ∀ {i : Nat} {t : Task} {k : Nat}, i ∈ roster → δ.scheduler.arena.slot i = .ok t → t.next = some k →
      k ∈ roster ∧ roster.idxOf i < roster.idxOf k := fun m found next =>
    enrolled.holds.chain.idxOf_lt_of_link enrolled.holds.nodup m (by simp [Arena.link, Arena.slot_eq_ok_iff.1 found, next])
  by_cases resets : act.resets = true
  · have none : Act.round ∉ rest := by
      have rests := sound.layered.1
      cases act with
      | locked s => cases s <;> first | cases resets; done | exact rests
      | _ => cases resets
    have struck : δ.scheduler.enlist roster act = [] := by
      cases act with
      | locked s => cases s <;> first | cases resets; done | rfl
      | _ => cases resets
    have others := sound.column.tail.rests_of_no_round none
    rw [struck]
    have frames : ∀ a ∈ s.frames ++ rest, a.rests := by
      intro a m
      rcases List.mem_append.1 m with m | m
      · cases l with
        | begun => cases List.mem_singleton.1 m; rfl
        | ended =>
          simp only [Stride.frames, List.mem_cons, List.not_mem_nil, or_false] at m
          rcases m with rfl | rfl <;> rfl
        | refused => cases List.mem_singleton.1 m; rfl
        | _ => cases resets
      · exact others a m
    constructor
    · intro skip k m
      cases frames _ m
    · intro a m i ap
      have rests := frames a m
      simp [Act.rests, ap] at rests
  by_cases configures : act.configures = true
  · have same : Marches roster (s.frames ++ rest) := by
      cases l with
      | configured | refused => exact idle (by simp [Stride.frames, Act.rests, Act.approaches, Act.walks])
      | _ => cases configures
    cases act with
    | locked s =>
      cases s with
      | configure i =>
        rw [Scheduler.enlist]
        split
        · exact same.append
        · exact same
      | _ => cases configures
    | _ => cases configures
  rw [Scheduler.enlist_of_plain (by simpa using configures) (by simpa using resets)]
  cases l with
  | ask ask => exact idle (by simp [Stride.frames, Act.rests_of_op ask]; rfl)
  | asked _ r | lengthAsked r => exact idle (by simp [Stride.frames, Act.rests_of_asks r]; rfl)
  | due | renewing | renew | dispatched =>
    refine h.replace (fun a m i ap => ?_) (by simp [Stride.frames, Act.walks])
    simp only [Stride.frames, List.mem_cons, List.not_mem_nil, or_false] at m
    rcases m with rfl | rfl | rfl <;> first | exact ap | cases ap
  | remembered | nothingRemembered | retarget =>
    refine .stand (below rfl) (by simp [Stride.frames]) fun a m i ap => ?_
    simp only [Stride.frames, List.mem_cons, List.not_mem_nil, or_false] at m
    rcases m with rfl | rfl <;> cases ap
  | dueFirst =>
    refine .stand (below rfl) (by simp [Stride.frames]) fun a m i ap b mb walks => ?_
    simp only [Stride.frames, List.mem_cons, List.not_mem_nil, or_false] at m mb
    rcases mb with rfl | rfl
    · cases walks
    · rcases m with rfl | rfl
      · exact ap
      · cases ap
  | surveyed =>
    refine .stand (below rfl) (fun skip k m => ?_) fun a m i ap => ?_
    · simp only [Stride.frames, List.mem_singleton, Act.walking.injEq] at m
      exact Chain.mem_of_some (m.2 ▸ enrolled.holds.chain)
    · cases List.mem_singleton.1 m
      cases ap
  | @looked skip i t other found =>
    have here : i ∈ roster := h.cursor skip i List.mem_cons_self
    refine .stand (below rfl) (fun skip' k m => ?_) fun a m j ap b mb walks => ?_
    · simp only [Stride.frames, List.mem_cons, List.not_mem_nil, or_false] at m
      rcases m with m | m | m
      · cases m
      · cases m
      · injection m with _ next
        exact (onward here found next.symm).1
    · simp only [Stride.frames, List.mem_cons, List.not_mem_nil, or_false] at m mb
      rcases m with rfl | rfl | rfl
      · cases ap
      · cases ap
        rcases mb with rfl | rfl | rfl
        · cases walks
        · cases walks
        · exact .inr fun k next => (onward here found next).2
      · cases ap
  | @passed skip i t _ found =>
    have here : i ∈ roster := h.cursor skip i List.mem_cons_self
    refine .stand (below rfl) (fun skip' k m => ?_) fun a m j ap => ?_
    · injection List.mem_singleton.1 m with _ next
      exact (onward here found next.symm).1
    · cases List.mem_singleton.1 m
      cases ap
  | _ => exact idle (by simp [Stride.frames, Act.rests, Act.approaches, Act.walks])

theorem Delivers.marches {δ : Device} {ms : Option UInt32} {s : Stride} (l : Delivers δ ms act s)
    (h : Marches roster (.deadline ms :: act :: rest)) : Marches roster (s.frames ++ rest) := by
  cases l <;> exact h.tail.tail.push (by simp [Stride.frames, Act.rests, Act.approaches, Act.walks])

theorem Act.passes_of_rests {a : Act} (h : a.rests) (late : a ≠ .checkCache) (unread : ∀ i timing, a ≠ .reading (.cached i timing)) :
    a.Passes roster i ∧ a.approaches ≠ some i := by
  have none : a.approaches = none ∧ a.walks = false := by simpa [Act.rests] using h
  refine ⟨?_, by rw [none.1]; nofun⟩
  cases a with
  | reading r => cases r <;> first | trivial | exact absurd rfl (unread _ _)
  | checkCache => exact absurd rfl late
  | survey | walking => cases none.2
  | _ => trivial

/-- A round does not come to those again whom it has passed, as long as no other one begins. -/
theorem Leads.passes {w : World} {δ : Device} {s : Stride} (l : Leads w δ act s) (passes : act.Passes roster i)
    (gone : act.approaches ≠ some i) (late : δ.scheduler.runState ≠ .active)
    (onward : ∀ k t k', δ.scheduler.arena.slot k = .ok t → t.next = some k' → (∃ skip, act = .walking skip (some k)) →
      roster.idxOf k < roster.idxOf k') :
    ∀ a ∈ s.frames, a.Passes roster i ∧ a.approaches ≠ some i := by
  have idle : (∀ a ∈ s.frames, a.rests ∧ a ≠ .checkCache ∧ ∀ i timing, a ≠ .reading (.cached i timing)) →
      ∀ a ∈ s.frames, a.Passes roster i ∧ a.approaches ≠ some i := fun idle a m =>
    Act.passes_of_rests (idle a m).1 (idle a m).2.1 (idle a m).2.2
  cases l with
  | tick active | anotherRound active => exact absurd active late
  | wait | retarget | dueFirst | remembered | nothingRemembered => cases passes
  | ask ask => exact idle (by simp [Stride.frames, Act.rests_of_op ask]; rfl)
  | asked _ r | lengthAsked r =>
    refine idle fun a m => ?_
    simp only [Stride.frames, List.mem_cons, List.not_mem_nil, or_false] at m
    rcases m with rfl | rfl
    · refine ⟨rfl, ?_, ?_⟩
      · intro same
        cases same
      · intro i timing same
        cases same
    · refine ⟨Act.rests_of_asks r, ?_, ?_⟩
      · intro same
        cases same
      · intro i timing same
        cases same
        cases r
  | surveyed =>
    intro a m
    cases List.mem_singleton.1 m
    exact ⟨.inl passes, fun same => by cases same⟩
  | @looked skip k t other found =>
    intro a m
    simp only [Stride.frames, List.mem_cons, List.not_mem_nil, or_false] at m
    rcases m with rfl | rfl | rfl
    · exact ⟨trivial, fun same => by cases same⟩
    · refine ⟨trivial, fun same => ?_⟩
      cases same
      rcases passes with skipped | before
      · exact other skipped
      · exact Nat.lt_irrefl _ (before i rfl)
    · refine ⟨passes.imp_right fun before k' next => ?_, fun same => by cases same⟩
      exact Nat.lt_trans (before k rfl) (onward k t k' found next ⟨skip, rfl⟩)
  | @passed skip k t _ found =>
    intro a m
    cases List.mem_singleton.1 m
    refine ⟨passes.imp_right fun before k' next => ?_, fun same => by cases same⟩
    exact Nat.lt_trans (before k rfl) (onward k t k' found next ⟨skip, rfl⟩)
  | due | renewing | renew | dispatched =>
    intro a m
    simp only [Stride.frames, List.mem_cons, List.not_mem_nil, or_false] at m
    rcases m with rfl | rfl | rfl <;> first | exact ⟨trivial, gone⟩ | exact ⟨trivial, fun same => by cases same⟩
  | _ => exact idle (by simp [Stride.frames, Act.rests, Act.approaches, Act.walks])

end

namespace View

variable {v v' : View} {l : List Nat} {i : Nat}

/-- The slots that the links of the queue lead through. -/
def roster (v : View) : List Nat := v.scheduler.queued.toOption.getD []

theorem Enrolled.roster_eq (h : v.Enrolled l) : v.roster = l := by
  rw [roster, Scheduler.queued, Queue.members_of_holds h.holds]
  rfl

/-- The queue leads through its roster, and a round in progress is behind the tasks that it came to. -/
structure Ordered (v : View) : Prop where
  enrolled : v.Enrolled v.roster
  marches : Marches v.roster v.acts

theorem Fresh.ordered (h : v.Fresh) : v.Ordered := by
  have enrolled := h.enrolled
  refine ⟨enrolled.roster_eq.symm ▸ enrolled, ?_⟩
  rw [h.acts]
  exact ⟨by simp, by simp⟩

theorem Ordered.roster_turn (h : v.Ordered) (sound : v.Sound) (t : Turn v v') : v'.roster = v.enlist v.roster :=
  (h.enrolled.turn sound t).roster_eq

theorem Ordered.turn (h : v.Ordered) (sound : v.Sound) (t : Turn v v') : v'.Ordered := by
  have enrolled := h.enrolled.turn sound t
  refine ⟨enrolled.roster_eq.symm ▸ enrolled, ?_⟩
  rw [enrolled.roster_eq]
  have marches := h.marches
  cases t with
  | works acts l =>
    have enrolled : TimedTasks.Enrolled _ _ _ := h.enrolled
    have sound : TimedTasks.Sound _ _ := sound
    rw [acts] at marches enrolled sound
    rw [enlist, acts]
    exact l.marches marches enrolled sound
  | delivers acts l =>
    rw [acts] at marches
    rw [enlist, acts]
    exact l.marches marches

theorem Ordered.shift (h : v.Ordered) (t : Shift v v') : v'.Ordered := by
  have same : v'.roster = v.roster := by cases t <;> rfl
  refine ⟨same ▸ h.enrolled.shift t, same ▸ ?_⟩
  have marches := h.marches
  cases t with
  | drops acts _ =>
    rw [acts] at marches
    exact marches.tail
  | arrives self op =>
    have idle : ∀ a ∈ [Act.perform self op], a.rests := by simp [Act.rests, Act.approaches, Act.walks]
    exact marches.push idle

/-- The round in progress does not come to task `i` any more. -/
structure Behind (v : View) (i : Nat) : Prop where
  passed : ∀ a ∈ v.acts, a.Passes v.roster i
  gone : ∀ a ∈ v.acts, a.approaches ≠ some i

/-- While a round is in progress, tasks only come to the end of the roster. -/
theorem Ordered.roster_grows (h : v.Ordered) (sound : v.Sound) (busy : .round ∈ v.acts) (t : Turn v v') :
    ∃ more, v'.roster = v.roster ++ more := by
  rw [h.roster_turn sound t, enlist]
  cases acts : v.acts with
  | nil => exact ⟨[], by simp⟩
  | cons act rest =>
    have layered : Layered (act :: rest) := acts ▸ sound.layered
    rw [acts] at busy
    have resets : act.resets = false := Bool.eq_false_iff.2 fun resets => by
      have below : Act.round ∈ rest := (List.mem_cons.1 busy).resolve_left fun same => by rw [← same] at resets; cases resets
      cases act with
      | locked s => cases s <;> first | cases resets; done | exact layered.1 below
      | _ => cases resets
    cases act with
    | locked s =>
      cases s with
      | configure i =>
        dsimp only [Scheduler.enlist]
        split
        · exact ⟨[i], rfl⟩
        · exact ⟨[], by simp⟩
      | beginSession | endSession => cases resets
      | _ => exact ⟨[], by simp [Scheduler.enlist]⟩
    | _ => exact ⟨[], by simp [Scheduler.enlist]⟩

theorem Behind.turn (h : v.Behind i) (ordered : v.Ordered) (sound : v.Sound) (busy : .round ∈ v.acts)
    (late : v.scheduler.runState ≠ .active) (t : Turn v v') : v'.Behind i := by
  obtain ⟨more, grows⟩ := ordered.roster_grows sound busy t
  have passed : ∀ a ∈ v.acts, a.Passes v'.roster i := fun a m => by
    rw [grows]
    exact (h.passed a m).append fun skip k same => ordered.marches.cursor skip k (same ▸ m)
  have known := ordered.roster_turn sound t
  cases t with
  | @works w act s _ rest acts l =>
    have holds := ordered.enrolled.holds
    have frames := l.passes (passed act (acts ▸ List.mem_cons_self)) (h.gone act (acts ▸ List.mem_cons_self)) late
      fun k t k' found next ⟨skip, walk⟩ => by
        subst walk
        rw [enlist, acts] at known
        rw [known]
        refine (holds.chain.idxOf_lt_of_link holds.nodup ?_ ?_).2
        · exact ordered.marches.cursor skip k (acts ▸ List.mem_cons_self)
        · show Arena.link _ _ = _
          have slot : v.scheduler.arena[k]? = some t := Arena.slot_eq_ok_iff.1 found
          simp [Arena.link, slot, next]
    constructor
    · intro a m
      rcases List.mem_append.1 m with m | m
      · exact (frames a m).1
      · exact passed a (acts ▸ List.mem_cons_of_mem _ m)
    · intro a m
      rcases List.mem_append.1 m with m | m
      · exact (frames a m).2
      · exact h.gone a (acts ▸ List.mem_cons_of_mem _ m)
  | @delivers ms act s _ rest acts l =>
    have frames : ∀ a ∈ s.frames, a.Passes (take s rest v.past).roster i ∧ a.approaches ≠ some i := by
      cases l <;> simp [Stride.frames, Act.Passes, Act.approaches]
    constructor
    · intro a m
      rcases List.mem_append.1 m with m | m
      · exact (frames a m).1
      · exact passed a (acts ▸ List.mem_cons_of_mem _ (List.mem_cons_of_mem _ m))
    · intro a m
      rcases List.mem_append.1 m with m | m
      · exact (frames a m).2
      · exact h.gone a (acts ▸ List.mem_cons_of_mem _ (List.mem_cons_of_mem _ m))

theorem Behind.shift (h : v.Behind i) (t : Shift v v') : v'.Behind i := by
  have same : v'.roster = v.roster := by cases t <;> rfl
  cases t with
  | drops acts _ =>
    exact ⟨fun a m => h.passed a (acts ▸ List.mem_cons_of_mem _ m), fun a m => h.gone a (acts ▸ List.mem_cons_of_mem _ m)⟩
  | arrives self op =>
    constructor
    · intro a m
      rcases List.mem_cons.1 m with rfl | m
      · trivial
      · exact h.passed a m
    · intro a m
      rcases List.mem_cons.1 m with rfl | m
      · nofun
      · exact h.gone a m

/-- When the handler of a task is fetched, the round is behind the task from then on. -/
theorem Ordered.behind_of_fetch {rest : List Act} (h : v.Ordered) (sound : v.Sound) (acts : v.acts = .locked (.fetch i) :: rest)
    (t : Turn v v') : v'.Behind i := by
  have same : v'.roster = v.roster := by
    rw [h.roster_turn sound t, enlist, acts]
    rfl
  have column : Column (.locked (.fetch i) :: rest) := acts ▸ sound.column
  have layered : Layered (.locked (.fetch i) :: rest) := acts ▸ sound.layered
  obtain ⟨walk, below, rfl, walks, idle⟩ := column.way_of_fetch layered
  have passes : walk.Passes v.roster i :=
    h.marches.passed (.locked (.fetch i)) (acts ▸ List.mem_cons_self) i rfl walk (by simp [acts]) walks
  have stays : walk.approaches = none := by cases walk <;> first | rfl | cases walks
  have others : ∀ a ∈ [.settle i, walk, .round] ++ below, a.Passes v.roster i ∧ a.approaches ≠ some i := by
    intro a m
    simp only [List.cons_append, List.nil_append, List.mem_cons] at m
    rcases m with rfl | rfl | rfl | m
    · exact ⟨trivial, fun same => by cases same⟩
    · exact ⟨passes, fun same => by rw [stays] at same; cases same⟩
    · exact ⟨trivial, fun same => by cases same⟩
    · exact Act.passes_of_rests (idle a m).1 (fun same => by have still := (idle a m).2; rw [same] at still; cases still)
        fun _ _ same => by have still := (idle a m).2; rw [same] at still; cases still
  cases t with
  | @works w act s _ rest acts' l =>
    cases acts.symm.trans acts'
    have frames : ∀ a ∈ s.frames, a.Passes v.roster i ∧ a.approaches ≠ some i := by
      intro a m
      cases l with
      | unhandled => cases m
      | fetched =>
        simp only [Stride.frames, List.mem_cons, List.not_mem_nil, or_false] at m
        rcases m with rfl | rfl <;> exact ⟨trivial, fun same => by cases same⟩
      | refused refuses => cases refuses
    have all : ∀ a ∈ s.frames ++ (.settle i :: walk :: .round :: below), a.Passes v.roster i ∧ a.approaches ≠ some i :=
      fun a m => (List.mem_append.1 m).elim (frames a) (others a)
    exact ⟨fun a m => same ▸ (all a m).1, fun a m => (all a m).2⟩
  | delivers acts' => cases acts.symm.trans acts'

end View

namespace Moment

variable {P : Moment → Prop} {s : Setup} {y : Moment} {d : Nat} {v : View}

/-- In every run, the round of every device is behind the tasks that it came to. -/
theorem ordered (r : Run P (initial s) y) (h : y.view d = some v) : v.Ordered := by
  have known : ∀ z, Run P (initial s) z → ∀ v, z.view d = some v → v.Sound := fun _ r _ hv => sound r hv
  exact view_of_run (r.also known) (fun _ v p hv => p.2 v hv) (fun _ => View.Fresh.ordered)
    (fun _ _ h sound t _ => h.turn sound t) (fun _ _ h t => h.shift t) h

end Moment

end TimedTasks
