import TimedTasks.Proofs.Moment

/-!
# What the frames of a device say about its scheduler

A scheduler has flags and states that tell what is in progress: a round (`Scheduler.inRound`), a session
(`RunState.stopped`), a handler (`TaskState.inHandler`). `Sound` says that they tell the truth: they agree with the
frames of the device. With it go the few things that frames can rely on from everything below them (`Layered`): the
beginning and the end of a session have no round below them, no task is dispatched twice, and a start leaves its task
`executing` just when the task's handler is below it.

All of this holds with interrupts of every kind (`Moment.sound`).
-/

namespace TimedTasks

namespace Act

/-- What an act relies on from all acts below it. -/
def Rests : Act → List Act → Prop
  | running, below | ticking, below | opening, below | closing _, below => round ∉ below
  | locked .beginSession, below | locked .endSession, below | locked (.sessionOver _), below => round ∉ below
  | settle i, below | reading (.renew i), below => settle i ∉ below
  | reading (.start i next), below =>
    (settle i ∈ below → next = .executing) ∧ (settle i ∉ below → next = .active)
  | _, _ => True

/-- The act relies on nothing below it, and no flag or state tells of it. -/
def plain : Act → Bool
  | running | ticking | opening | closing _ | locked .beginSession | locked .endSession | locked (.sessionOver _)
  | settle _ | reading (.renew _) | reading (.start ..) | round => false
  | _ => true

/-- The board was told that the session is over. -/
def isClosing : Act → Bool
  | closing _ => true
  | _ => false

/-- The act takes all tasks out of the queue. -/
def resets : Act → Bool
  | locked .beginSession | locked .endSession => true
  | _ => false

theorem Rests.of_plain {a : Act} {below : List Act} (h : a.plain) : a.Rests below := by
  cases a with
  | reading r => cases r <;> trivial
  | locked s => cases s <;> trivial
  | _ => trivial

@[simp] theorem plain_interrupts {call : BoardCall} {bodies : List (List Op)} : (interrupts call bodies).plain :=
  rfl

theorem plain_of_asks {r : Reading} (h : r.asks) : (reading r).plain := by
  cases r <;> first | rfl | cases h

theorem plain_of_refuses {s : Section} (h : s.refuses) : (locked s).plain := by
  cases s <;> first | rfl | cases h

theorem plain_of_op {σ : Scheduler} {self : Option Nat} {op : Op} {s : Section} (h : op.Asks σ self s) :
    (locked s).plain := by
  cases h <;> rfl

end Act

/-- Each act finds below it what it relies on. -/
def Layered : List Act → Prop
  | [] => True
  | a :: below => a.Rests below ∧ Layered below

theorem Layered.plain {acts rest : List Act} (h : Layered rest) (p : acts.all Act.plain) : Layered (acts ++ rest) := by
  induction acts with
  | nil => exact h
  | cons a acts ih =>
    rw [List.all_cons, Bool.and_eq_true] at p
    exact ⟨.of_plain p.1, ih p.2⟩

theorem mem_plain {acts rest : List Act} {a : Act} (p : acts.all Act.plain) (h : a.plain = false) :
    a ∈ acts ++ rest ↔ a ∈ rest := by
  rw [List.mem_append]
  refine ⟨fun m => m.resolve_left fun m => ?_, .inr⟩
  rw [List.all_eq_true.1 p a m] at h
  cases h

/-! ## Columns -/

theorem Act.not_sits_result {a b : Act} (h : (∃ ms, b = .deadline ms) ∨ ∃ x, b = .answered x) : ¬a.Sits b := by
  rcases h with ⟨ms, rfl⟩ | ⟨x, rfl⟩
  · cases a with
    | reading r => cases r <;> simp [Sits, takesAnswer, walks]
    | locked s => cases s <;> simp [Sits, takesAnswer]
    | _ => simp [Sits, takesAnswer, walks, loops, resumes]
  · cases a with
    | reading r => cases r <;> simp [Sits, takesAnswer, walks]
    | locked s => cases s <;> simp [Sits, takesAnswer]
    | _ => simp [Sits, takesAnswer, walks, loops, resumes]

theorem Act.not_sits_dispatch {a : Act} {i : Nat} : ¬a.Sits (.dispatch i) := by
  cases a with
  | reading r => cases r <;> simp [Sits, takesAnswer, walks]
  | locked s => cases s <;> simp [Sits, takesAnswer]
  | _ => simp [Sits, takesAnswer, walks, loops, resumes]

/-- The act is where a round stands. -/
def Act.turns : Act → Bool
  | checkCache | survey _ | walking .. | reading (.cached ..) | reading .scan | locked (.adopt ..) => true
  | _ => false

theorem Act.sits_of_turns {a b : Act} (h : a.turns) (s : a.Sits b) : b = .round := by
  cases a with
  | reading r => cases r <;> first | cases h; done | exact s
  | locked t => cases t <;> first | cases h; done | exact s
  | _ => first | cases h; done | exact s

namespace Column

variable {a : Act} {acts rest : List Act}

theorem tail (h : Column (a :: rest)) : Column rest := by
  cases rest with
  | nil => trivial
  | cons b rest => exact h.2

theorem iff_stacked : Column acts ↔ Stacked (acts.map (⟨0, ·⟩)) := by
  induction acts with
  | nil => exact Iff.rfl
  | cons a acts ih =>
    cases acts with
    | nil => exact ⟨fun h => ⟨h, trivial⟩, fun h => h.1⟩
    | cons b acts => exact ⟨fun h => ⟨⟨h.1, .inr rfl⟩, ih.1 h.2⟩, fun h => ⟨h.1.1, ih.2 h.2⟩⟩

/-- Only a round walks along the queue, so what lies on a walk is part of a round. -/
theorem round_of_walked (h : Column acts) (m : a ∈ acts) (calls : a.calls = false)
    (walked : ∀ b, a.Sits b → b.walks) : Act.round ∈ acts := by
  induction acts with
  | nil => cases m
  | cons c acts ih =>
    rcases List.mem_cons.1 m with rfl | m
    · match acts, h with
      | [], h => rw [show a.calls = true from h] at calls; cases calls
      | [b], h =>
        have walks := walked b h.1
        have calls : b.calls := h.2
        cases b <;> first | cases walks; done | cases calls
      | b :: c :: acts, h =>
        have walks := walked b h.1
        have round : b.Sits c := h.2.1
        cases b <;> first | cases walks; done | (cases round; simp)
    · exact List.mem_cons_of_mem _ (ih h.tail m)

theorem round_of_settle {i : Nat} (h : Column acts) (m : Act.settle i ∈ acts) : Act.round ∈ acts :=
  h.round_of_walked m rfl fun _ => id

/-- A repeating task begins its next interval within a round. -/
theorem round_of_renew {i : Nat} (h : Column acts) (m : Act.reading (.renew i) ∈ acts) : Act.round ∈ acts :=
  h.round_of_walked m rfl fun _ => id

/-- The handler of a task is fetched for its dispatch. -/
theorem settle_of_fetch {i : Nat} (h : Column acts) (m : Act.locked (.fetch i) ∈ acts) : Act.settle i ∈ acts := by
  induction acts with
  | nil => cases m
  | cons a acts ih =>
    rcases List.mem_cons.1 m with rfl | m
    · match acts, h with
      | [], h => cases h
      | b :: acts, h =>
        have settle : b = .settle i := h.1
        simp [settle]
    · exact List.mem_cons_of_mem _ (ih h.tail m)

/-- Without a round, no act is where a round stands. -/
theorem no_turns (h : Column acts) (none : Act.round ∉ acts) : ∀ b ∈ acts, b.turns = false := by
  induction acts with
  | nil => simp
  | cons a acts ih =>
    intro b m
    have none' : Act.round ∉ acts := fun m => none (List.mem_cons_of_mem _ m)
    rcases List.mem_cons.1 m with rfl | m
    · by_contra t
      have t : b.turns = true := by simpa using t
      cases acts with
      | nil =>
        cases b with
        | reading r => cases r <;> first | cases t; done | cases h
        | locked s => cases s <;> first | cases t; done | cases h
        | _ => first | cases t; done | cases h
      | cons c acts => exact none' (Act.sits_of_turns t h.1 ▸ List.mem_cons_self)
    · exact ih h.tail none' b m

/-- Nothing lies on a result. -/
theorem no_result (h : Column (a :: rest)) : (∀ ms, Act.deadline ms ∉ rest) ∧ ∀ x, Act.answered x ∉ rest := by
  induction rest generalizing a with
  | nil => simp
  | cons b rest ih =>
    obtain ⟨deadline, answered⟩ := ih h.2
    constructor
    · intro ms m
      rcases List.mem_cons.1 m with rfl | m
      · exact Act.not_sits_result (.inl ⟨ms, rfl⟩) h.1
      · exact deadline ms m
    · intro x m
      rcases List.mem_cons.1 m with rfl | m
      · exact Act.not_sits_result (.inr ⟨x, rfl⟩) h.1
      · exact answered x m

/-- There is one round at a time. -/
theorem alone (h : Column (.round :: rest)) (lay : Layered (.round :: rest)) : .round ∉ rest := by
  cases rest with
  | nil => simp
  | cons loop rest =>
    have loops : loop.loops := h.1
    have rests := lay.2.1
    cases loop <;> first | cases loops; done | simpa using (show Act.round ∉ rest from rests)

/-- Right below the place where a round stands, there is the round. -/
theorem round_of_turns (h : Column (a :: rest)) (lay : Layered (a :: rest)) (turns : a.turns) :
    ∃ below, rest = .round :: below ∧ .round ∉ below := by
  cases rest with
  | nil =>
    have still := h.no_turns (fun m => by cases List.mem_singleton.1 m; cases turns) a List.mem_cons_self
    rw [turns] at still
    cases still
  | cons b below =>
    obtain rfl := Act.sits_of_turns turns h.1
    exact ⟨below, rfl, h.tail.alone lay.2⟩

/-- Nothing lies on a dispatch. -/
theorem no_dispatch (h : Column (a :: rest)) (i : Nat) : .dispatch i ∉ rest := by
  induction rest generalizing a with
  | nil => simp
  | cons b rest ih =>
    intro m
    rcases List.mem_cons.1 m with rfl | m
    · exact Act.not_sits_dispatch h.1
    · exact ih h.2 m

end Column

/-- The flags of a scheduler and the states of its tasks agree with the acts of its device. -/
structure Sound (σ : Scheduler) (acts : List Act) : Prop where
  column : Column acts
  layered : Layered acts
  inRound : σ.inRound = true ↔ Act.round ∈ acts
  session : Act.round ∈ acts → σ.runState ≠ .stopped
  handling : ∀ i, (σ.life i).state.inHandler = true ↔ Act.settle i ∈ acts

namespace Sound

variable {σ σ' : Scheduler} {act : Act} {acts rest : List Act}

theorem fresh (capacity : Nat) : Sound (.fresh capacity) [] := by
  refine ⟨trivial, trivial, by simp [Scheduler.fresh], by simp, fun i => ?_⟩
  suffices ((Arena.fresh capacity).life i).state.inHandler = false by simpa [Scheduler.life, Scheduler.fresh] using this
  by_cases h : i < capacity
  · simp [Arena.life, Arena.fresh, h, Task.fresh, Task.life, TaskState.inHandler]
  · simp [Arena.life, Arena.fresh, h, Life.blank, TaskState.inHandler]

/-- Without a round, no handler is in progress. -/
theorem idle_of_no_round (h : Sound σ acts) (none : Act.round ∉ acts) (i : Nat) :
    (σ.life i).state.inHandler = false :=
  Bool.eq_false_iff.2 fun busy => none (h.column.round_of_settle ((h.handling i).1 busy))

/-- A round stands at one place only, and no other round is below it. -/
theorem turns_head_of (col : Column (act :: rest)) (lay : Layered (act :: rest)) (t : act.turns) :
    ∀ b ∈ rest, b.turns = false := by
  obtain ⟨below, rfl, free⟩ := col.round_of_turns lay t
  intro b m
  rcases List.mem_cons.1 m with rfl | m
  · rfl
  · exact col.tail.tail.no_turns free b m

theorem turns_unique {a b : Act} (h : Sound σ acts) (ma : a ∈ acts) (mb : b ∈ acts) (ta : a.turns) (tb : b.turns) :
    a = b := by
  have tails : ∀ {acts : List Act}, Column acts → Layered acts → a ∈ acts → b ∈ acts → a = b := by
    intro acts
    induction acts with
    | nil => intro _ _ m; cases m
    | cons c acts ih =>
      intro col lay ma mb
      have alone : c.turns = true → ∀ b ∈ acts, b.turns = false :=
        fun t => turns_head_of col lay t
      rcases List.mem_cons.1 ma with rfl | ma'
      · rcases List.mem_cons.1 mb with rfl | mb'
        · rfl
        · rw [alone ta b mb'] at tb; cases tb
      · rcases List.mem_cons.1 mb with rfl | mb'
        · rw [alone tb a ma'] at ta; cases ta
        · exact ih col.tail lay.2 ma' mb'
  exact tails h.column h.layered ma mb

/-- Acts that nothing tells of come in place of one that nothing tells of. -/
theorem plain (h : Sound σ (act :: rest)) (column : Column (acts ++ rest)) (pa : act.plain) (p : acts.all Act.plain)
    (inRound : σ'.inRound = σ.inRound) (session : σ'.runState = .stopped → σ.runState = .stopped)
    (handling : ∀ i, (σ'.life i).state.inHandler = (σ.life i).state.inHandler) : Sound σ' (acts ++ rest) := by
  have same : ∀ a : Act, a.plain = false → (a ∈ acts ++ rest ↔ a ∈ act :: rest) := fun a ha => by
    have single : [act].all Act.plain := by simpa using pa
    rw [mem_plain p ha, ← mem_plain single ha, List.singleton_append]
  refine ⟨column, h.layered.2.plain p, ?_, ?_, fun i => ?_⟩
  · rw [inRound, same _ rfl]; exact h.inRound
  · rw [same _ rfl]; exact fun m s => h.session m (session s)
  · rw [handling, same _ rfl]; exact h.handling i

/-- A step that leaves the lives of all tasks and both flags alone. -/
theorem plain_same {cache : DueCache} (h : Sound σ (act :: rest)) (column : Column (acts ++ rest)) (pa : act.plain)
    (p : acts.all Act.plain) (c : Scheduler.Changes σ σ' σ.life cache) : Sound σ' (acts ++ rest) :=
  h.plain column pa p c.inRound (fun s => c.runState ▸ s) fun i => by rw [c.life]

/-- A step that changes a life, but not whether the task's handler is in progress. -/
theorem plain_update {i : Nat} {ℓ : Life} {cache : DueCache} (h : Sound σ (act :: rest))
    (column : Column (acts ++ rest)) (pa : act.plain) (p : acts.all Act.plain)
    (c : Scheduler.Changes σ σ' (Function.update σ.life i ℓ) cache)
    (same : ℓ.state.inHandler = (σ.life i).state.inHandler) : Sound σ' (acts ++ rest) := by
  refine h.plain column pa p c.inRound (fun s => c.runState ▸ s) fun j => ?_
  rw [c.life]
  by_cases e : j = i
  · subst e; rw [Function.update_self, same]
  · rw [Function.update_of_ne e]

/-- Acts that the flags tell of, in place of one that they tell the same of. -/
theorem replace (h : Sound σ (act :: rest)) (column : Column (acts ++ rest)) (layered : Layered (acts ++ rest))
    (round : Act.round ∈ acts ++ rest ↔ Act.round ∈ act :: rest)
    (settle : ∀ i, Act.settle i ∈ acts ++ rest ↔ Act.settle i ∈ act :: rest) : Sound σ (acts ++ rest) :=
  ⟨column, layered, h.inRound.trans round.symm, fun m => h.session (round.1 m),
    fun i => (h.handling i).trans (settle i).symm⟩

/-- Whether a start of a task leaves it `executing`. -/
theorem started (h : Sound σ (act :: rest)) {i : Nat} {next : TaskState} (settle : act ≠ .settle i)
    (st : (σ.life i).state.started = some next) : (Act.reading (.start i next)).Rests rest := by
  have handling : (σ.life i).state.inHandler = true ↔ Act.settle i ∈ rest := by
    rw [h.handling i, List.mem_cons]
    exact ⟨fun m => m.resolve_left fun e => settle e.symm, .inr⟩
  constructor
  · intro m
    have busy := handling.2 m
    cases hs : (σ.life i).state <;> rw [hs] at st busy <;> cases st <;> first | rfl | cases busy
  · intro m
    have idle : (σ.life i).state.inHandler ≠ true := fun busy => m (handling.1 busy)
    cases hs : (σ.life i).state <;> rw [hs] at st idle <;> cases st <;> first | rfl | exact absurd rfl idle

/-- A round begins. -/
theorem begin_round (h : Sound σ (act :: rest)) {below : Act} (hb : below = .running ∨ below = .ticking)
    (none : Act.round ∉ act :: rest) (active : σ.runState = .active) (settle : ∀ i, act ≠ .settle i)
    (column : Column ([.checkCache, .round, below] ++ rest)) :
    Sound { σ with inRound := true } ([.checkCache, .round, below] ++ rest) := by
  have free : Act.round ∉ rest := fun m => none (List.mem_cons_of_mem _ m)
  have rests : below.Rests rest := by rcases hb with rfl | rfl <;> exact free
  refine ⟨column, ⟨trivial, trivial, rests, h.layered.2⟩, by simp, fun _ => by simp [active], fun i => ?_⟩
  refine (h.handling i).trans ?_
  have up : ∀ a : Act, a ≠ .settle i → (Act.settle i ∈ a :: rest ↔ Act.settle i ∈ rest) := fun a ha => by
    rw [List.mem_cons]
    exact ⟨fun m => m.resolve_left fun e => ha e.symm, .inr⟩
  rw [up act (settle i)]
  rcases hb with rfl | rfl <;> simp

/-- A dispatch of a task begins: its handler is to come, and its state says so. -/
theorem begin_dispatch {i : Nat} {call : BoardCall} {bodies : List (List Op)} {ℓ : Life} {cache : DueCache}
    (h : Sound σ (act :: rest)) (free : Act.settle i ∉ rest)
    (plain : ∀ a : Act, a = .round ∨ (∃ i, a = .settle i) → act ≠ a)
    (c : Scheduler.Changes σ σ' (Function.update σ.life i ℓ) cache)
    (busy : ℓ.state.inHandler = true)
    (column : Column ([.interrupts call bodies, .locked (.fetch i), .settle i] ++ rest)) :
    Sound σ' ([.interrupts call bodies, .locked (.fetch i), .settle i] ++ rest) := by
  have noRound : act ≠ .round := plain _ (.inl rfl)
  have noSettle : ∀ j, act ≠ .settle j := fun j => plain _ (.inr ⟨j, rfl⟩)
  have round : Act.round ∈ act :: rest ↔ Act.round ∈ rest := by simp [noRound.symm]
  refine ⟨column, ⟨trivial, trivial, free, h.layered.2⟩, ?_, ?_, fun j => ?_⟩
  · rw [c.inRound, h.inRound, round]; simp
  · intro m
    rw [c.runState]
    exact h.session (round.2 (by simpa using m))
  · rw [c.life]
    by_cases e : j = i
    · subst e; simp [busy]
    · rw [Function.update_of_ne e, h.handling j]
      simp [(noSettle j).symm, e]

/-- The handler of a task that waits is not in progress. -/
theorem not_settle_of_active (h : Sound σ acts) {i : Nat} {t : Task} (found : σ.arena.slot i = .ok t)
    (active : t.state = .active) : Act.settle i ∉ acts := by
  intro m
  have busy := (h.handling i).2 m
  rw [Scheduler.life, Arena.life_of_slot found, Task.life, active] at busy
  cases busy

/-- The beginning and the end of a session. -/
theorem dismissed (h : Sound σ (act :: rest)) (free : Act.round ∉ rest) (here : act ≠ .round)
    (d : Scheduler.Dismissed σ σ') (p : acts.all fun a => a.plain || a.isClosing)
    (column : Column (acts ++ rest)) (layered : Layered (acts ++ rest)) : Sound σ' (acts ++ rest) := by
  have none : Act.round ∉ act :: rest := fun m => (List.mem_cons.1 m).elim (fun e => here e.symm) free
  have none' : Act.round ∉ acts ++ rest := by
    intro m
    rcases List.mem_append.1 m with m | m
    · have := List.all_eq_true.1 p _ m
      cases this
    · exact free m
  obtain ⟨l, -, life⟩ := d.life
  refine ⟨column, layered, ?_, fun m => absurd m none', fun i => ?_⟩
  · rw [d.inRound, h.inRound]
    exact iff_of_false none none'
  · have idle := h.idle_of_no_round none i
    have out : Act.settle i ∉ acts ++ rest := fun m => none' (column.round_of_settle m)
    refine iff_of_false ?_ out
    rw [life i]
    split
    · simp [Life.blank, TaskState.inHandler]
    · simp [idle]

end Sound

theorem Leads.column {w : World} {δ : Device} {act : Act} {s : Stride} {rest : List Act} (l : Leads w δ act s)
    (h : Column (act :: rest)) : Column (s.frames ++ rest) := by
  rw [Column.iff_stacked, List.map_append]
  exact l.stacked (Column.iff_stacked.1 h)

theorem Delivers.column {δ : Device} {ms : Option UInt32} {act : Act} {s : Stride} {rest : List Act}
    (l : Delivers δ ms act s) (h : Column (act :: rest)) : Column (s.frames ++ rest) := by
  rw [Column.iff_stacked, List.map_append]
  exact l.stacked (Column.iff_stacked.1 h)

namespace Life

/-- Neither a stop nor a new interval tells whether the handler is in progress. -/
theorem inHandler_stop (ℓ : Life) : ℓ.stop.state.inHandler = ℓ.state.inHandler := by
  rcases ℓ with ⟨state, timing, repeats, handler⟩
  cases state <;> rfl

/-- After a dispatch, the handler is over. -/
theorem inHandler_settle (ℓ : Life) : ℓ.settle.state.inHandler = false := by
  rcases ℓ with ⟨state, timing, repeats, handler⟩
  cases state <;> rfl

end Life

open Scheduler in
/-- Every step leaves the flags and states as true as it found them. -/
theorem Leads.sound {w : World} {δ : Device} {act : Act} {s : Stride} {rest : List Act} (l : Leads w δ act s)
    (h : Sound δ.scheduler (act :: rest)) : Sound s.scheduler (s.frames ++ rest) := by
  have column := l.column h.column
  have same := Changes.refl δ.scheduler
  -- The acts that nothing tells of come first, then those that begin or end something.
  cases l with
  | answer | alloc | info | advance | setNow | hook | blockEnd | blockNext | interruptsEnd | interruptsNext | wait
  | retarget | dueFirst | due | notDue | scan | lengthTold | unhandled | fetched | claimedMeanwhile | woken
  | wokenLast | remembered | nothingRemembered | surveyed | walked | looked | passed | notDispatched | handled
  | handledLast | unclaimed | occupied | claiming =>
    exact h.plain_same column rfl rfl same
  | ask ask =>
    refine h.plain_same column rfl ?_ same
    simp [Stride.frames, Act.plain_of_op ask]
  | asked r r' =>
    refine h.plain_same column (Act.plain_of_asks r) ?_ same
    simp [Stride.frames, Act.plain_of_asks r']
  | lengthAsked r =>
    refine h.plain_same column rfl ?_ same
    simp [Stride.frames, Act.plain_of_asks r]
  | told r => exact h.plain_same column (Act.plain_of_asks r) rfl same
  | refused s => exact h.plain_same column (Act.plain_of_refuses s) rfl same
  | declared t => exact h.plain_same column rfl rfl (takeSlots_changes t)
  | noted n => exact h.plain_same column rfl rfl (noteArmed_changes n).2
  | forgotten => exact h.plain_same column rfl rfl (forget_changes _ _)
  | attached a => exact h.plain_same column rfl rfl (attach_changes a)
  | written a => exact h.plain_same column rfl rfl (write_changes a)
  | adopted a => exact h.plain_same column rfl rfl (adopt_changes a).2
  | enrolled e => exact h.plain_same column rfl rfl (enrollPool_changes e)
  | claimed c => exact h.plain_same column rfl rfl (handOut_changes c)
  | stop _ st => exact h.plain_update column rfl rfl (stop_changes st).2 (Life.inHandler_stop _)
  | @configured i _ _ _ _ conf =>
    have c := Scheduler.configured conf
    refine h.plain column rfl rfl c.inRound (fun s => c.runState ▸ s) fun j => ?_
    rw [c.life]
    by_cases e : j = i
    · subst e
      rw [Function.update_self, c.idle]
      rfl
    · rw [Function.update_of_ne e]
  | shutdown =>
    refine h.plain column rfl rfl ?_ ?_ fun i => ?_
    · unfold Scheduler.shutdown; split <;> rfl
    · unfold Scheduler.shutdown
      split
      · rename_i stopped; exact fun _ => stopped
      · intro s
        cases s
    · unfold Scheduler.shutdown; split <;> rfl
  | @start _ _ i _ _ st =>
    refine h.replace column ⟨trivial, ?_, h.layered.2⟩ (by simp [Stride.frames]) (by simp [Stride.frames])
    exact h.started (by simp) (startState_eq_ok st).2
  | update _ re st =>
    have c := (relength_changes re).2.2
    have changed : Sound _ ([_] ++ rest) := h.plain_update h.column rfl rfl c rfl
    refine changed.replace column ⟨trivial, ?_, h.layered.2⟩ (by simp [Stride.frames]) (by simp [Stride.frames])
    exact changed.started (by simp) (startState_eq_ok st).2
  | init stopped =>
    have none : Act.round ∉ rest := fun m => h.session (List.mem_cons_of_mem _ m) stopped
    exact h.replace column ⟨trivial, none, h.layered.2⟩ (by simp [Stride.frames]) (by simp [Stride.frames])
  | run _ free =>
    have none : Act.round ∉ rest := fun m => by
      rw [h.inRound.2 (List.mem_cons_of_mem _ m)] at free
      cases free
    exact h.replace column ⟨none, h.layered.2⟩ (by simp [Stride.frames]) (by simp [Stride.frames])
  | tick active free =>
    have none : Act.round ∉ .perform _ .tick :: rest := fun m => by
      rw [h.inRound.2 m] at free
      cases free
    exact h.begin_round (.inr rfl) none active (fun _ => Act.noConfusion) column
  | anotherRound active =>
    have none : Act.round ∉ .running :: rest := by simpa using (show Act.round ∉ rest from h.layered.1)
    exact h.begin_round (.inl rfl) none active (fun _ => Act.noConfusion) column
  | @stamp i next σ st =>
    have c := start_changes st
    have rests : (next.inHandler = true ↔ Act.settle i ∈ rest) := by
      obtain ⟨below, above⟩ := h.layered.1
      by_cases m : Act.settle i ∈ rest
      · simp [below m, m, TaskState.inHandler]
      · simp [above m, m, TaskState.inHandler]
    have kept : (σ.life i).state.inHandler = (δ.scheduler.life i).state.inHandler := by
      have handling := h.handling i
      rw [List.mem_cons, or_iff_right (by simp), ← rests] at handling
      rw [c.life, Function.update_self, Bool.eq_iff_iff, handling]
      rfl
    have layered : Layered (.locked (.noteArmed i δ.board.clock) :: rest) := ⟨trivial, h.layered.2⟩
    have noted : Sound δ.scheduler ([.locked (.noteArmed i δ.board.clock)] ++ rest) :=
      h.replace column.tail layered (by simp) (by simp)
    refine noted.plain column rfl rfl c.inRound (fun s => c.runState ▸ s) fun j => ?_
    by_cases e : j = i
    · rw [e, kept]
    · rw [c.life, Function.update_of_ne e]
  | renew st =>
    have c := start_changes st
    exact h.begin_dispatch h.layered.1 (by simp) c rfl column
  | @dispatched i t _ found active _ st =>
    have c := stopping_changes st
    have free : Act.settle i ∉ rest := fun m => h.not_settle_of_active found active (List.mem_cons_of_mem _ m)
    exact h.begin_dispatch free (by simp) c rfl column
  | @renewing i t found active _ =>
    have free : Act.settle i ∉ rest := fun m => h.not_settle_of_active found active (List.mem_cons_of_mem _ m)
    exact h.replace column ⟨trivial, free, h.layered.2⟩ (by simp [Stride.frames]) (by simp [Stride.frames])
  | begun b =>
    obtain ⟨d, -⟩ := beginSession_dismissed b
    have left : Sound _ ([.answered .done] ++ rest) :=
      h.dismissed h.layered.1 (by simp) d rfl column (h.layered.2.plain rfl)
    exact ⟨left.column, left.layered, left.inRound, fun m => by simp, left.handling⟩
  | ended e =>
    obtain ⟨d, -⟩ := endSession_dismissed e
    exact h.dismissed h.layered.1 (by simp) d rfl column ⟨trivial, h.layered.1, h.layered.2⟩
  | sessionOver =>
    have left : Sound _ ([.answered .done] ++ rest) := h.replace column (h.layered.2.plain rfl) (by simp) (by simp)
    have none : Act.round ∉ .answered .done :: rest := by simpa using (show Act.round ∉ rest from h.layered.1)
    exact ⟨left.column, left.layered, left.inRound, fun m => absurd m none, left.handling⟩
  | opened | closed | lastRound =>
    exact h.replace column ⟨trivial, h.layered.1, h.layered.2⟩ (by simp [Stride.frames]) (by simp [Stride.frames])
  | @settled i σ st =>
    have c := settle_changes st
    refine ⟨column, h.layered.2, ?_, fun m => ?_, fun j => ?_⟩
    · rw [c.inRound, h.inRound]; simp [Stride.frames]
    · rw [c.runState]; exact h.session (by simpa [Stride.frames] using m)
    · rw [c.life]
      by_cases e : j = i
      · subst e
        have out : Act.settle j ∉ rest := h.layered.1
        rw [Function.update_self, Life.inHandler_settle]
        simp [Stride.frames, out]
      · rw [Function.update_of_ne e, h.handling j]
        simp [Stride.frames, e]

theorem Delivers.sound {δ : Device} {ms : Option UInt32} {act : Act} {s : Stride} {rest : List Act}
    (l : Delivers δ ms act s) (h : Sound δ.scheduler (.deadline ms :: act :: rest)) :
    Sound s.scheduler (s.frames ++ rest) := by
  have column := l.column h.column.tail
  have below : Sound δ.scheduler ([] ++ act :: rest) := h.replace h.column.tail h.layered.2 (by simp) (by simp)
  rw [List.nil_append] at below
  cases l with
  | round =>
    have none : Act.round ∉ rest := h.column.tail.alone h.layered.2
    refine ⟨column, ⟨trivial, h.layered.2.2⟩, ?_, fun m => absurd m ?_, fun i => ?_⟩
    · simpa [Stride.frames] using none
    · simpa [Stride.frames] using none
    · exact (h.handling i).trans (by simp [Stride.frames])
  | ticking =>
    exact below.replace column ⟨trivial, below.layered.2⟩ (by simp [Stride.frames]) (by simp [Stride.frames])
  | sleeping =>
    exact below.replace column ⟨trivial, trivial, below.layered⟩ (by simp [Stride.frames]) (by simp [Stride.frames])
  | awake => exact below

namespace View

/-- The device as a setup makes it: nothing was called yet. -/
structure Fresh (v : View) : Prop where
  scheduler : ∃ capacity, v.scheduler = .fresh capacity
  acts : v.acts = []
  past : v.past = .start v.clock

/-- The flags and states of a device tell the truth. -/
def Sound (v : View) : Prop := TimedTasks.Sound v.scheduler v.acts

variable {v v' : View}

theorem Fresh.sound (h : v.Fresh) : v.Sound := by
  obtain ⟨capacity, fresh⟩ := h.scheduler
  rw [Sound, fresh, h.acts]
  exact .fresh capacity

theorem Sound.turn (h : v.Sound) (t : Turn v v') : v'.Sound := by
  cases t with
  | works acts l =>
    rw [Sound, acts] at h
    simpa [Sound, take, scheduler] using l.sound h
  | delivers acts l =>
    rw [Sound, acts] at h
    simpa [Sound, take, scheduler] using l.sound h

theorem Sound.shift (h : v.Sound) (t : Shift v v') : v'.Sound := by
  cases t with
  | @drops act _ rest acts drops =>
    rw [Sound, acts] at h
    show TimedTasks.Sound v.scheduler ([] ++ rest)
    refine h.replace h.column.tail h.layered.2 ?_ ?_
    · cases act <;> first | cases drops; done | simp
    · cases act <;> first | cases drops; done | simp
  | arrives self op takes =>
    have column : Column (.perform self op :: v.acts) := by
      cases acts : v.acts with
      | nil => rfl
      | cons b rest => exact ⟨takes b (by simp [acts]), acts ▸ h.column⟩
    exact ⟨column, ⟨trivial, h.layered⟩, h.inRound.trans (by simp), fun m => h.session (by simpa using m),
      fun i => (h.handling i).trans (by simp)⟩

end View

/-! ## From views to runs -/

namespace Moment

variable {P : Moment → Prop} {s : Setup} {y : Moment} {d : Nat} {v : View}

theorem initial_fresh (h : (initial s).view d = some v) : v.Fresh := by
  obtain ⟨found, acts, past⟩ := view_eq_some h
  have clock : Machine.clock ⟨s.world, []⟩ d = v.clock := Machine.clock_eq found
  refine ⟨?_, acts, by rw [past, ← clock]; rfl⟩
  simp only [initial, Setup.world, List.getElem?_toArray, List.getElem?_map, Option.map_eq_some_iff] at found
  obtain ⟨setup, -, made⟩ := found
  exact ⟨setup.capacity, by rw [View.scheduler, ← made]; rfl⟩

/-- What holds of a device at first, and is kept by all that the device can show later, holds of it at last. `Q` is
what the run promises of the device. -/
theorem view_of_run_from {I Q : View → Prop} {x : Moment} (r : Run P x y) (stacked : Stacked x.machine.stack)
    (promise : ∀ z v, P z → z.view d = some v → Q v) (first : ∀ v, x.view d = some v → I v)
    (turn : ∀ v v', I v → Q v → View.Turn v v' → Q v' → I v')
    (shift : ∀ v v', I v → View.Shift v v' → I v') (h : y.view d = some v) : I v := by
  suffices all : Stacked y.machine.stack ∧ ∀ v, y.view d = some v → I v from all.2 v h
  refine r.invariant (I := fun y => Stacked y.machine.stack ∧ ∀ v, y.view d = some v → I v) ⟨stacked, first⟩ ?_
  rintro x z ⟨stacked, views⟩ px next pz
  refine ⟨next.machine.turn.stacked stacked, fun v' hv' => ?_⟩
  obtain ⟨v, hv, later⟩ := next.view_later stacked hv'
  rcases later with turned | shifted
  · exact turn v v' (views v hv) (promise x v px hv) turned (promise z v' pz hv')
  · clear hv'
    induction shifted with
    | refl => exact views v hv
    | tail _ s ih => exact shift _ _ ih s

/-- The same of a run from the beginning. -/
theorem view_of_run {I Q : View → Prop} (r : Run P (initial s) y) (promise : ∀ z v, P z → z.view d = some v → Q v)
    (fresh : ∀ v, v.Fresh → I v) (turn : ∀ v v', I v → Q v → View.Turn v v' → Q v' → I v')
    (shift : ∀ v v', I v → View.Shift v v' → I v') (h : y.view d = some v) : I v :=
  view_of_run_from r trivial promise (fun v hv => fresh v (initial_fresh hv)) turn shift h

/-- In every run, the flags and states of every device tell the truth. -/
theorem sound (r : Run P (initial s) y) (h : y.view d = some v) : v.Sound :=
  view_of_run r (fun _ _ _ _ => trivial) (fun _ => View.Fresh.sound) (fun _ _ h (_ : True) t _ => h.turn t)
    (fun _ _ h t => h.shift t) h

end Moment

end TimedTasks
