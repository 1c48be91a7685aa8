import TimedTasks.Proofs.Rounds
import TimedTasks.Proofs.Walk

/-!
# Exact periods

A run of rounds that nothing but time moves dispatches its tasks when they are due, and never else. So a repeating task
runs each time that another interval is over, counted from its start, however the run sleeps and however often the
clock wraps; and a task that runs once runs when its interval is over (`Moment.periods_exact`).

The invariant is `View.Paced`: since the run was called the task ran `n` times, at the first `n` of its beats, and a
repeating task was last stamped at the `n`-th. A dispatch adds the next beat to the list. It comes neither late
(`OnTime.punctual`) nor early (`InHand.ripe`).
-/

namespace TimedTasks

/-- When its handler is back, a task waits again or is stopped. -/
theorem Life.settle_spec (ℓ : Life) : ℓ.settle.timing = ℓ.timing ∧ ℓ.settle.repeats = ℓ.repeats ∧
    (ℓ.state = .active ∨ ℓ.state = .executing → ℓ.settle.state = .active) ∧
    (ℓ.state = .stopping ∨ ℓ.state = .stopped → ℓ.settle.state = .stopped) := by
  rcases ℓ with ⟨state, timing, repeats, handler⟩
  cases state <;> simp [settle]

namespace View

/-- When the `n`-th interval of a task is over, counted from this moment. -/
def beat (v : View) (i n : Nat) : Nat := v.past.time + n * (v.scheduler.life i).timing.length.toNat

@[simp] theorem beat_zero (v : View) (i : Nat) : v.beat i 0 = v.past.time := by simp [beat]

/-- Each beat comes one length after the one before. -/
theorem beat_succ (v : View) (i n : Nat) : v.beat i (n + 1) = v.beat i n + (v.scheduler.life i).timing.length.toNat := by
  rw [beat, beat, Nat.succ_mul, Nat.add_assoc]

/-- The first beats of a task. -/
def beats (v : View) (i n : Nat) : List Nat := (List.range n).map fun k => v.beat i (k + 1)

theorem beats_succ (v : View) (i n : Nat) : v.beats i (n + 1) = v.beats i n ++ [v.beat i (n + 1)] := by
  rw [beats, beats, List.range_succ, List.map_append]
  rfl

/-- Since the moment of `v₀` the task ran at its first `n` beats, or the call of its handler is about to come. -/
structure Paced (v₀ v : View) (i n : Nat) : Prop where
  length : (v.scheduler.life i).timing.length = (v₀.scheduler.life i).timing.length
  repeats : (v.scheduler.life i).repeats = (v₀.scheduler.life i).repeats
  fired : .locked (.fetch i) ∉ v.acts → v.past.fired i = v₀.past.fired i ++ v₀.beats i n
  fetching : .locked (.fetch i) ∈ v.acts → v.past.fired i ++ [v.past.time] = v₀.past.fired i ++ v₀.beats i n
  /-- A repeating task was last stamped at its last beat. -/
  again : (v₀.scheduler.life i).repeats = true → v.past.stamp i = v₀.beat i n ∧
    ((v.scheduler.life i).state = .active ∨ (v.scheduler.life i).state = .executing)
  once : (v₀.scheduler.life i).repeats = false →
    n = 0 ∧ v.past.stamp i = v₀.past.time ∧ (v.scheduler.life i).state = .active ∨
    n = 1 ∧ v₀.beat i 1 ≤ v.past.time ∧
      ((v.scheduler.life i).state = .stopping ∨ (v.scheduler.life i).state = .stopped)

namespace Paced

variable {v₀ v v' : View} {i n : Nat}

/-- A step that does nothing to the task. -/
theorem keep (h : Paced v₀ v i n) (life : v'.scheduler.life i = v.scheduler.life i)
    (stamp : v'.past.stamp i = v.past.stamp i) (fired : v'.past.fired i = v.past.fired i)
    (time : v.past.time ≤ v'.past.time) (same : .locked (.fetch i) ∈ v'.acts ↔ .locked (.fetch i) ∈ v.acts)
    (still : .locked (.fetch i) ∈ v.acts → v'.past.time = v.past.time) : Paced v₀ v' i n := by
  refine ⟨by rw [life, h.length], by rw [life, h.repeats], fun m => ?_, fun m => ?_, fun r => ?_, fun r => ?_⟩
  · rw [fired]
    exact h.fired fun m' => m (same.2 m')
  · rw [fired, still (same.1 m)]
    exact h.fetching (same.1 m)
  · rw [stamp, life]
    exact h.again r
  · rw [stamp, life]
    exact (h.once r).imp_right (And.imp_right (And.imp_left fun late => Nat.le_trans late time))

/-- A task that is paced is configured. -/
theorem configured (h : Paced v₀ v i n) : (v.scheduler.life i).state ≠ .uninit := by
  intro u
  cases r : (v₀.scheduler.life i).repeats with
  | true => rcases (h.again r).2 with s | s <;> (rw [u] at s; cases s)
  | false =>
    rcases h.once r with ⟨-, -, s⟩ | ⟨-, -, s | s⟩ <;> (rw [u] at s; cases s)

/-- A round looks at a task whose time has come at its very next beat. -/
theorem time_eq_beat (h : Paced v₀ v i n) (ripe : v.past.Ripe v.scheduler i)
    (punctual : OnTime v.scheduler v.past v.acts) : v.past.time = v₀.beat i (n + 1) := by
  have late := ripe.2
  have early := punctual.punctual i ripe.1
  rw [Chronicle.due, h.length] at late early
  have stamp : v.past.stamp i = v₀.beat i n := by
    cases r : (v₀.scheduler.life i).repeats with
    | true => exact (h.again r).1
    | false =>
      rcases h.once r with ⟨zero, stamp, -⟩ | ⟨-, -, s⟩
      · rw [stamp, zero, beat_zero]
      · have active : (v.scheduler.life i).state = .active := ripe.1
        rcases s with s | s <;> (rw [active] at s; cases s)
  rw [stamp] at late early
  rw [beat_succ]
  omega

end Paced

end View

/-- The act is part of a dispatch of the task. -/
def Act.Dispatches (i : Nat) : Act → Prop
  | dispatch j | settle j | reading (.renew j) | locked (.fetch j) => j = i
  | _ => False

/-- The other steps of a run of rounds do nothing to the task. -/
theorem Leads.elsewhere {w : World} {δ : Device} {act : Act} {s : Stride} {i : Nat} (l : Leads w δ act s)
    (kind : act.steady) (ends : ∀ op ∈ act.orders, op.ends) (other : ¬act.Dispatches i) :
    s.scheduler.life i = δ.scheduler.life i ∧ act.stamps ≠ some i ∧ s.invoked ≠ some i ∧
      .locked (.fetch i) ∉ s.frames := by
  refine ⟨?_, fun e => ?_, fun e => ?_, fun m => ?_⟩
  · have lives := l.lives
    generalize s.scheduler.life = life at lives
    cases lives with
    | same => rfl
    | renew | dispatch | settle => exact Function.update_of_ne (Ne.symm other) _ _
    | dismiss which => rcases which with rfl | rfl <;> cases kind
    | _ => first | cases kind; done | cases ends _ List.mem_cons_self
  · cases act with
    | reading r => cases r <;> first | cases e; done | cases kind; done | exact other (Option.some.inj e)
    | _ => cases e
  · cases l with
    | fetched => exact other (Option.some.inj e)
    | _ => cases e
  · cases l with
    | ask ask => cases ask <;> simp [Stride.frames] at m
    | renew | dispatched =>
      simp only [Stride.frames, List.mem_cons, Act.locked.injEq, Section.fetch.injEq, List.not_mem_nil, or_false,
        reduceCtorEq, false_or] at m
      exact other m.symm
    | _ => simp [Stride.frames] at m

namespace Steps

open View Scheduler

variable {v₀ v : View} {w : World} {act : Act} {s : Stride} {rest : List Act} {i n : Nat}

/-- A round calls no handler before it is done with the last one. -/
theorem not_fetching (h : Steps v w act s rest) (major : act.aside = false) (other : act ≠ .locked (.fetch i)) :
    .locked (.fetch i) ∉ v.acts := by
  rw [h.acts, List.mem_cons]
  rintro (e | m)
  · exact other e.symm
  · cases h.alone major _ m

/-- The next beat of a task that is dispatched, which the call of its handler is about to add. -/
theorem fetching_beat (h : Steps v w act s rest) (p : Paced v₀ v i n) (ripe : v.past.Ripe v.scheduler i)
    (clock : s.board.clock = v.clock) (out : .locked (.fetch i) ∉ v.acts) (quiet : s.invoked = none) :
    (v.past.after v.clock act s).time = v₀.beat i (n + 1) ∧
      (v.past.after v.clock act s).fired i ++ [(v.past.after v.clock act s).time] =
        v₀.past.fired i ++ v₀.beats i (n + 1) := by
  have time : (v.past.after v.clock act s).time = v₀.beat i (n + 1) := by
    rw [Chronicle.time_after_eq clock]
    exact p.time_eq_beat ripe h.steady.onTime
  have fired : (v.past.after v.clock act s).fired i = v.past.fired i := by simp [Chronicle.after, quiet]
  exact ⟨time, by rw [time, fired, p.fired out, beats_succ, List.append_assoc]⟩

/-- The next interval of a repeating task begins at its next beat. -/
theorem paced_renew (h : Steps v w (.reading (.renew i)) s rest) (p : Paced v₀ v i n) :
    Paced v₀ (take s rest (v.past.after v.clock (.reading (.renew i)) s)) i (n + 1) := by
  have seen := h.steady.inHand
  have repeats := seen.repeating i h.head
  have again : (v₀.scheduler.life i).repeats = true := by rw [← p.repeats, repeats]
  have out : .locked (.fetch i) ∉ v.acts := h.not_fetching rfl (by simp)
  have clock := h.clock (by simp)
  have l := h.leads
  cases l with
  | renew st =>
    obtain ⟨time, fetching⟩ := h.fetching_beat p (seen.ripe i (.inr h.head)) clock out rfl
    have life := congrFun (start_changes st).life i
    rw [Function.update_self] at life
    refine ⟨?_, ?_, fun no => ?_, fun _ => fetching, fun _ => ⟨?_, .inr ?_⟩, fun once => ?_⟩
    · exact (congrArg (·.timing.length) life).trans p.length
    · exact (congrArg (·.repeats) life).trans p.repeats
    · exact absurd (List.mem_cons_of_mem _ List.mem_cons_self) no
    · rw [← time, Chronicle.time_after_eq clock]
      exact if_pos rfl
    · exact congrArg (·.state) life
    · rw [again] at once
      cases once
  | asked r | told r => cases r

/-- A task that runs once is dispatched at its only beat. -/
theorem paced_dispatch (h : Steps v w (.dispatch i) s rest) (p : Paced v₀ v i n) :
    ∃ n', Paced v₀ (take s rest (v.past.after v.clock (.dispatch i) s)) i n' := by
  have ripe := h.steady.inHand.ripe i (.inl h.head)
  have active : (v.scheduler.life i).state = .active := ripe.1
  have out : .locked (.fetch i) ∉ v.acts := h.not_fetching rfl (by simp)
  have clock := h.clock (by simp)
  have l := h.leads
  cases l with
  | @dispatched _ t _ found _ repeats st =>
    obtain ⟨time, fetching⟩ := h.fetching_beat p ripe clock out rfl
    have life := congrFun (stopping_changes st).life i
    rw [Function.update_self] at life
    have once : (v₀.scheduler.life i).repeats = false := by
      rw [← p.repeats, show v.scheduler.life i = t.life from Arena.life_of_slot found]
      exact repeats
    have zero : n = 0 := by
      rcases p.once once with ⟨zero, -⟩ | ⟨-, -, s | s⟩
      · exact zero
      · rw [active] at s; cases s
      · rw [active] at s; cases s
    subst zero
    refine ⟨1, ?_, ?_, fun no => ?_, fun _ => fetching, fun again => ?_, fun _ => .inr ⟨rfl, ?_, .inl ?_⟩⟩
    · exact (congrArg (·.timing.length) life).trans p.length
    · exact (congrArg (·.repeats) life).trans p.repeats
    · exact absurd (List.mem_cons_of_mem _ List.mem_cons_self) no
    · rw [once] at again
      cases again
    · exact Nat.le_of_eq time.symm
    · exact congrArg (·.state) life
  | renewing =>
    refine ⟨n, p.keep rfl rfl ?_ Chronicle.time_after ?_ fun m => absurd m out⟩
    · exact List.append_nil _
    · rw [h.acts]
      simp [take, Stride.frames]
  | notDispatched found idle =>
    have life : v.scheduler.life i = _ := Arena.life_of_slot found
    rw [life] at active
    exact absurd active idle

/-- The invocation is noted at the beat that was counted. -/
theorem paced_fetch (h : Steps v w (.locked (.fetch i)) s rest) (p : Paced v₀ v i n) :
    Paced v₀ (take s rest (v.past.after v.clock (.locked (.fetch i)) s)) i n := by
  have handled := h.orderly.linked.handled i p.configured
  have below : .locked (.fetch i) ∉ rest := fun m => by cases h.alone rfl _ m
  have l := h.leads
  cases l with
  | @fetched _ t k found handler =>
    refine ⟨p.length, p.repeats, fun _ => ?_, fun m => absurd m ?_, p.again, fun once => ?_⟩
    · refine Eq.trans ?_ (p.fetching h.head)
      simp [take, Chronicle.after, Stride.invoked]
    · simpa [take, Stride.frames] using below
    · exact (p.once once).imp_right (And.imp_right (And.imp_left fun late => Nat.le_trans late Chronicle.time_after))
  | unhandled found none =>
    have life : v.scheduler.life i = _ := Arena.life_of_slot found
    rw [life] at handled
    change Option.isSome _ at handled
    rw [Task.life] at handled
    simp [none] at handled
  | refused r => cases r

/-- The end of a dispatch leaves the count. -/
theorem paced_settle (h : Steps v w (.settle i) s rest) (p : Paced v₀ v i n) :
    Paced v₀ (take s rest (v.past.after v.clock (.settle i) s)) i n := by
  have out : .locked (.fetch i) ∉ v.acts := h.not_fetching rfl (by simp)
  have below : .locked (.fetch i) ∉ rest := fun m => out (h.acts ▸ List.mem_cons_of_mem _ m)
  have l := h.leads
  cases l with
  | settled st =>
    have life := congrFun (settle_changes st).life i
    rw [Function.update_self] at life
    obtain ⟨timing, repeats, again', stopped⟩ := (v.scheduler.life i).settle_spec
    refine ⟨?_, ?_, fun _ => ?_, fun m => absurd m below, fun again => ?_, fun once => ?_⟩
    · exact (congrArg (·.timing.length) life).trans ((congrArg (·.length) timing).trans p.length)
    · exact (congrArg (·.repeats) life).trans (repeats.trans p.repeats)
    · exact Eq.trans (List.append_nil _) (p.fired out)
    · obtain ⟨stamp, state⟩ := p.again again
      exact ⟨stamp, .inl ((congrArg (·.state) life).trans (again' state))⟩
    · rcases p.once once with ⟨zero, stamp, s⟩ | ⟨one, late, state⟩
      · exact .inl ⟨zero, stamp, (congrArg (·.state) life).trans (again' (.inl s))⟩
      · exact .inr ⟨one, Nat.le_trans late Chronicle.time_after, .inr ((congrArg (·.state) life).trans (stopped state))⟩

/-- Each step of a round leaves the task paced. -/
theorem paced (h : Steps v w act s rest) (major : act.aside = false) (p : ∃ n, Paced v₀ v i n) :
    ∃ n, Paced v₀ (take s rest (v.past.after v.clock act s)) i n := by
  obtain ⟨n, p⟩ := p
  by_cases own : act.Dispatches i
  · cases act with
    | dispatch j => cases own; exact h.paced_dispatch p
    | settle j => cases own; exact ⟨n, h.paced_settle p⟩
    | reading r =>
      cases r with
      | renew j => cases own; exact ⟨n + 1, h.paced_renew p⟩
      | _ => cases own
    | locked r =>
      cases r with
      | fetch j => cases own; exact ⟨n, h.paced_fetch p⟩
      | _ => cases own
    | _ => cases own
  · obtain ⟨life, stamps, invoked, out⟩ := h.leads.elsewhere h.kind h.ends own
    refine ⟨n, p.keep ?_ (if_neg stamps) ?_ Chronicle.time_after ?_ fun m => ?_⟩
    · rw [View.take, View.scheduler, Stride.scheduler_device]
      exact life
    · simp [take, Chronicle.after, invoked]
    · rw [h.acts, take, List.mem_append, List.mem_cons]
      exact or_congr (iff_of_false out (fun e => own (e ▸ rfl))) Iff.rfl
    · refine Chronicle.time_after_eq (h.clock fun ms e => ?_)
      subst e
      exact h.not_fetching rfl (by simp) m

end Steps

namespace View

variable {v₀ v v' : View} {i : Nat}

/-- So does every step of the device, those of interrupts included. -/
theorem Paced.turn (p : ∃ n, Paced v₀ v i n) (h : v.Steady) (o : v.Orderly) (quiet : v.Quiet) (spared : v.Spared)
    (modest : v.Modest) (t : Turn v v') : ∃ n, Paced v₀ v' i n := by
  cases t with
  | @works w act s _ rest acts l =>
    have steps := h.steps o quiet spared modest acts l
    cases major : act.aside with
    | false => exact steps.paced major p
    | true =>
      obtain ⟨n, p⟩ := p
      obtain ⟨arena, -, -, frames⟩ := l.aside major steps.ends
      have past := l.after_aside major steps.ends v.past
      have out : .locked (.fetch i) ∉ s.frames := fun m => by cases frames _ m
      have other : .locked (.fetch i) ≠ act := by rintro rfl; cases major
      have time : (take s rest (v.past.after v.clock act s)).past.time = v.past.time := congrArg (·.time) past
      refine ⟨n, p.keep ?_ (congrArg (·.stamp i) past) (congrArg (·.fired i) past) (Nat.le_of_eq time.symm) ?_
        fun _ => time⟩
      · rw [take, scheduler, Stride.scheduler_device, Scheduler.life, arena]
        rfl
      · rw [acts, take, List.mem_append, List.mem_cons]
        exact or_congr (iff_of_false out other) Iff.rfl
  | @delivers ms act s _ rest acts l =>
    obtain ⟨n, p⟩ := p
    refine ⟨n, p.keep ?_ rfl rfl (Nat.le_refl _) ?_ fun _ => rfl⟩
    · cases l <;> rfl
    · rw [acts, take]
      cases l <;> simp [Stride.frames]

/-- And what happens between. -/
theorem Paced.shift {n : Nat} (p : Paced v₀ v i n) (t : Shift v v') : Paced v₀ v' i n := by
  cases t with
  | @drops act _ rest acts drops =>
    refine p.keep rfl rfl rfl (Nat.le_refl _) ?_ fun _ => rfl
    have other : .locked (.fetch i) ≠ act := by rintro rfl; cases drops
    simp [acts, other]
  | arrives self op => exact p.keep rfl rfl rfl (Nat.le_refl _) (by simp) fun _ => rfl

end View

/-- Nothing but the end of sessions is asked for. -/
def Modest (stack : List Frame) : Prop := ∀ f ∈ stack, ∀ op ∈ f.act.orders, op.ends

instance {stack : List Frame} : Decidable (Modest stack) :=
  inferInstanceAs (Decidable (∀ f ∈ stack, ∀ op ∈ f.act.orders, op.ends))

namespace Modest

variable {stack : List Frame}

theorem confined (h : Modest stack) : Confined Op.ends stack := by
  intro f m body mb
  rw [List.all_eq_true]
  intro op mo
  refine h f m op ?_
  cases ha : f.act with
  | interrupts call bodies =>
    rw [ha] at mb
    exact List.mem_flatten.2 ⟨body, mb, mo⟩
  | _ => rw [ha] at mb; cases mb

theorem view {z : Moment} {d : Nat} {v : View} (h : Modest z.machine.stack) (hv : z.view d = some v) : v.Modest := by
  intro a m
  rw [(Moment.view_eq_some hv).2.1, pending, List.mem_filterMap] at m
  obtain ⟨f, m, here⟩ := m
  unfold Frame.actOn at here
  split at here
  · cases here
    exact h f m
  · cases here

end Modest

namespace View

variable {v₀ v v' : View} {i n : Nat} {ms : Option UInt32}

/-- A run that is called when tasks were just started, on a board whose clock moves in sleep only. -/
theorem steady_of_called (o : v.Orderly) (called : v.acts = [.running])
    (started : ∀ i, v.scheduler.arena.Waits i → v.past.stamp i = v.past.time)
    (still : ∀ p ∈ v.device.board.pace, p = 0) : v.Steady := by
  have only : ∀ {a : Act}, a ∈ v.acts → a = .running := fun m => List.mem_singleton.1 (called ▸ m)
  refine ⟨⟨[], called, by simp⟩, fun a m => ?_, still, fun ms m => ?_, fun best now m => ?_,
    ⟨fun i t m => ?_, fun i m => ?_, fun i m => ?_⟩, ⟨fun i w => ?_, fun nap m => ?_, fun i e => ?_⟩, fun a m => ?_⟩
  · rw [only m]; rfl
  · cases only m
  · cases only m
  · cases only m
  · rcases m with m | m <;> cases only m
  · cases only m
  · rw [Chronicle.due, started i w]
    exact Nat.le_add_right _ _
  · cases only m
  · cases only ((o.sound.handling i).1 (by rw [e]; rfl))
  · rw [only m]; trivial

/-- A task that was started when the run was called is paced, with no beat behind it. -/
theorem paced_of_called (called : v.acts = [.running]) (waits : v.scheduler.arena.Waits i)
    (started : v.past.stamp i = v.past.time) : Paced v v i 0 := by
  refine ⟨rfl, rfl, fun _ => (List.append_nil _).symm, fun m => ?_, fun _ => ⟨?_, .inl waits⟩, fun _ => .inl ?_⟩
  · rw [called] at m
    cases List.mem_singleton.1 m
  · rw [started, beat_zero]
  · exact ⟨rfl, started, waits⟩

/-- Since the run of rounds was called at the moment of `v₀`, the tasks that waited then keep their beats, until the run
is over. -/
def InStep (v₀ v : View) : Prop :=
  .running ∉ v.acts ∨
    ((v.Cached ∧ v.Quiet) ∧ v.Steady ∧ ∀ i, v₀.scheduler.arena.Waits i → ∃ n, Paced v₀ v i n)

/-- A step keeps the tasks on their beats, as long as the run goes on. -/
theorem InStep.turn (h : InStep v₀ v) (o : v.Orderly) (spared : v.Spared) (modest : v.Modest) (t : Turn v v') :
    InStep v₀ v' := by
  rcases h with none | ⟨⟨cached, quiet⟩, steady, paced⟩
  · exact .inl (not_running_of_turn modest none t)
  · have cached' := cached.turn o (steady.young o.timed) (quiet.undisturbed o.sound spared) t
    have quiet' := quiet.turn cached o.sound spared t
    refine (steady.turn o quiet cached spared modest cached' t).symm.imp id fun steady' => ?_
    exact ⟨⟨cached', quiet'⟩, steady', fun i w => Paced.turn (paced i w) steady o quiet spared modest t⟩

theorem InStep.shift (h : InStep v₀ v) (t : Shift v v') : InStep v₀ v' := by
  rcases h with none | ⟨⟨cached, quiet⟩, steady, paced⟩
  · refine .inl ?_
    cases t with
    | drops acts _ => exact fun m => none (acts ▸ List.mem_cons_of_mem _ m)
    | arrives self op => simpa using none
  · exact .inr ⟨⟨cached.shift t, quiet.shift t⟩, steady.shift t, fun i w => (paced i w).imp fun _ p => p.shift t⟩

/-- At the end of a round a repeating task has run as often as its interval was over, and each time when it was; a task
that runs once has run when its interval was over, if it was. -/
theorem Paced.fired_eq (p : Paced v₀ v i n) (h : v.Steady) (o : v.Orderly) (ended : v.acts = [.deadline ms, .running]) :
    ((v₀.scheduler.life i).repeats = true → v.past.fired i = v₀.past.fired i ++
      v₀.beats i ((v.past.time - v₀.past.time) / (v₀.scheduler.life i).timing.length.toNat)) ∧
    ((v₀.scheduler.life i).repeats = false → v.past.fired i = v₀.past.fired i ++
      if v₀.beat i 1 ≤ v.past.time then [v₀.beat i 1] else []) := by
  have fired := p.fired (by rw [ended]; simp)
  have stamped := o.timed.stamp_le i
  have not : ∀ {i : Nat}, v.scheduler.arena.Waits i → v.past.time < v.past.due v.scheduler i := fun w =>
    Nat.lt_of_not_le fun due => h.covered (.deadline ms) (ended ▸ List.mem_cons_self) _ ⟨w, due⟩
  constructor
  · intro again
    obtain ⟨stamp, state⟩ := p.again again
    have waits : v.scheduler.arena.Waits i := by
      refine state.resolve_right fun executing => ?_
      have settle := (o.sound.handling i).1 (by rw [executing]; rfl)
      simp [ended] at settle
    have early := not waits
    rw [Chronicle.due, p.length, stamp] at early
    rw [stamp] at stamped
    have count : (v.past.time - v₀.past.time) / (v₀.scheduler.life i).timing.length.toNat = n := by
      rw [beat] at early stamped
      refine Nat.div_eq_of_lt_le (by omega) ?_
      rw [Nat.succ_mul]
      omega
    rw [count, fired]
  · intro once
    rcases p.once once with ⟨rfl, stamp, active⟩ | ⟨rfl, late, -⟩
    · have early := not active
      rw [Chronicle.due, p.length, stamp, ← beat_zero v₀ i, ← beat_succ, Nat.zero_add] at early
      rw [if_neg (by omega), fired]
      rfl
    · rw [if_pos late, fired]
      rfl

end View

namespace Moment

variable {P Q : Moment → Prop} {s : Setup} {x y : Moment} {d : Nat} {v v' : View} {ms : Option UInt32}

/-- A run of rounds is called when all tasks that wait were just started, on a board whose clock moves in sleep only, and
from then on handlers and interrupts ask for nothing but the end of sessions. Before, interrupts asked for nothing else
either, and no task got too old, as none does when all are started at the time of the call. Then at the end of every
round, each repeating task has run as often as its interval was over since the call, each time at the very moment; and
each task that runs once has run when its interval was over, if it was. -/
theorem periods_exact (r : Run P (initial s) x) (ends : ∀ z, P z → Confined Op.ends z.machine.stack)
    (young : ∀ z v, P z → z.view d = some v → v.Young) (h : x.view d = some v) (called : v.acts = [.running])
    (started : ∀ i, v.scheduler.arena.Waits i → v.past.stamp i = v.past.time)
    (still : ∀ p ∈ v.device.board.pace, p = 0) (r' : Run Q x y) (modest : ∀ z, Q z → Modest z.machine.stack)
    (h' : y.view d = some v') (ended : v'.acts = [.deadline ms, .running]) (i : Nat) (waits : v.scheduler.arena.Waits i) :
    ((v.scheduler.life i).repeats = true → v'.past.fired i = v.past.fired i ++
      v.beats i ((v'.past.time - v.past.time) / (v.scheduler.life i).timing.length.toNat)) ∧
    ((v.scheduler.life i).repeats = false → v'.past.fired i = v.past.fired i ++
      if v.beat i 1 ≤ v'.past.time then [v.beat i 1] else []) := by
  have whole : ∀ z, Run Q x z → Run (fun z => Confined Op.ends z.machine.stack) (initial s) z := fun z r₂ =>
    (r.mono ends).trans (r₂.mono fun z q => (modest z q).confined)
  have known : ∀ z, Run Q x z → ∀ v, z.view d = some v → v.Orderly ∧ v.Spared := fun z r₂ v hv =>
    ⟨orderly (whole z r₂) (fun _ => confined_calm_of_ends) hv, guarded (whole z r₂) tame_ends (fun _ => id) hv⟩
  obtain ⟨orderly₀, cached₀, quiet₀⟩ := quiet r ends young h
  have inv : View.InStep v v' := by
    refine view_of_run_from (Q := fun v => (v.Orderly ∧ v.Spared) ∧ v.Modest) (r'.also known) (stacked_of_run r)
      (fun z u q hu => ⟨q.2 u hu, (modest z q.1).view hu⟩) (fun u hu => ?_)
      (fun _ _ inv q t _ => View.InStep.turn inv q.1.1 q.1.2 q.2 t) (fun _ _ inv t => View.InStep.shift inv t) h'
    cases h.symm.trans hu
    exact .inr ⟨⟨cached₀, quiet₀⟩, View.steady_of_called orderly₀ called started still,
      fun i w => ⟨0, View.paced_of_called called w (started i w)⟩⟩
  obtain ⟨-, steady, paced⟩ := inv.resolve_left fun none => none (by rw [ended]; simp)
  obtain ⟨n, p⟩ := paced i waits
  exact p.fired_eq steady (known y r' v' h').1 ended

/-- One scheduler with two slots, whose clock is about to wrap, on a board that wakes up early from the first sleep. -/
def wrapping : Setup := ⟨[⟨2, 4294967286, [], [3, 100]⟩], false, [], [[]], 20, false⟩

/-- A session with a repeating task and one that runs once, and a run of rounds. -/
def runTwo : List (Nat × Op) :=
  [(0, .declare), (0, .declare), (0, .init), (0, .configure (.slot 0) 0 7 true), (0, .configure (.slot 1) 0 5 false),
    (0, .start (.slot 0)), (0, .start (.slot 1)), (0, .run)]

/-- The clock wraps between the first two runs of the repeating task. -/
theorem periods_exact_over_wrap : ∃ (x y : Moment) (v v' : View), x.view 0 = some v ∧ v.past.time = 4294967286 ∧
    Run (fun z => Modest z.machine.stack) x y ∧ y.view 0 = some v' ∧ v'.acts = [.deadline (some 7), .running] ∧
    v'.past.time = 4294967300 ∧ v'.past.fired 0 = [4294967293, 4294967300] ∧ v'.past.fired 1 = [4294967291] := by
  let at' := fun n => ((initial wrapping).steps n runTwo).1
  have shown : ((at' 43).view 0).any fun v =>
      (∀ i < v.scheduler.arena.size, v.scheduler.arena.Waits i → v.past.stamp i = v.past.time) ∧
        v.device.board.pace = [] ∧ v.past.time = 4294967286 ∧ v.past.fired 0 = [] ∧ v.past.fired 1 = [] ∧
        v.scheduler.arena.Waits 0 ∧ v.scheduler.arena.Waits 1 ∧
        v.scheduler.life 0 = ⟨.active, ⟨4294967286, 7⟩, true, some 0⟩ ∧
        v.scheduler.life 1 = ⟨.active, ⟨4294967286, 5⟩, false, some 0⟩ := by decide +kernel
  have called : ((at' 43).view 0).map (·.acts) = some [.running] := by rfl
  have ended : ((at' 138).view 0).any fun v => v.result = some (some 7) ∧ v.past.time = 4294967300 := by decide +kernel
  obtain ⟨v, hv, test⟩ := (Option.any_eq_true _ _).1 shown
  obtain ⟨v', hv', last⟩ := (Option.any_eq_true _ _).1 ended
  obtain ⟨started, pace, time, none₀, none₁, waits₀, waits₁, life₀, life₁⟩ := of_decide_eq_true test
  have acts₀ : v.acts = [.running] := by
    rw [hv] at called
    exact Option.some.inj called
  obtain ⟨result, time'⟩ := of_decide_eq_true last
  have acts := View.acts_of_result result
  have first : Run (fun z => Confined Op.ends z.machine.stack ∧ ∀ v ∈ z.view 0, v.Young) (initial wrapping) (at' 43) :=
    run_steps (by decide +kernel)
  have later : Run (fun z => Modest z.machine.stack) (at' 43) (at' (43 + 95)) :=
    run_steps_add (by decide +kernel) (by decide +kernel)
  have exact' := periods_exact first (fun _ p => p.1) (fun _ v p hv => p.2 v hv) hv acts₀
    (fun i w => started i w.lt_size w) (by simp [pace]) later (fun _ => id) hv' acts
  have fired₀ := (exact' 0 waits₀).1 (by rw [life₀])
  have fired₁ := (exact' 1 waits₁).2 (by rw [life₁])
  rw [View.beats, time', time, life₀, none₀] at fired₀
  rw [View.beat, time', time, life₁, none₁] at fired₁
  refine ⟨_, _, v, v', hv, time, later, hv', acts, time', fired₀.trans ?_, fired₁.trans rfl⟩
  simp only [View.beat, time, life₀]
  rfl

end Moment

end TimedTasks
