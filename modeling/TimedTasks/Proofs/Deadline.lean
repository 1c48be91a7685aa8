import TimedTasks.Proofs.Quiet
import TimedTasks.Proofs.Record

/-!
# What is said to be due next is due next

The deadline of a round is the least time that any waiting task has left, at the last reading of the clock that the
round made, and no task waits when there is none. Between operations the remembered task is the one that is due first.
This holds of every run in which no task gets too old and interrupts leave the word of starts and scans to the cache
undisturbed (`Moment.deadline_least_undisturbed`), and so of every run in which interrupts ask for nothing but the end of
sessions (`Moment.deadline_least`). A run of rounds then sleeps exactly that long.
-/

namespace TimedTasks

namespace View

variable {v v' : View}

/-- The remembered task, if it waits, has no more time left than any other waiting task. -/
def Nearest (v : View) : Prop :=
  ∀ c, v.scheduler.cache.soonest = some c → v.scheduler.arena.Waits c →
    ∀ i, v.scheduler.arena.Waits i → v.scheduler.arena.left v.clock c ≤ v.scheduler.arena.left v.clock i

/-- Nothing is in progress on the device, or a round of it is just over. -/
def AtRest (v : View) : Prop :=
  v.acts = [] ∨ ∃ ms act rest, v.acts = .deadline ms :: act :: rest ∧ act.loops

/-- Between rounds, no start is in progress and no walk along the queue. -/
theorem Orderly.at_rest (o : v.Orderly) (rest : v.AtRest) :
    ¬Scans v.acts ∧ (∀ best now, .locked (.adopt best now) ∉ v.acts) ∧ (∀ i now, .locked (.noteArmed i now) ∉ v.acts) ∧
      ∀ i, ¬Starting v.acts i := by
  rcases rest with idle | ⟨ms, act, rest, acts, loops⟩
  · rw [idle]
    exact ⟨by simp [Scans], by simp, by simp, by simp [Starting]⟩
  · obtain ⟨noStart, noNote, noAdopt⟩ := o.alone acts rfl
    have sound : TimedTasks.Sound v.scheduler (.deadline ms :: act :: rest) := acts ▸ o.sound
    have above : Act.round ∉ rest := by
      have rests := sound.layered.2.1
      cases act <;> first | cases loops; done | exact rests
    have quiet := not_scans_of_no_turns (sound.column.tail.tail.no_turns above)
    have still : act.scans = false := by cases act <;> first | cases loops; done | rfl
    rw [acts]
    refine ⟨fun scans => ?_, fun best now m => ?_, fun i now m => ?_, fun i start => ?_⟩
    · rw [scans_cons, scans_cons, still] at scans
      exact quiet ((scans.resolve_left Bool.noConfusion).resolve_left Bool.noConfusion)
    · exact noAdopt best now ((List.mem_cons.1 m).resolve_left Act.noConfusion)
    · exact noNote i now ((List.mem_cons.1 m).resolve_left Act.noConfusion)
    · rw [starting_cons] at start
      exact noStart i (start.resolve_left (by simp [Act.announces]))

theorem Cached.nearest (h : v.Cached) (o : v.Orderly) (young : v.Young) (rest : v.AtRest) : v.Nearest := by
  obtain ⟨noScan, noAdopt, -, noStart⟩ := o.at_rest rest
  intro c hc wc i wi
  rw [o.timed.left_le_iff young o.timed.readAt wc wi]
  exact h.soonest noScan noAdopt c hc ⟨wc, noStart c⟩ i ⟨wi, noStart i⟩

/-- Every sleep in progress on the device is as long as the least time that a waiting task had left when the clock was
last read for it, or the longest if no task waits. -/
def Naps (v : View) : Prop :=
  ∀ nap, .sleeping nap ∈ v.acts → nap ≠ 0 ∧ ∃ ms, v.scheduler.LeastLeft v.past.read ms ∧ nap = ms.getD Interval.longest

theorem Naps.turn (h : v.Naps) (cached : v.Cached) (sound : v.Sound) (spared : v.Spared) (t : Turn v v') :
    v'.Naps := by
  cases t with
  | @works w act s _ rest acts l =>
    intro nap m
    -- Only a run of rounds goes to sleep, and requests for the end of a session change no life and read no clock.
    have below : .sleeping nap ∈ rest := by
      refine (List.mem_append.1 m).resolve_left fun here => ?_
      clear m
      cases l <;> simp [Stride.frames] at here
    have ends := spared.ends_of_resumes sound acts _ below rfl
    obtain ⟨long, ms, least, same⟩ := h nap (acts ▸ List.mem_cons_of_mem _ below)
    have life : s.device.scheduler.life = v.scheduler.life := by
      rw [Stride.scheduler_device]
      exact l.lives.of_ends ends
    refine ⟨long, ms, ?_, same⟩
    show s.device.scheduler.LeastLeft (v.past.after v.clock act s).read ms
    rw [Chronicle.read_after (Act.consults_of_ends ends)]
    exact least.of_life life
  | @delivers ms act s _ rest acts l =>
    intro nap m
    have least := cached.told ms (.inl (acts ▸ List.mem_cons_self))
    have life : s.device.scheduler.life = v.scheduler.life := by
      rw [Stride.scheduler_device]
      cases l <;> rfl
    suffices known : nap ≠ 0 ∧ ∃ ms, v.scheduler.LeastLeft v.past.read ms ∧ nap = ms.getD Interval.longest by
      obtain ⟨long, ms, least, same⟩ := known
      exact ⟨long, ms, least.of_life life, same⟩
    rcases List.mem_append.1 m with m | m
    · cases l with
      | sleeping _ long _ =>
        simp only [Stride.frames, List.mem_cons, Act.sleeping.injEq, reduceCtorEq, List.not_mem_nil, or_false,
          false_or] at m
        exact ⟨m ▸ long, ms, least, m⟩
      | _ => simp [Stride.frames] at m
    · exact h nap (acts ▸ List.mem_cons_of_mem _ (List.mem_cons_of_mem _ m))

theorem Naps.shift (h : v.Naps) (t : Shift v v') : v'.Naps := by
  cases t with
  | drops acts _ => exact fun nap m => h nap (acts ▸ List.mem_cons_of_mem _ m)
  | arrives self op => exact fun nap m => h nap (by simpa using m)

end View

namespace Moment

variable {P : Moment → Prop} {s : Setup} {y : Moment} {d : Nat} {v : View}

/-- In a run in which interrupts begin no session and no round, no task gets too old and interrupts leave the word of
starts and scans undisturbed: between rounds no waiting task has less time left than a remembered one that waits, and a
round on demand returns the least time that a waiting task has left, or none if no task waits. -/
theorem deadline_least_undisturbed (r : Run P (initial s) y) (calm : ∀ z, P z → Confined Op.calm z.machine.stack)
    (promise : ∀ z v, P z → z.view d = some v → v.Young ∧ v.Undisturbed) (h : y.view d = some v) :
    (v.AtRest → v.Nearest) ∧
      ∀ ms rest, v.acts = .answered (.deadline ms) :: rest → v.scheduler.LeastLeft v.past.read ms := by
  have cached := cached r calm promise h
  refine ⟨cached.nearest (orderly r calm h) (promise y v r.last h).1, fun ms rest acts => ?_⟩
  exact cached.told ms (.inr (acts ▸ List.mem_cons_self))

/-- One scheduler with two slots, on a board whose clock moves by the amounts of a list, and a handler that does
nothing. -/
def twoSlots (pace : List UInt32) : Setup := ⟨[⟨2, 0, pace, []⟩], false, [], [[]], 5, false⟩

/-- A session with two repeating tasks. -/
def startTwo (a b : UInt32) : List (Nat × Op) :=
  [(0, .declare), (0, .declare), (0, .init), (0, .configure (.slot 0) 0 a true), (0, .configure (.slot 1) 0 b true),
    (0, .start (.slot 0)), (0, .start (.slot 1))]

/-- An interrupt asks for a new interval while a round looks at a task of the queue. -/
theorem deadline_least_undisturbed_of_update : ∃ (y : Moment) (v : View), y.view 0 = some v ∧
    v.acts = [.answered (.deadline (some 18))] ∧ v.scheduler.LeastLeft v.past.read (some 18) := by
  obtain ⟨y, v, r, h, answer⟩ := exists_of_walk (initial (twoSlots [1]))
    (startTwo 50 30 ++ [(0, .hook .now 1 [.update (.slot 0) 20]), (0, .tick)]) 70 0
    (fun v => v.answer = some (.deadline (some 18)))
    (P := fun z => Confined Op.calm z.machine.stack ∧ ∀ v ∈ z.view 0, v.Young ∧ v.silent) (by decide +kernel)
  have acts := View.acts_of_answer (of_decide_eq_true answer)
  have least := deadline_least_undisturbed r (fun _ p => p.1)
    (fun _ v p hv => ⟨(p.2 v hv).1, View.undisturbed_of_silent (p.2 v hv).2⟩) h
  exact ⟨y, v, h, acts, least.2 _ _ acts⟩

/-- The operation starts or stops a task or gives it a new interval. -/
def retimes : Op → Bool
  | .start _ | .stop _ | .update .. => true
  | _ => false

/-- The result of a scan is adopted however the task was changed since: an interrupt gives a longer interval to the task
that a scan found, and the round overlooks the other one. -/
theorem deadline_late_of_update : ∃ (y : Moment) (v : View),
    Run (fun z => Confined retimes z.machine.stack ∧ ∀ v ∈ z.view 0, v.Young) (initial (twoSlots [])) y ∧
    y.view 0 = some v ∧ v.acts = [.answered (.deadline (some 1000))] ∧ v.scheduler.cache.soonest = some 0 ∧
    v.scheduler.arena.Waits 0 ∧ v.scheduler.arena.Waits 1 ∧
    v.scheduler.arena.left v.clock 0 = 1000 ∧ v.scheduler.arena.left v.clock 1 = 50 := by
  obtain ⟨y, v, r, h, shown⟩ := exists_of_walk (initial (twoSlots []))
    (startTwo 10 50 ++ [(0, .hook .lock 0 [.update (.slot 0) 1000]), (0, .tick)]) 70 0
    (fun v => v.answer = some (.deadline (some 1000)) ∧ v.scheduler.cache.soonest = some 0 ∧
      v.scheduler.arena.Waits 0 ∧ v.scheduler.arena.Waits 1 ∧ v.scheduler.arena.left v.clock 0 = 1000 ∧
      v.scheduler.arena.left v.clock 1 = 50)
    (P := fun z => Confined retimes z.machine.stack ∧ ∀ v ∈ z.view 0, v.Young) (by decide +kernel)
  obtain ⟨answer, wrong⟩ := of_decide_eq_true shown
  exact ⟨y, v, r, h, View.acts_of_answer answer, wrong⟩

/-- When a round of an active session is over, a run goes to sleep on a board that can, unless the deadline is now. -/
theorem sleeps_of_deadline {z : Moment} {v' : View} {ms : Option UInt32} {rest : List Frame}
    (top : y.machine.stack = ⟨d, .deadline ms⟩ :: ⟨d, .running⟩ :: rest) (h : y.view d = some v)
    (active : v.scheduler.runState = .active) (long : ms.getD Interval.longest ≠ 0)
    (serves : v.device.board.serves .sleep) (next : y.Next z) (h' : z.view d = some v') :
    .sleeping (ms.getD Interval.longest) ∈ v'.acts := by
  obtain ⟨e, act, below, δ, s, same, found, l, takes⟩ := next.delivers_of_top top
  cases same
  cases (view_eq_some h).1.symm.trans found
  rw [(view_eq_some h').2.1, takes.stack, pending_takes_same]
  cases l with
  | sleeping => simp [Stride.frames]
  | awake not =>
    rw [not active long] at serves
    cases serves

/-- In a run in which interrupts ask for nothing but the end of sessions and no task gets too old: between rounds a
remembered task waits and no waiting task has less time left; a round on demand returns the least time that a waiting
task has left, or none just if no task waits; and a run of rounds sleeps as long as the round said, if the session is
active and the deadline not now. -/
theorem deadline_least (r : Run P (initial s) y) (ends : ∀ z, P z → Confined Op.ends z.machine.stack)
    (young : ∀ z v, P z → z.view d = some v → v.Young) (h : y.view d = some v) :
    (v.AtRest → v.Nearest ∧ ∀ c, v.scheduler.cache.soonest = some c → v.scheduler.arena.Waits c) ∧
    (∀ ms rest, v.acts = .answered (.deadline ms) :: rest → v.scheduler.LeastLeft v.past.read ms) ∧
    (∀ nap, .sleeping nap ∈ v.acts →
      nap ≠ 0 ∧ ∃ ms, v.scheduler.LeastLeft v.past.read ms ∧ nap = ms.getD Interval.longest) ∧
    ∀ ms rest, y.machine.stack = ⟨d, .deadline ms⟩ :: ⟨d, .running⟩ :: rest →
      v.scheduler.LeastLeft v.past.read ms ∧
      (v.scheduler.runState = .active → ms.getD Interval.longest ≠ 0 → v.device.board.serves .sleep →
        ∀ z v', y.Next z → z.view d = some v' → .sleeping (ms.getD Interval.longest) ∈ v'.acts) := by
  obtain ⟨orderly, cached, quiet⟩ := quiet r ends young h
  refine ⟨fun rest => ⟨cached.nearest orderly (young y v r.last h) rest, fun c hc => ?_⟩, fun ms rest acts => ?_, ?_,
    fun ms rest top => ⟨?_, fun active long serves z v' next h' => ?_⟩⟩
  · obtain ⟨noScan, noAdopt, -, -⟩ := orderly.at_rest rest
    refine (quiet.soonest noScan noAdopt c hc).resolve_right fun m => ?_
    rcases rest with idle | ⟨ms, act, rest, acts, loops⟩
    · rw [idle] at m
      cases m
    · have col : Column (.deadline ms :: act :: rest) := acts ▸ orderly.sound.column
      have g : Guarded Act.minor (.deadline ms :: act :: rest) := acts ▸ orderly.guarded
      rw [acts] at m
      cases col.unresumed tame_calm g rfl _ ((List.mem_cons.1 m).resolve_left Act.noConfusion)
  · exact cached.told ms (.inr (acts ▸ List.mem_cons_self))
  · have known : ∀ z, Run P (initial s) z → ∀ v, z.view d = some v → (v.Cached ∧ v.Sound) ∧ v.Spared := fun z r v hv =>
      ⟨⟨(Moment.quiet r ends young hv).2.1, sound r hv⟩, guarded r tame_ends ends hv⟩
    exact view_of_run (I := View.Naps) (Q := fun v => (v.Cached ∧ v.Sound) ∧ v.Spared) (r.also known)
      (fun z v p hv => p.2 v hv) (fun v fresh nap m => by rw [fresh.acts] at m; cases m)
      (fun _ _ h q t _ => h.turn q.1.1 q.1.2 q.2 t) (fun _ _ h t => h.shift t) h
  · refine cached.told ms (.inl ?_)
    rw [(view_eq_some h).2.1, top, pending_same]
    exact List.mem_cons_self
  · exact sleeps_of_deadline top h active long serves next h'

/-- A round on demand looks at a moving clock, and an interrupt asks for the end of the session meanwhile. -/
theorem deadline_least_of_tick : ∃ (y : Moment) (v : View), y.view 0 = some v ∧
    v.acts = [.answered (.deadline (some 27))] ∧ v.scheduler.LeastLeft v.past.read (some 27) := by
  obtain ⟨y, v, r, h, answer⟩ := exists_of_walk (initial (twoSlots [1]))
    (startTwo 50 30 ++ [(0, .hook .now 1 [.shutdown]), (0, .tick)]) 68 0
    (fun v => v.answer = some (.deadline (some 27)))
    (P := fun z => Confined Op.ends z.machine.stack ∧ ∀ v ∈ z.view 0, v.Young) (by decide +kernel)
  have acts := View.acts_of_answer (of_decide_eq_true answer)
  have least := deadline_least r (fun _ p => p.1) (fun _ v p hv => p.2 v hv) h
  exact ⟨y, v, h, acts, least.2.1 _ _ acts⟩

end Moment

end TimedTasks
