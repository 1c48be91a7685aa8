import TimedTasks.Proofs.Stages
import TimedTasks.Proofs.Unwinding

/-!
# Shutdown

A shutdown takes the lock, and is done. Until then nothing begins but the interrupts of the lock, which begin nothing
themselves (`Moment.Calmly`). If it finds a session, that one is to end, and the request is not lost: the session ends before
another one can begin. When a run is in progress it finishes its round and winds up (`Moment.WindsUp`); otherwise no round
begins any more, and the next run does nothing but to end the session. A shutdown that finds no session leaves everything as it
is.
-/

namespace TimedTasks

/-! ## The call -/

namespace Moment

variable {P : Moment → Prop} {s : Setup} {x y z : Moment} {d : Nat} {rest : List Frame} {self : Option Nat} {v u : View}

/-- A call that begins nothing brings nothing else as long as it is in progress. -/
theorem Calmly.later (h : x.Calmly rest) (calm : ∀ z, P z → Confined Op.calm z.machine.stack)
    (r : Run (fun z => P z ∧ z.Within rest) x y) : Run (fun z => P z ∧ z.Calmly rest) x y := by
  induction r with
  | here p => exact .here ⟨p.1, h⟩
  | more r next p ih => exact ih.more next ⟨p.1, ih.last.2.next (calm _ r.last.1) next p.2⟩

/-- What begins nothing leaves it at whether there is a session. -/
theorem stopped_of_calmly (r : Run P (initial s) x) (r' : Run (fun z => P z ∧ z.Calmly rest) x y) (hv : x.view d = some v)
    (hu : y.view d = some u) : u.scheduler.runState = .stopped ↔ v.scheduler.runState = .stopped := by
  induction r' generalizing u with
  | here =>
    cases hv.symm.trans hu
    rfl
  | @more y z r' next p ih =>
    have stacked := stacked_of_run (r.trans (r'.mono fun _ p => p.1))
    obtain ⟨u₀, hu₀, later⟩ := next.view_later stacked hu
    rw [← ih hu₀]
    obtain ⟨f, above, stack, minor⟩ := r'.last.2
    -- What makes something of the run state is what works.
    have works : ∀ act ∈ u₀.acts.head?, act.takesAnswer = false → act.minor := fun act head waits => by
      obtain ⟨rest', acts⟩ : ∃ rest, u₀.acts = act :: rest := by
        cases h : u₀.acts with
        | nil => rw [h] at head; cases head
        | cons b rest => rw [h] at head; cases head; exact ⟨rest, rfl⟩
      obtain ⟨below, top, -⟩ := stacked.top ((view_eq_some hu₀).2.1.symm.trans acts) waits
      cases stack.symm.trans top
      exact minor _ List.mem_cons_self
    rcases later.restates with same | ⟨act, head, restates⟩
    · rw [same]
    · generalize u.scheduler.runState = r at restates ⊢
      cases restates with
      | same => rfl
      | asked => split <;> simp_all
      | begun => cases works _ head rfl
      | ended => cases works _ head rfl

/-- An operation that needs nothing but its device begins. -/
theorem next_of_call {op : Op} (r : Run P (initial s) x) (top : x.machine.stack = ⟨d, .perform self op⟩ :: rest)
    (hv : x.view d = some v) (task : op.task? = none) (pool : op.pool? = none) : ∃ y, x.Next y := by
  refine next_of_not_strays r (by rw [top]; exact List.cons_ne_nil _ _) fun f strays => ?_
  cases strays with
  | device top' none =>
    cases top.symm.trans top'
    cases (view_eq_some hv).1.symm.trans none
  | pool top' about _ =>
    cases top.symm.trans top'
    cases pool.symm.trans about
  | self top' about =>
    cases top.symm.trans top'
    cases task.symm.trans about

/-- An operation that is refused leaves everything as it is. -/
theorem Next.refused_at_once {op : Op} {a : Answer} (next : x.Next y) (top : x.machine.stack = ⟨d, .perform self op⟩ :: rest)
    (hv : x.view d = some v) (refused : x.machine.world.perform d v.device self op = .ok (x.machine.world.answering d v.device a)) :
    y.machine.world = x.machine.world ∧ y.machine.stack = ⟨d, .answered a⟩ :: rest := by
  obtain ⟨δ, move, found, performed, eq⟩ := next.performs top
  cases (view_eq_some hv).1.symm.trans found
  cases refused.symm.trans performed
  exact ⟨by rw [eq]; exact World.put_self found, by rw [eq]; rfl⟩

/-- A shutdown asks for the lock. -/
theorem Next.asks_for_lock (next : x.Next y) (top : x.machine.stack = ⟨d, .perform self .shutdown⟩ :: rest) :
    ∃ bodies, y.machine.stack = ⟨d, .interrupts .lock bodies⟩ :: ⟨d, .locked .shutdown⟩ :: rest := by
  obtain ⟨δ, move, -, performed, eq⟩ := next.performs top
  cases performed
  exact ⟨_, by rw [eq]; rfl⟩

/-- A shutdown that has the lock is done, and a session in progress is to end. -/
theorem Next.shuts_down (next : x.Next y) (top : x.machine.stack = ⟨d, .locked .shutdown⟩ :: rest) :
    y.machine.stack = ⟨d, .answered .done⟩ :: rest ∧ ∃ v v', x.view d = some v ∧ y.view d = some v' ∧
      v.acts = .locked .shutdown :: pending d rest ∧ v'.acts = .answered .done :: pending d rest ∧
      v'.scheduler.runState = if v.scheduler.runState = .stopped then .stopped else .stopping := by
  obtain ⟨δ, t, found, l, takes⟩ := next.leads_of_top top rfl
  cases l with
  | refused refuses => cases refuses
  | shutdown =>
    have stack : y.machine.stack = ⟨d, .answered .done⟩ :: rest := takes.stack
    refine ⟨stack, ⟨δ, pending d x.machine.stack, x.past d⟩,
      ⟨⟨δ.board, δ.scheduler.shutdown⟩, pending d y.machine.stack, y.past d⟩, ?_, ?_, ?_, ?_, ?_⟩
    · rw [view, found]; rfl
    · rw [view, takes.device_same found]; rfl
    · exact top ▸ pending_same
    · exact stack ▸ pending_same
    · show δ.scheduler.shutdown.runState = if δ.scheduler.runState = .stopped then .stopped else .stopping
      unfold Scheduler.shutdown
      split
      · assumption
      · rfl

/-- A shutdown is answered with what it does with the lock. -/
theorem shut_down_of_answer {a : Answer} (r : Run (fun z => P z ∧ z.Within rest) x y) (stacked : Stacked x.machine.stack)
    (called : x.machine.stack = ⟨d, .perform self .shutdown⟩ :: rest) (answered : y.machine.stack = ⟨d, .answered a⟩ :: rest) :
    ∃ w, Run (fun z => P z ∧ z.Within rest) x w ∧ w.machine.stack = ⟨d, .locked .shutdown⟩ :: rest ∧ w.Next y := by
  have asked := r.asked (s := .shutdown) stacked called answered rfl
    (fun z g above next stack => by
      obtain ⟨bodies, took⟩ := next.asks_for_lock called
      exact .inl (lowest_of_cons_cons (took.symm.trans stack)))
    fun w z g above next top stack => ⟨_, lowest_of_cons ((next.shuts_down top).1.symm.trans stack)⟩
  refine asked.resolve_left fun next => ?_
  obtain ⟨bodies, took⟩ := next.asks_for_lock called
  cases took.symm.trans answered

/-- A shutdown comes to its answer, if the interrupts that come when it takes the lock do. -/
theorem shutdown_answered (r : Run P (initial s) x) (called : x.machine.stack = ⟨d, .perform self .shutdown⟩ :: rest)
    (hv : x.view d = some v) (yields : x.Yields rest) :
    ∃ y, Run (·.Within rest) x y ∧ y.machine.stack = ⟨d, .answered .done⟩ :: rest := by
  have stacked := stacked_of_run r
  have takes : ∀ f ∈ rest.head?, f.act.takesAnswer := fun f m => by
    cases rest with
    | nil => cases m
    | cons b rest =>
      cases m
      rw [called] at stacked
      exact (Act.sits_iff_of_calls (a := .perform self .shutdown) rfl).1 stacked.1.1
  obtain ⟨z, next⟩ := next_of_call r called hv rfl rfl
  obtain ⟨bodies, stack⟩ := next.asks_for_lock called
  have step : Run (·.Within rest) x z := (Run.here ⟨[], _, called⟩).more next ⟨[_], _, stack⟩
  have all := (r.mono fun _ _ => trivial).trans (step.mono fun _ _ => trivial)
  obtain ⟨w, run, top⟩ := ((yields.returns r takes).later step).interrupts all stack ⟨[], _, rfl⟩
  obtain ⟨y, done⟩ := next_of_top (all.trans (run.mono fun _ _ => trivial)) top rfl
  have answered := (done.shuts_down top).1
  exact ⟨y, (step.trans run).more done ⟨[], _, answered⟩, answered⟩

end Moment

/-! ## What is in progress below -/

theorem Act.not_sits_checkCache {a : Act} : ¬a.Sits .checkCache := by
  cases a with
  | reading r => cases r <;> simp [Sits, takesAnswer, walks]
  | locked s => cases s <;> simp [Sits, takesAnswer]
  | _ => simp [Sits, takesAnswer, walks, loops, resumes]

/-- What is below another frame is past the beginning of a round. -/
theorem Stacked.begun {stack : List Frame} (h : Stacked stack) : ∀ f ∈ stack.tail, f.act ≠ .checkCache := by
  induction stack with
  | nil => simp
  | cons a rest ih =>
    cases rest with
    | nil => simp
    | cons b rest =>
      intro f m
      rcases List.mem_cons.1 m with rfl | m
      · intro same
        have sits := h.1.1
        rw [same] at sits
        exact Act.not_sits_checkCache sits
      · exact ih h.2 f m

/-! ## Between two sessions -/

namespace View

variable {v v' : View}

/-- A session begins when it is called for. -/
theorem Shut.later (h : v.Shut) (later : v.Later v') : v'.Shut ∨ ∃ self rest, v.acts = .perform self .init :: rest := by
  by_cases calls : ∃ self rest, v.acts = .perform self .init :: rest
  · exact .inr calls
  · left
    constructor
    · rcases later.restates with same | ⟨act, top, restates⟩
      · exact same.trans h.stopped
      · refine restates.stopped h.stopped fun begun => ?_
        have unbegun := h.unbegun act (List.mem_of_mem_head? top)
        rw [begun] at unbegun
        cases unbegun
    · rcases later with turned | shifted
      · cases turned with
        | @works w act t _ rest acts l =>
          intro a m
          rcases List.mem_append.1 m with new | old
          · refine Bool.eq_false_iff.2 fun begins => ?_
            have own := h.unbegun act (acts ▸ List.mem_cons_self)
            cases l.proceeds new (Act.engages_of_begins begins) with
            | opens => exact calls ⟨_, rest, acts⟩
            | begins => cases own
            | _ => cases begins
          · exact h.unbegun a (acts ▸ List.mem_cons_of_mem _ old)
        | @delivers ms act t _ rest acts l =>
          intro a m
          rcases List.mem_append.1 m with new | old
          · cases l <;> simp only [Stride.frames, List.mem_cons, List.not_mem_nil, or_false] at new
            · subst new; rfl
            · subst new; rfl
            · rcases new with rfl | rfl | rfl <;> rfl
            · subst new; rfl
          · exact h.unbegun a (acts ▸ List.mem_cons_of_mem _ (List.mem_cons_of_mem _ old))
      · clear calls
        have unbegun := h.unbegun
        clear h
        induction shifted with
        | refl => exact unbegun
        | tail _ shift ih =>
          cases shift with
          | drops acts _ => exact fun a m => ih a (acts ▸ List.mem_cons_of_mem _ m)
          | arrives self op =>
            intro a m
            rcases List.mem_cons.1 m with rfl | m
            · rfl
            · exact ih a m

/-- A session that is to end stays so until its end. -/
theorem stopping_later (stopping : v.scheduler.runState = .stopping) (engaged : v.Engaged) (calm : v.Calm)
    (later : v.Later v') : v'.scheduler.runState = .stopping ∨
      (v'.Shut ∧ ∃ n rest, v.acts = .locked (.sessionOver n) :: rest) := by
  rcases later with turned | shifted
  · cases turned with
    | @works w act t _ rest acts l =>
      have restates : act.Restates v.scheduler.runState (take t rest (v.past.after v.clock act t)).scheduler.runState := by
        rw [show (take t rest _).scheduler = t.scheduler from t.scheduler_device]
        exact l.restates
      have shut : ∀ n, act = .locked (.sessionOver n) → (take t rest (v.past.after v.clock act t)).scheduler.runState = .stopped →
          (take t rest (v.past.after v.clock act t)).Shut := by
        rintro n rfl stopped
        refine ⟨stopped, fun a m => Bool.eq_false_iff.2 fun begins => ?_⟩
        rcases List.mem_append.1 m with new | old
        · cases l.proceeds new (Act.engages_of_begins begins)
        · exact Bool.false_ne_true ((calm.alone acts (.inr ⟨n, rfl⟩) a old).symm.trans (Act.engages_of_begins begins))
      generalize (take t rest (v.past.after v.clock act t)).scheduler.runState = r at restates shut ⊢
      rw [stopping] at restates
      cases restates with
      | same => exact .inl rfl
      | asked => exact .inl rfl
      | begun =>
        have stopped := engaged.begins _ (acts ▸ List.mem_cons_self) rfl
        cases stopping.symm.trans stopped
      | ended => exact .inr ⟨shut _ rfl rfl, _, rest, acts⟩
    | @delivers ms act t _ rest acts l =>
      refine .inl ?_
      rw [show (take t rest _).scheduler = t.scheduler from t.scheduler_device]
      cases l <;> exact stopping
  · refine .inl ?_
    induction shifted with
    | refl => exact stopping
    | tail _ shift ih => cases shift <;> exact ih

end View

namespace Moment

variable {P Q : Moment → Prop} {s : Setup} {x y z : Moment} {d : Nat} {v u : View}

/-- A call for a session of device `d` is about to be answered. -/
def CallsInit (d : Nat) (z : Moment) : Prop := ∃ self rest, z.machine.stack = ⟨d, .perform self .init⟩ :: rest

/-- The last word is said on a session of device `d`. -/
def Finalizes (d : Nat) (z : Moment) : Prop := ∃ n rest, z.machine.stack = ⟨d, .locked (.sessionOver n)⟩ :: rest

/-- Between two moments, a session of device `d` comes to its end, and later another one is called for. -/
def Renewed (P : Moment → Prop) (d : Nat) (x y : Moment) : Prop :=
  ∃ z z', Run P x z ∧ z.Finalizes d ∧ Run P z z' ∧ z'.CallsInit d ∧ Run P z' y

/-- No session begins unless it is called for. -/
theorem shut_or_called (r : Run P x y) (stacked : Stacked x.machine.stack) (shut : ∀ v, x.view d = some v → v.Shut)
    (hu : y.view d = some u) : u.Shut ∨ ∃ z, Run P x z ∧ z.CallsInit d ∧ Run P z y := by
  suffices h : (∀ u, y.view d = some u → u.Shut) ∨ ∃ z, Run P x z ∧ z.CallsInit d ∧ Run P z y by
    exact h.imp_left fun h => h u hu
  clear hu
  induction r with
  | here => exact .inl shut
  | @more y z r next p ih =>
    have stackedY : Stacked y.machine.stack := r.invariant stacked fun _ _ h _ n _ => n.machine.turn.stacked h
    rcases ih with shut | ⟨w, r₁, calls, r₂⟩
    · by_cases calls : y.CallsInit d
      · exact .inr ⟨y, r, calls, .more (.here r.last) next p⟩
      · refine .inl fun u hu => ?_
        obtain ⟨u₀, hu₀, later⟩ := next.view_later stackedY hu
        refine ((shut u₀ hu₀).later later).resolve_right fun ⟨self, rest, acts⟩ => calls ?_
        obtain ⟨below, top, -⟩ := stackedY.top ((view_eq_some hu₀).2.1.symm.trans acts) rfl
        exact ⟨self, below, top⟩
    · exact .inr ⟨w, r₁, calls, r₂.more next p⟩

/-- A session that is to end comes to its end before another one begins. -/
theorem stopping_or_renewed (r : Run P (initial s) x) (calm : ∀ z, P z → Confined Op.calm z.machine.stack)
    (stopping : ∀ v, x.view d = some v → v.scheduler.runState = .stopping) (r' : Run Q x y) (sub : ∀ z, Q z → P z)
    (hu : y.view d = some u) :
    u.scheduler.runState = .stopping ∨ (∃ z, Run Q x z ∧ z.Finalizes d ∧ Run Q z y) ∧ (u.Shut ∨ Renewed Q d x y) := by
  suffices h : (∀ u, y.view d = some u → u.scheduler.runState = .stopping) ∨
      ∃ z z', Run Q x z ∧ z.Finalizes d ∧ z.Next z' ∧ (∀ u, z'.view d = some u → u.Shut) ∧ Run Q z' y by
    rcases h with still | ⟨z, z', r₁, finalizes, next, shut, r₂⟩
    · exact .inl (still u hu)
    · have step : Run Q z z' := .more (.here r₁.last) next r₂.first
      refine .inr ⟨⟨z, r₁, finalizes, step.trans r₂⟩, ?_⟩
      have stacked := stacked_of_run (r.trans ((r₁.trans step).mono sub))
      refine (shut_or_called r₂ stacked shut hu).imp_right fun ⟨w, r₃, calls, r₄⟩ => ?_
      exact ⟨z, w, r₁, finalizes, step.trans r₃, calls, r₄⟩
  clear hu
  induction r' with
  | here => exact .inl stopping
  | @more y z r' next p ih =>
    have known := r.trans (r'.mono sub)
    rcases ih with still | ⟨w, w', r₁, finalizes, next', shut, r₂⟩
    · have stacked := stacked_of_run known
      by_cases ended : y.Finalizes d ∧ ∀ u, z.view d = some u → u.Shut
      · exact .inr ⟨y, z, r', ended.1, next, ended.2, .here p⟩
      · refine .inl fun u hu => ?_
        obtain ⟨u₀, hu₀, later⟩ := next.view_later stacked hu
        have last := View.stopping_later (still u₀ hu₀) (engaged known calm hu₀) (Moment.calm known calm hu₀) later
        refine last.resolve_right fun ⟨shut, n, rest, acts⟩ => ended ?_
        obtain ⟨below, top, -⟩ := stacked.top ((view_eq_some hu₀).2.1.symm.trans acts) rfl
        refine ⟨⟨n, below, top⟩, fun u' hu' => ?_⟩
        cases hu.symm.trans hu'
        exact shut
    · exact .inr ⟨w, w', r₁, finalizes, next', shut, r₂.more next p⟩

/-! ## What a shutdown promises -/

/-- No run is in progress on device `d`. -/
def Unrun (d : Nat) (z : Moment) : Prop := ∀ g, ⟨d, g⟩ ∈ z.machine.stack → g.ofRun = false

/-- What a shutdown of device `d` promises that found a session and is done at `x`. Clients and handlers may call whatever they
like, only interrupts begin neither a session nor a round. -/
structure EndsPromptly (d : Nat) (x : Moment) : Prop where
  /-- No session is active before this one has ended and another one is called for. -/
  lasts : ∀ y u, Run (fun z => z.machine.ArmsCalm) x y → y.view d = some u → u.scheduler.runState = .active →
    Renewed (fun z => z.machine.ArmsCalm) d x y
  /-- The run in progress winds up. If no round of the device is in progress, no handler is invoked any more, and if the run is
  ending its session just now, the board is told only once of that. -/
  run : ∀ above g below, x.machine.stack = above ++ ⟨d, g⟩ :: below → g.ofRun →
    x.WindsUp d below (⟨d, .round⟩ ∈ x.machine.stack) (!(pending d x.machine.stack).any Act.leaves)
  /-- Until another session is called for, all single rounds that are asked for are refused. -/
  ticks : ∀ y self below, Run (fun z => z.machine.ArmsCalm) x y → y.machine.stack = ⟨d, .perform self .tick⟩ :: below →
    Renewed (fun z => z.machine.ArmsCalm) d x y ∨ ∃ z, y.Next z ∧ z.machine.world = y.machine.world ∧
      z.machine.stack = ⟨d, .answered (.failed .notInitialized)⟩ :: below
  /-- If no run is in progress, the next one invokes no handler, does not sleep, and ends the session. It begins when no round
  is in progress any more; a handler of that round that asks for it is refused. -/
  next : ∀ y self below, Run (fun z => z.machine.ArmsCalm ∧ z.Unrun d) x y →
    y.machine.stack = ⟨d, .perform self .run⟩ :: below →
    (⟨d, .round⟩ ∉ below → y.WindsUp d below False true) ∧
    (⟨d, .round⟩ ∈ below → ∃ z, y.Next z ∧ z.machine.world = y.machine.world ∧
      z.machine.stack = ⟨d, .answered (.failed .busy)⟩ :: below)

/-- A run that is called for between rounds in a session that is to end does nothing but to end it. -/
theorem winds_up_of_call {self : Option Nat} {below : List Frame} (r : Run (fun z => z.machine.ArmsCalm) (initial s) y)
    (top : y.machine.stack = ⟨d, .perform self .run⟩ :: below) (hu : y.view d = some u)
    (stopping : u.scheduler.runState = .stopping) (idle : ⟨d, .round⟩ ∉ below) : y.WindsUp d below False true := by
  have calm : ∀ z : Moment, z.machine.ArmsCalm → Confined Op.calm z.machine.stack := fun _ => Machine.ArmsCalm.confined
  obtain ⟨found, acts, -⟩ := view_eq_some hu
  rw [top, pending_same] at acts
  have free : u.scheduler.inRound = false := Bool.eq_false_iff.2 fun busy => by
    have m := (sound r hu).inRound.1 busy
    rw [acts] at m
    exact idle (mem_pending.1 ((List.mem_cons.1 m).resolve_left Act.noConfusion))
  obtain ⟨z, next⟩ := next_of_call r top hu rfl rfl
  have armsCalm : z.machine.ArmsCalm := next.machine.turn.armsCalm r.last fun e op none => by cases top.symm.trans none
  obtain ⟨δ, t, found', l, takes⟩ := next.leads_of_top top rfl
  cases found.symm.trans found'
  cases l with
  | answer _ refused =>
    rcases refused with ⟨stopped, -⟩ | ⟨-, busy, -⟩
    · cases stopping.symm.trans stopped
    · cases free.symm.trans busy
  | ask ask => cases ask
  | run =>
    have stack : z.machine.stack = ⟨d, .running⟩ :: below := takes.stack
    have hv : z.view d = some ⟨u.device, pending d z.machine.stack, z.past d⟩ := view_of_device (takes.device_same found)
    have ending : z.Ending d below := by
      refine ⟨⟨[], .running, stack, .inl rfl⟩, fun v hv' active => ?_, fun m => ?_, fun done => ?_⟩
      · cases hv.symm.trans hv'
        cases stopping.symm.trans active
      · rw [stack] at m
        exact (stacked_of_run r).begun _ (by rw [top]; exact (List.mem_cons.1 m).resolve_left nofun) rfl
      · cases stack.symm.trans done
    have unrounded : ⟨d, .round⟩ ∉ z.machine.stack := by
      rw [stack]
      exact fun m => idle ((List.mem_cons.1 m).resolve_left nofun)
    -- No other run, and no end of a session, is in progress outside of rounds.
    have opened : View.sessionOpen ⟨u.device, pending d z.machine.stack, z.past d⟩ = true := by
      refine View.sessionOpen_iff.2 ⟨fun a m => ?_, .inl ?_⟩
      · rw [stack, pending_same] at m
        rcases List.mem_cons.1 m with rfl | m
        · rfl
        · refine Bool.eq_false_iff.2 fun leaves => ?_
          have engages := (Moment.calm r calm hu).unengaged acts rfl rfl (fun m => idle (mem_pending.1 m)) a m
          rw [Act.engages_of_lives (Act.lives_of_leaves leaves)] at engages
          cases engages
      · show u.scheduler.runState ≠ .stopped
        rw [stopping]
        exact RunState.noConfusion
    have winds := ending.winds_up (r.more next armsCalm) hv
    rw [eq_false unrounded, opened] at winds
    refine winds.cons next ⟨[], _, top⟩ ⟨[], _, stack⟩ ?_ (fun a answered => ?_) ?_
    · rintro ⟨rest, begins⟩
      cases top.symm.trans begins
    · cases top.symm.trans answered
    · simp [recording, hu, View.tell, View.deed, acts, Device.deed]

/-- A shutdown that has the lock and finds a session promises its end. -/
theorem endsPromptly {x' : Moment} {rest : List Frame} (r : Run (fun z => z.machine.ArmsCalm) (initial s) x)
    (top : x.machine.stack = ⟨d, .locked .shutdown⟩ :: rest) (next : x.Next x') (hv : x.view d = some v)
    (some : v.scheduler.runState ≠ .stopped) : x'.EndsPromptly d := by
  have armsCalm : x'.machine.ArmsCalm := next.machine.turn.armsCalm r.last fun e op none => by cases top.symm.trans none
  have r' := r.more next armsCalm
  have calm : ∀ z : Moment, z.machine.ArmsCalm → Confined Op.calm z.machine.stack := fun _ => Machine.ArmsCalm.confined
  obtain ⟨stack, v₀, v', hv₀, hv', acts, acts', runState⟩ := next.shuts_down top
  cases hv.symm.trans hv₀
  rw [if_neg some] at runState
  have stopping : ∀ u, x'.view d = Option.some u → u.scheduler.runState = .stopping := fun u hu => by
    cases hv'.symm.trans hu
    exact runState
  refine ⟨fun y u ahead hu active => ?_, fun above g below split own => ?_, fun y self below ahead call => ?_,
    fun y self below ahead call => ?_⟩
  · rcases stopping_or_renewed r' calm stopping ahead (fun _ p => p) hu with still | ⟨-, shut | renewed⟩
    · cases still.symm.trans active
    · cases shut.stopped.symm.trans active
    · exact renewed
  · have ending : x'.Ending d below := by
      refine ⟨⟨above, g, split, .inl own⟩, fun u hu active => ?_, fun m => ?_, fun done => ?_⟩
      · cases (stopping u hu).symm.trans active
      · rw [stack] at m
        rcases List.mem_cons.1 m with same | old
        · cases same
        · exact (stacked_of_run r).begun _ (by rw [top]; exact old) rfl
      · cases lowest_of_cons (done.symm.trans split)
        cases own
    have winds := ending.winds_up r' hv'
    have opened : v'.sessionOpen = !(pending d x'.machine.stack).any Act.leaves := by
      simp [View.sessionOpen, runState, (view_eq_some hv').2.1]
    rwa [opened] at winds
  · obtain ⟨u, hu⟩ := exists_view r' hv' (ahead.mono fun _ _ => trivial)
    by_cases active : u.scheduler.runState = .active
    · rcases stopping_or_renewed r' calm stopping ahead (fun _ p => p) hu with still | ⟨-, shut | renewed⟩
      · cases active.symm.trans still
      · cases active.symm.trans shut.stopped
      · exact .inl renewed
    · obtain ⟨z, next⟩ := next_of_call (r'.trans ahead) call hu rfl rfl
      refine .inr ⟨z, next, next.refused_at_once call hu ?_⟩
      show Except.ok (y.machine.world.tick d u.device) = _
      rw [World.tick]
      exact congrArg _ (if_pos active)
  · have known := r'.trans (ahead.mono fun _ p => p.1)
    obtain ⟨u, hu⟩ := exists_view r' hv' (ahead.mono fun _ _ => trivial)
    have before : u.scheduler.runState = .stopping := by
      refine (stopping_or_renewed r' calm stopping ahead (fun _ p => p.1) hu).resolve_right fun ended => ?_
      -- Without a run, nothing is said on the session.
      obtain ⟨⟨z, ahead, ⟨n, rest, last⟩, -⟩, -⟩ := ended
      cases ahead.last.2 _ (last ▸ List.mem_cons_self)
    refine ⟨winds_up_of_call known call hu before, fun busy => ?_⟩
    have inRound : u.scheduler.inRound = true := (sound known hu).inRound.2 (by
      rw [(view_eq_some hu).2.1, call, pending_same]
      exact List.mem_cons_of_mem _ (mem_pending.2 busy))
    obtain ⟨z, next⟩ := next_of_call known call hu rfl rfl
    refine ⟨z, next, next.refused_at_once call hu ?_⟩
    show Except.ok (y.machine.world.run d u.device) = _
    rw [World.run, if_neg (by rw [show u.device.scheduler.runState = .stopping from before]; exact RunState.noConfusion)]
    exact congrArg _ (if_pos inRound)

/-- Shutdown is prompt and never lost. Whenever one is called on a device, by a client, a handler or an interrupt, it comes to
its answer unless interrupts hinder it, and nothing begins until it is done. If it finds a session, it promises that it ends
(`EndsPromptly`). If there is none, and none is about to begin, there is none until one is called for. -/
theorem shutdown_prompt {self : Option Nat} {rest : List Frame} (r : Run (fun z => z.machine.ArmsCalm) (initial s) x)
    (called : x.machine.stack = ⟨d, .perform self .shutdown⟩ :: rest) (hv : x.view d = some v) :
    (x.Unhindered rest → ∃ x', Run (·.Within rest) x x' ∧ x'.machine.stack = ⟨d, .answered .done⟩ :: rest ∧
      ∀ z, Run (fun _ => True) x z → Run (·.Within rest) z x' ∨ Run (fun _ => True) x' z) ∧
    ∀ x' a, Run (·.Within rest) x x' → x'.machine.stack = ⟨d, .answered a⟩ :: rest →
      a = .done ∧ Run (·.Calmly rest) x x' ∧
      (v.scheduler.runState ≠ .stopped → x'.EndsPromptly d) ∧
      (v.scheduler.runState = .stopped → (∀ b ∈ v.acts, b.begins = false) → ∀ y u,
        Run (fun z => z.machine.ArmsCalm) x' y → y.view d = some u → u.scheduler.runState = .stopped ∨
          ∃ z, Run (fun z => z.machine.ArmsCalm) x' z ∧ z.CallsInit d ∧ Run (fun z => z.machine.ArmsCalm) z y) := by
  have stacked := stacked_of_run r
  refine ⟨fun free => ?_, fun x' a run answered => ?_⟩
  · obtain ⟨x', run, done⟩ := shutdown_answered r called hv free.comes_to_end
    exact ⟨x', run, done, fun z r' => run.meets (fun _ => Within.busy) r'⟩
  · have known := (run.also fun _ run => armsCalm_of_within r.last run).mono fun _ p => And.intro p.2 p.1
    have calm : ∀ z : Moment, z.machine.ArmsCalm → Confined Op.calm z.machine.stack := fun _ => Machine.ArmsCalm.confined
    have calmly : x.Calmly rest := ⟨_, [], called, by simp [Act.minor, Op.calm]⟩
    obtain ⟨w, lock, top, next⟩ := shut_down_of_answer known stacked called answered
    have lock := calmly.later calm lock
    have rw' := r.trans (lock.mono fun _ p => p.1)
    obtain ⟨stack, u, u', hu, hu', acts, acts', runState⟩ := next.shuts_down top
    have stopped := stopped_of_calmly r lock hv hu
    have before : v.acts = .perform self .shutdown :: pending d rest := by rw [(view_eq_some hv).2.1, called, pending_same]
    refine ⟨by cases stack.symm.trans answered; rfl, (calmly.later calm known).mono fun _ p => p.2,
      fun some => endsPromptly rw' top next hu fun none => some (stopped.1 none), fun none unbegun y u r' hu => ?_⟩
    have shut : ∀ v, x'.view d = Option.some v → v.Shut := fun v hv' => by
      cases hu'.symm.trans hv'
      refine ⟨by rw [runState, if_pos (stopped.2 none)], fun b m => ?_⟩
      rw [acts'] at m
      rcases List.mem_cons.1 m with rfl | old
      · rfl
      · exact unbegun b (before ▸ List.mem_cons_of_mem _ old)
    exact (shut_or_called r' (stacked_of_run (r.trans (known.mono fun _ p => p.1))) shut hu).imp_left View.Shut.stopped

/-- Two slots, and a handler that asks for the end of the session. -/
def pair : Setup := ⟨[⟨2, 0, [], []⟩], false, [], [[[.shutdown]], [[]]], 9, false⟩

/-- Two tasks that are due at the same time. -/
def pairCalls : List (Nat × Op) :=
  [(0, .declare), (0, .declare), (0, .init), (0, .configure (.slot 0) 0 10 false), (0, .configure (.slot 1) 1 10 false),
    (0, .start (.slot 0)), (0, .start (.slot 1)), (0, .run)]

/-- The handler of the first task asks for the end of the session, the second task still runs, and the run is done. -/
theorem shutdown_prompt_of_handler : ∃ (x x' y : Moment) (v : View) (deeds : List Deed), x.view 0 = some v ∧
    v.scheduler.runState = .active ∧ x'.EndsPromptly 0 ∧ Run (·.Within []) x' y ∧ y.machine.stack = [⟨0, .answered .done⟩] ∧
    Winding 0 [] (⟨0, .round⟩ ∈ x'.machine.stack) true y deeds ∧ x.machine.world.deeds 0 = [.opens, .sleeps 10, .runs 0] ∧
    (((initial pair).steps 101 pairCalls).1.machine.world.deeds 0 = [.opens, .sleeps 10, .runs 0, .runs 1, .closes] ∧
      ((initial pair).steps 101 pairCalls).1.machine.stack = [⟨0, .answered .done⟩]) := by
  let at' := fun n => ((initial pair).steps n pairCalls).1
  have called : (at' 69).machine.stack = ⟨0, .perform (some 0) .shutdown⟩ ::
      ([⟨0, .report "shutdown"⟩, ⟨0, .block (some 0) []⟩, ⟨0, .handling 0 0 (.attached [])⟩, ⟨0, .settle 0⟩,
        ⟨0, .survey (some 0)⟩, ⟨0, .round⟩] ++ [⟨0, .running⟩]) := rfl
  have fits : Run (fun z => z.Fits pair) (initial pair) (at' 69) := run_steps (by decide +kernel)
  have r := proper_of_fits (by decide +kernel) fits
  have shown : ((at' 69).view 0).any (fun v => v.scheduler.runState = .active) = true := by decide +kernel
  obtain ⟨v, hv, active⟩ := (Option.any_eq_true _ _).1 shown
  rw [decide_eq_true_eq] at active
  obtain ⟨comes, promises⟩ := shutdown_prompt (r.mono fun _ => Machine.Proper.armsCalm) called hv
  obtain ⟨x', run, done, -⟩ := comes (.proper r)
  obtain ⟨-, -, prompt, -⟩ := promises x' .done run done
  have prompt := prompt (by rw [active]; exact RunState.noConfusion)
  have winds := prompt.run (⟨0, .answered .done⟩ :: _) .running [] done rfl
  have proper := (run.also fun _ run => proper_of_within r.last run).mono fun _ p => p.2
  obtain ⟨y, rest, answered, -⟩ := winds.ends (.proper (r.trans proper))
  obtain ⟨deeds, t⟩ := rest.traced (recording 0 View.tell) []
  have closes : (!(pending 0 x'.machine.stack).any Act.leaves) = true := by rw [done]; rfl
  have did := winds.course y deeds t
  rw [closes] at did
  exact ⟨at' 69, x', y, v, deeds, hv, active, prompt, rest, answered, did, by decide +kernel, by decide +kernel, rfl⟩

end Moment

end TimedTasks
