import TimedTasks.Proofs.Tours

/-!
# A run comes to its end

Whether a run that goes to its end comes there is up to the handlers and interrupts that run meanwhile: each of them must
come to an end of its own (`Moment.Yields`). Those that begin no session and no round do, because every step of theirs leaves
fewer operations to come (`Moment.yields_of_proper`).

When no operations are left above the run, all frames above it are its own, or belong to the calls that they make on the
board (`Act.unwinds`). So it goes on with a step of its own, which leaves less of its way, and comes to its answer
(`Moment.Ending.reaches`).
-/

namespace TimedTasks

/-! ## Handlers and interrupts -/

namespace Moment

variable {P : Moment → Prop} {s : Setup} {x y z z' : Moment} {e : Nat} {g : Frame} {below rest : List Frame}

/-- The handlers and interrupts that are in progress above `below`, and those that come as long as something is, come to their
end. -/
def Yields (below : List Frame) (x : Moment) : Prop :=
  ∀ z above e self ops rest, Run (·.Within below) x z → z.machine.stack = above ++ ⟨e, .block self ops⟩ :: rest →
    Exceeds below rest → ∃ w, Run (·.Within below) z w ∧ w.machine.stack = rest

theorem Yields.later (h : x.Yields below) (r : Run (·.Within below) x z) : z.Yields below :=
  fun w above e self ops rest r' => h w above e self ops rest (r.trans r')

theorem Yields.returns (h : x.Yields below) (r : Run P (initial s) x) (answer : ∀ f ∈ below.head?, f.act.takesAnswer) :
    x.Returns below := by
  intro z e self ops rest run top
  refine h z [] e self ops rest run top ((run.last.exceeds top).tail fun lowest => ?_)
  -- Operations do not lie right on what waits for an answer.
  have stacked : Stacked z.machine.stack := stacked_of_run ((r.mono fun _ _ => trivial).trans (run.mono fun _ _ => trivial))
  rw [top, lowest] at stacked
  cases below with
  | nil => cases stacked.1
  | cons f below =>
    have takes := answer f rfl
    rcases stacked.1.1 with ⟨_, _, same⟩ | ⟨_, _, _, same⟩ | same <;> (rw [same] at takes; cases takes)

/-- A call above `rest` is in progress, and comes to what begins nothing. -/
def Calmly (rest : List Frame) (z : Moment) : Prop :=
  ∃ a above, z.machine.stack = a :: above ++ rest ∧ ∀ f ∈ a :: above, f.act.minor

/-- Such a call brings nothing else. -/
theorem Calmly.next (h : z.Calmly rest) (confined : Confined Op.calm z.machine.stack) (next : z.Next z') (within : z'.Within rest) :
    z'.Calmly rest := by
  obtain ⟨a, above, stack, minor⟩ := h
  rw [List.cons_append] at stack
  have old : ∀ f ∈ above, f.act.minor := fun f m => minor f (List.mem_cons_of_mem _ m)
  -- What is left above `rest` is something, since the call is still in progress.
  have left : ∀ {front : List Frame}, z'.machine.stack = front ++ rest → (∀ f ∈ front, f.act.minor) → z'.Calmly rest := by
    intro front stack' minor
    cases front with
    | nil =>
      obtain ⟨above', f, same⟩ := within
      have length := congrArg List.length (stack'.symm.trans same)
      simp only [List.nil_append, List.length_append, List.length_cons] at length
      omega
    | cons b front => exact ⟨b, front, stack', minor⟩
  cases next.machine.turn with
  | works d act under δ t top _ l takes =>
    cases stack.symm.trans top
    refine left (by rw [takes.stack, List.append_assoc]) fun f m => ?_
    rcases List.mem_append.1 m with new | m
    · obtain ⟨b, mb, rfl⟩ := List.mem_map.1 new
      exact tame_calm.frames l (minor _ List.mem_cons_self) (confined _ (top ▸ List.mem_cons_self)) b mb
    · exact old f m
  | delivers d d' ms act under δ t top =>
    have own := minor a List.mem_cons_self
    rw [(List.cons.inj (stack.symm.trans top)).1] at own
    cases own
  | redirects d d' self op under top _ top' =>
    cases stack.symm.trans top
    refine ⟨⟨d', .perform self op⟩, above, top', fun f m => ?_⟩
    rcases List.mem_cons.1 m with rfl | m
    · exact minor ⟨d, .perform self (.on d' op)⟩ List.mem_cons_self
    · exact old f m
  | answers d d' b act under top takes _ top' =>
    cases above with
    | nil =>
      cases stack.symm.trans top
      exact absurd within (next.not_within stack)
    | cons b above =>
      cases stack.symm.trans top
      exact left top' fun f m => old f (List.mem_cons_of_mem _ m)
  | finishes d b top =>
    have under : rest = [] := (List.append_eq_nil_iff.1 (List.cons.inj (stack.symm.trans top)).2).2
    exact absurd within (under ▸ next.not_within top)
  | calls d op top => cases stack.symm.trans top

/-- Something may be in progress above `rest`. -/
def Upon (rest : List Frame) (z : Moment) : Prop := ∃ above, z.machine.stack = above ++ rest

theorem Upon.within (h : z.Upon rest) (exceeds : Exceeds below rest) : z.Within below := by
  obtain ⟨above, stack⟩ := h
  exact (exceeds.push above).within stack

/-- What begins nothing comes to its end. -/
theorem comes_back (r : Run (fun z => z.machine.Proper s) (initial s) z) (waits : g.act.takesAnswer = false)
    (calmly : z.Calmly (g :: rest)) :
    ∃ y, Run (fun z => z.machine.Proper s ∧ z.Upon (g :: rest)) z y ∧ y.machine.stack = g :: rest := by
  induction hm : (z.machine.load, z.machine.toil) using (Prod.lex Nat.lt_wfRel Nat.lt_wfRel).wf.induction
    generalizing z with
  | _ m ih =>
    obtain ⟨a, above, stack, minor⟩ := id calmly
    have busy : z.machine.stack ≠ [] := by rw [stack]; simp
    have here : Run (fun z => z.machine.Proper s ∧ z.Upon (g :: rest)) z z := .here ⟨r.last, a :: above, stack⟩
    obtain ⟨z', next⟩ := goes_on r busy
    have proper' : z'.machine.Proper s := next.machine.turn.proper r.last fun d op idle => absurd idle busy
    rcases next.machine.turn.keeps stack with ⟨above', kept⟩ | ⟨-, ms, deadline⟩ | ⟨-, takes, -⟩
    · have step := here.more next ⟨proper', above', kept⟩
      cases above' with
      | nil => exact ⟨z', step, kept⟩
      | cons b front =>
        have within : z'.Within (g :: rest) := by
          rcases List.eq_nil_or_concat front with rfl | ⟨front, last, rfl⟩
          · exact ⟨[], b, kept⟩
          · exact ⟨b :: front, last, by rw [kept]; simp⟩
        have nearer := next.machine.wanes stack (minor a List.mem_cons_self)
        obtain ⟨y, run, done⟩ := ih _ (hm ▸ Prod.lex_def.2 nearer) (r.more next proper')
          (calmly.next r.last.confined next within) rfl
        exact ⟨y, step.trans run, done⟩
    · have own := minor a List.mem_cons_self
      rw [deadline] at own
      cases own
    · rw [waits] at takes
      cases takes

/-- Proper operations are called one after the other. -/
theorem block_comes_back {self : Option Nat} {ops : List Op} (r : Run (fun z => z.machine.Proper s) (initial s) z)
    (top : z.machine.stack = ⟨e, .block self ops⟩ :: rest) :
    ∃ y, Run (fun z => z.machine.Proper s ∧ z.Upon rest) z y ∧ y.machine.stack = rest := by
  induction ops generalizing z with
  | nil =>
    obtain ⟨z', next⟩ := next_of_top r top rfl
    obtain ⟨δ, t, -, l, takes⟩ := next.leads_of_top top rfl
    have proper' : z'.machine.Proper s := next.machine.turn.proper r.last fun d op idle => by cases top.symm.trans idle
    cases l with
    | blockEnd => exact ⟨z', (Run.here ⟨r.last, [_], top⟩).more next ⟨proper', [], takes.stack⟩, takes.stack⟩
  | cons op ops ih =>
    obtain ⟨z', next⟩ := next_of_top r top rfl
    obtain ⟨δ, t, -, l, takes⟩ := next.leads_of_top top rfl
    have proper' : z'.machine.Proper s := next.machine.turn.proper r.last fun d op idle => by cases top.symm.trans idle
    have calm : op.calm := by
      have proper := r.last.acts ⟨e, .block self (op :: ops)⟩ (by rw [top]; exact List.mem_cons_self)
      simp only [Act.proper, Op.allProper, Bool.and_eq_true] at proper
      exact Op.calm_of_proper proper.1
    cases l with
    | blockNext =>
      have stack : z'.machine.stack = [⟨e, .perform self op⟩, ⟨e, .report op.name⟩] ++ ⟨e, .block self ops⟩ :: rest := takes.stack
      obtain ⟨y, run, top'⟩ := comes_back (r.more next proper') (g := ⟨e, .block self ops⟩) rfl
        ⟨_, _, stack, by simp [Act.minor, calm]⟩
      obtain ⟨w, run', stack'⟩ := ih ((r.more next proper').trans (run.mono fun _ p => p.1)) top'
      have step : Run (fun z => z.machine.Proper s ∧ z.Upon rest) z z' :=
        (Run.here ⟨r.last, [_], top⟩).more next ⟨proper', _, by rw [stack]; exact List.append_cons ..⟩
      refine ⟨w, (step.trans (run.mono fun u p => ⟨p.1, ?_⟩)).trans run', stack'⟩
      obtain ⟨-, above, same⟩ := p
      exact ⟨above ++ [⟨e, .block self ops⟩], by rw [same]; exact List.append_cons ..⟩

theorem Within.busy (h : z.Within below) : z.machine.stack ≠ [] := by
  obtain ⟨above, f, stack⟩ := h
  rw [stack]
  simp

theorem proper_of_within (h : x.machine.Proper s) (r : Run (·.Within below) x z) : z.machine.Proper s :=
  r.invariant h fun _ _ h within next _ => next.machine.turn.proper h fun _ _ idle => absurd idle within.busy

theorem armsCalm_of_within (h : x.machine.ArmsCalm) (r : Run (·.Within below) x z) : z.machine.ArmsCalm :=
  r.invariant h fun _ _ h within next _ => next.machine.turn.armsCalm h fun _ _ idle => absurd idle within.busy

/-- Handlers and interrupts that begin no session and no round come to their end. -/
theorem yields_of_proper (r : Run (fun z => z.machine.Proper s) (initial s) x) : x.Yields below := by
  intro z above e self ops rest run stack exceeds
  have r' := r.trans ((run.also fun _ run => proper_of_within r.last run).mono fun _ p => p.2)
  -- What is above the operations comes to its end first.
  obtain ⟨y, upper, top⟩ : ∃ y, Run (fun z => z.machine.Proper s ∧ z.Upon (⟨e, .block self ops⟩ :: rest)) z y ∧
      y.machine.stack = ⟨e, .block self ops⟩ :: rest := by
    cases above with
    | nil => exact ⟨z, .here ⟨r'.last, [], stack⟩, stack⟩
    | cons a above =>
      have light := light r'
      rw [stack] at light
      exact comes_back r' rfl ⟨a, above, stack, fun f m => (List.pairwise_append.1 light).2.2 f m _ List.mem_cons_self rfl⟩
  obtain ⟨w, lower, done⟩ := block_comes_back (r'.trans (upper.mono fun _ p => p.1)) top
  exact ⟨w, (upper.mono fun _ p => p.2.within (exceeds.push [_])).trans (lower.mono fun _ p => p.2.within exceeds), done⟩

end Moment

/-! ## What is above a run -/

namespace Act

/-- Without operations of handlers and interrupts, all that is above a run is part of it, or one of the few things that come
with its calls on the board. -/
def unwinds : Act → Bool
  | interrupts .. | discard | locked .shutdown | answered .done => true
  | a => a.winds

theorem unwinds_of_winds {a : Act} (h : a.winds) : a.unwinds := by
  cases a with
  | locked s => cases s <;> first | rfl | exact h
  | _ => first | rfl | exact h | cases h

theorem cases_of_unwinds {a : Act} (h : a.unwinds) (other : a.winds = false) :
    (∃ call bodies, a = interrupts call bodies) ∨ a = discard ∨ a = locked .shutdown ∨ a = answered .done := by
  have none : a.unwinds ≠ a.winds := by rw [h, other]; exact Bool.noConfusion
  cases a with
  | interrupts call bodies => exact .inl ⟨call, bodies, rfl⟩
  | discard => exact .inr (.inl rfl)
  | locked s => cases s <;> first | exact .inr (.inr (.inl rfl)) | exact absurd rfl none
  | answered a => cases a <;> first | exact .inr (.inr (.inr rfl)) | exact absurd rfl none
  | _ => exact absurd rfl none

theorem unwinds_of_sits {a b : Act} (sits : a.Sits b) (own : b.unwinds) (kept : b ≠ .discard) (free : a.isBlock = false) :
    a.unwinds ∧ a.calls = false := by
  -- An act that is called lies on what takes its answer.
  have called : b.takesAnswer → a.unwinds ∧ a.calls = false := fun takes => by
    cases b <;> first | exact absurd rfl kept | cases takes; done | cases own
  cases a with
  | block => cases free
  | report =>
    obtain ⟨_, _, rfl⟩ := sits
    cases own
  | reading r => cases r <;> first | exact ⟨rfl, rfl⟩ | exact called sits
  | locked s => cases s <;> first | exact ⟨rfl, rfl⟩ | exact called sits
  | perform | claiming | opening | closing | running | ticking | answered => exact called sits
  | _ => exact ⟨rfl, rfl⟩

end Act

/-- Only a shutdown has its answer discarded. -/
def Discards (stack : List Frame) : Prop :=
  stack.IsChain fun f g => g.act = .discard → f.device = g.device ∧ (f.act = .locked .shutdown ∨ f.act = .answered .done)

namespace Discards

variable {stack rest : List Frame} {f : Frame}

theorem push (h : Discards rest) (free : ∀ g ∈ rest.head?, g.act ≠ .discard) : Discards (f :: rest) := by
  cases rest with
  | nil => exact List.IsChain.singleton f
  | cons g rest => exact List.IsChain.cons_cons (fun same => absurd same (free g rfl)) h

theorem append {frames : List Frame} (h : Discards rest) (own : ∀ f ∈ frames, f.act ≠ .discard)
    (free : ∀ g ∈ rest.head?, g.act ≠ .discard) : Discards (frames ++ rest) := by
  induction frames with
  | nil => exact h
  | cons f frames ih =>
    refine (ih fun g m => own g (List.mem_cons_of_mem _ m)).push fun g m => ?_
    cases frames with
    | nil => exact free g m
    | cons b frames =>
      cases m
      exact own _ (List.mem_cons_of_mem _ List.mem_cons_self)

end Discards

/-- A step has no answer discarded but that of a shutdown. -/
theorem Leads.discards {w : World} {δ : Device} {d : Nat} {act : Act} {t : Stride} {rest : List Frame} (l : Leads w δ act t)
    (h : Discards (⟨d, act⟩ :: rest)) : Discards (t.frames.map (⟨d, ·⟩) ++ rest) := by
  have tail : Discards rest := List.IsChain.tail h
  -- What is above a discarded answer is the shutdown that it is the answer of.
  have head : act ≠ .locked .shutdown → ∀ g ∈ rest.head?, g.act ≠ .discard := by
    intro other g m same
    cases rest with
    | nil => cases m
    | cons b rest =>
      cases m
      rcases ((List.isChain_cons_cons.1 h).1 same).2 with own | rfl
      · exact other own
      · cases l
  cases l with
  | shutdown =>
    cases rest with
    | nil => exact List.IsChain.singleton _
    | cons g rest => exact List.IsChain.cons_cons (fun same => ⟨((List.isChain_cons_cons.1 h).1 same).1, .inr rfl⟩) tail
  | handledLast =>
    exact .push (.cons_cons (fun _ => ⟨rfl, .inl rfl⟩) (tail.push (head (by simp)))) (by simp)
  | ask ask => cases ask <;> exact tail.append (by simp [Stride.frames]) (head (by simp))
  | @refused sec _ refuses => exact tail.append (by simp [Stride.frames]) (head (by rintro ⟨⟩; cases refuses))
  | _ => exact tail.append (by simp [Stride.frames]) (head (by simp))

theorem Machine.Turn.discards {m m' : Machine} (turn : m.Turn m') (h : Discards m.stack) : Discards m'.stack := by
  cases turn with
  | works d act rest δ t top _ l takes => rw [takes.stack]; exact l.discards (top ▸ h)
  | delivers d e ms act rest δ t top _ l takes =>
    rw [top] at h
    have under : Discards (⟨d, act⟩ :: rest) := List.IsChain.tail h
    have head : ∀ g ∈ rest.head?, g.act ≠ .discard := by
      intro g m same
      cases rest with
      | nil => cases m
      | cons b rest =>
        cases m
        rcases ((List.isChain_cons_cons.1 under).1 same).2 with own | own <;> (dsimp only at own; subst own; cases l)
    rw [takes.stack]
    exact Discards.append (List.IsChain.tail under) (by cases l <;> simp [Stride.frames]) head
  | redirects d e self op rest top _ top' =>
    rw [top] at h
    rw [top']
    refine Discards.push (List.IsChain.tail h) fun g m same => ?_
    cases rest with
    | nil => cases m
    | cons b rest =>
      cases m
      rcases ((List.isChain_cons_cons.1 h).1 same).2 with own | own <;> cases own
  | answers d e a act rest top _ _ top' => rw [top] at h; rw [top']; exact List.IsChain.tail (List.IsChain.tail h)
  | finishes d a top _ top' => rw [top']; exact List.IsChain.nil
  | calls d op top _ top' => rw [top']; exact List.IsChain.singleton _

theorem Moment.discards {P : Moment → Prop} {s : Setup} {y : Moment} (r : Run P (initial s) y) : Discards y.machine.stack :=
  r.invariant (I := fun y => Discards y.machine.stack) List.IsChain.nil fun _ _ h _ next _ => next.machine.turn.discards h

/-- Without operations above a run, all that is above it is part of it, or comes with its calls on the board. -/
theorem Stacked.unwinds {d : Nat} {g : Act} {above below : List Frame} (stacked : Stacked (above ++ ⟨d, g⟩ :: below))
    (discards : Discards (above ++ ⟨d, g⟩ :: below)) (own : g.ofRun) (free : ∀ f ∈ above, f.act.isBlock = false) :
    ∀ f ∈ above ++ [⟨d, g⟩], f.device = d ∧ f.act.unwinds := by
  induction above with
  | nil =>
    intro f m
    cases List.mem_singleton.1 m
    exact ⟨rfl, Act.unwinds_of_winds (by rw [Act.winds, own, Bool.or_true])⟩
  | cons a above ih =>
    have rest := ih stacked.2 (List.IsChain.tail discards) fun f m => free f (List.mem_cons_of_mem _ m)
    intro f m
    rcases List.mem_cons.1 m with rfl | m
    · obtain ⟨b, tail, split⟩ : ∃ b tail, above ++ [⟨d, g⟩] = b :: tail := by cases above <;> exact ⟨_, _, rfl⟩
      have under : above ++ ⟨d, g⟩ :: below = b :: (tail ++ below) := by
        rw [List.append_cons, split]
        rfl
      rw [List.cons_append, under] at stacked discards
      obtain ⟨here, unwinds⟩ := rest b (split ▸ List.mem_cons_self)
      by_cases discard : b.act = .discard
      · obtain ⟨same, shut⟩ := (List.isChain_cons_cons.1 discards).1 discard
        refine ⟨same.trans here, ?_⟩
        rcases shut with shut | shut <;> rw [shut] <;> rfl
      · obtain ⟨own, called⟩ := Act.unwinds_of_sits stacked.1.1 unwinds discard (free f List.mem_cons_self)
        exact ⟨(stacked.1.2.resolve_left fun calls => by rw [called] at calls; cases calls).symm.trans here, own⟩
    · exact rest f m

/-! ## The way to the end -/

namespace Moment

variable {P : Moment → Prop} {s : Setup} {x y z : Moment} {d : Nat} {below : List Frame} {v u : View}

/-- A device that is there stays there. -/
theorem exists_view (r : Run P (initial s) x) (hv : x.view d = some v) (r' : Run (fun _ => True) x y) :
    ∃ u, y.view d = some u := by
  have bound : d < s.devices.length := by
    rw [← (furnishing r).1]
    exact (Array.getElem?_eq_some_iff.1 (view_eq_some hv).1).1
  obtain ⟨δ, found⟩ := device_of_lt ((r.mono fun _ _ => trivial).trans r') bound
  exact ⟨_, view_of_device found⟩

namespace Ending

/-- A run lies on what takes its answer. -/
theorem answer (h : z.Ending d below) (stacked : Stacked z.machine.stack) : ∀ f ∈ below.head?, f.act.takesAnswer := by
  obtain ⟨above, g, stack, own⟩ := h.call
  have calls : g.calls := by
    rcases own with own | rfl
    · exact Act.calls_of_engages (Act.engages_of_lives (Act.lives_of_ofRun own))
    · rfl
  rw [stack] at stacked
  clear stack
  induction above with
  | nil =>
    cases below with
    | nil => simp
    | cons f below =>
      intro f' m
      cases m
      exact (Act.sits_iff_of_calls calls).1 stacked.1.1
  | cons a above ih => exact ih stacked.2

/-- While a run is in progress, no other one begins on its device. -/
theorem unbegun (h : z.Ending d below) (r : Run P (initial s) z) (calm : ∀ z, P z → Confined Op.calm z.machine.stack)
    (more : z.machine.stack ≠ ⟨d, .answered .done⟩ :: below) (hv : z.view d = some v) :
    ∀ self rest, v.acts = .perform self .run :: rest → v.scheduler.runState = .stopped ∨ v.scheduler.inRound = true := by
  intro self rest acts
  obtain ⟨⟨g, m, own⟩, -⟩ := h.unstopped r calm more hv
  right
  by_contra idle
  have none : .round ∉ rest := fun m => idle ((sound r hv).inRound.2 (acts ▸ List.mem_cons_of_mem _ m))
  rw [acts] at m
  rcases List.mem_cons.1 m with rfl | m
  · cases own
  · have free := (Moment.calm r calm hv).unengaged acts rfl rfl none g m
    rw [Act.engages_of_lives (Act.lives_of_ofRun own)] at free
    cases free

/-- The way that the run has before it does not become longer. -/
theorem rank_le (h : x.Ending d below) (r : Run P (initial s) x) (calm : ∀ z, P z → Confined Op.calm z.machine.stack)
    (r' : Run (fun z => P z ∧ z.Within below) x y) (hv : x.view d = some v) (hu : y.view d = some u) : u.rank ≤ v.rank := by
  induction r' generalizing u with
  | here =>
    cases hv.symm.trans hu
    exact Nat.le_refl _
  | @more y z r' next p ih =>
    have known := r.trans (r'.mono fun _ p => p.1)
    have ending := h.later r calm r'
    have more : y.machine.stack ≠ ⟨d, .answered .done⟩ :: below := fun answered => next.not_within answered p.2
    obtain ⟨u₀, hu₀, later⟩ := next.view_later (stacked_of_run known) hu
    exact Nat.le_trans (later.rank_le (ordered known hu₀) (sound known hu₀) (ending.late u₀ hu₀)
      (ending.unbegun known calm more hu₀)) (ih hu₀)

end Ending

/-- A shutdown that has the lock is through, and its answer is discarded. -/
theorem shutdown_discarded {f : Frame} {rest : List Frame} (r : Run P (initial s) z)
    (top : z.machine.stack = ⟨d, .locked .shutdown⟩ :: f :: rest) (exceeds : Exceeds below rest) :
    ∃ w, Run (·.Within below) z w ∧ w.machine.stack = rest := by
  obtain ⟨y, next⟩ := next_of_top r top rfl
  obtain ⟨δ, t, -, l, takes⟩ := next.leads_of_top top rfl
  cases l with
  | refused refuses => cases refuses
  | shutdown =>
    have top' : y.machine.stack = ⟨d, .answered .done⟩ :: f :: rest := takes.stack
    have step : Run (fun _ => True) z y := (Run.here trivial).more next trivial
    obtain ⟨w, next'⟩ := next_of_top ((r.mono fun _ _ => trivial).trans step) top' rfl
    have left : w.machine.stack = rest := next'.stack_of_answer top'
    exact ⟨w, ((Run.here ((exceeds.push [_, _]).within top)).more next ((exceeds.push [_, _]).within top')).more next'
      (exceeds.within left), left⟩

/-- A run that goes to its end has less of its way before it with a step of its own, or something above it comes to its
end. -/
theorem Ending.progress (h : z.Ending d below) (r : Run (fun z => z.machine.ArmsCalm) (initial s) z) (yields : z.Yields below)
    (more : z.machine.stack ≠ ⟨d, .answered .done⟩ :: below) (hv : z.view d = some v) :
    ∃ w u, Run (·.Within below) z w ∧ w.view d = some u ∧
      (u.rank < v.rank ∨ (u.rank ≤ v.rank ∧ w.machine.stack.length < z.machine.stack.length)) := by
  have stacked := stacked_of_run r
  have calm : ∀ z : Moment, z.machine.ArmsCalm → Confined Op.calm z.machine.stack := fun _ => Machine.ArmsCalm.confined
  obtain ⟨above, g, stack, own⟩ := h.ofRun stacked more
  have shorter : ∀ {w : Moment}, Run (·.Within below) z w → w.machine.stack.length < z.machine.stack.length →
      ∃ w u, Run (·.Within below) z w ∧ w.view d = some u ∧
        (u.rank < v.rank ∨ (u.rank ≤ v.rank ∧ w.machine.stack.length < z.machine.stack.length)) := by
    intro w run less
    obtain ⟨u, hu⟩ := exists_view r hv (run.mono fun _ _ => trivial)
    have known := (run.also fun _ run => armsCalm_of_within r.last run).mono fun _ p => And.intro p.2 p.1
    exact ⟨w, u, run, hu, .inr ⟨h.rank_le r calm known hv hu, less⟩⟩
  have own_step : ∀ {act : Act} {rest : List Frame}, z.machine.stack = ⟨d, act⟩ :: rest → act.winds →
      ∃ w u, Run (·.Within below) z w ∧ w.view d = some u ∧
        (u.rank < v.rank ∨ (u.rank ≤ v.rank ∧ w.machine.stack.length < z.machine.stack.length)) := by
    intro act rest top winds
    obtain ⟨w, next⟩ := next_of_top r top (by cases act <;> first | rfl | cases winds)
    obtain ⟨u, hu⟩ := exists_view r hv ((Run.here trivial).more next trivial)
    have acts : v.acts = act :: pending d rest := by rw [(view_eq_some hv).2.1, top, pending_same]
    have turn := next.turns stacked hv hu acts (by cases act <;> first | rfl | cases winds)
    have less := (turn.rank_lt (ordered r hv) (sound r hv) (h.late v hv) (h.unbegun r calm more hv)).2 act (by rw [acts]; rfl) winds
    exact ⟨w, u, (Run.here h.within).more next (h.next r calm next more).within, hu, .inl less⟩
  by_cases free : ∀ f ∈ above, f.act.isBlock = false
  · cases above with
    | nil => exact own_step stack (by rw [Act.winds, own, Bool.or_true])
    | cons a above =>
      rcases a with ⟨e, act⟩
      have seated := stack ▸ stacked
      obtain ⟨rfl, here⟩ := seated.unwinds (stack ▸ discards r) own free ⟨e, act⟩ List.mem_cons_self
      -- What takes an answer is not the run.
      have under : act.calls → ∃ f rest, above ++ ⟨e, g⟩ :: below = f :: rest ∧ Exceeds below rest := by
        intro calls
        cases above with
        | nil =>
          have takes := (Act.sits_iff_of_calls calls).1 seated.1.1
          rw [Act.takesAnswer_of_calls (Act.calls_of_engages (Act.engages_of_lives (Act.lives_of_ofRun own)))] at takes
          cases takes
        | cons f above => exact ⟨f, _, rfl, above, _, rfl⟩
      cases winds : act.winds with
      | true => exact own_step stack winds
      | false =>
        rcases Act.cases_of_unwinds here winds with ⟨call, bodies, rfl⟩ | rfl | rfl | rfl
        · have returns := yields.returns r (h.answer stacked)
          obtain ⟨w, run, left⟩ := returns.interrupts (r.mono fun _ _ => trivial) stack ⟨above, _, rfl⟩
          exact shorter run (by rw [left, stack]; exact Nat.lt_succ_self _)
        · have awake := awake r _ (by rw [stack]; rfl)
          cases awake
        · obtain ⟨f, rest, split, exceeds⟩ := under rfl
          rw [List.cons_append, split] at stack
          obtain ⟨w, run, left⟩ := shutdown_discarded r stack exceeds
          exact shorter run (by rw [left, stack]; simp only [List.length_cons]; omega)
        · obtain ⟨f, rest, split, exceeds⟩ := under rfl
          rw [List.cons_append, split] at stack
          obtain ⟨w, next⟩ := next_of_top r stack rfl
          have left : w.machine.stack = rest := next.stack_of_answer stack
          refine shorter ((Run.here h.within).more next (exceeds.within left)) ?_
          rw [left, stack]
          simp only [List.length_cons]
          omega
  · obtain ⟨⟨e, act⟩, m, block⟩ : ∃ f ∈ above, f.act.isBlock = true := by
      by_contra none
      exact free fun f m => Bool.eq_false_iff.2 fun block => none ⟨f, m, block⟩
    cases act with
    | block self ops =>
      obtain ⟨upper, lower, rfl⟩ := List.append_of_mem m
      have split : z.machine.stack = upper ++ ⟨e, .block self ops⟩ :: (lower ++ ⟨d, g⟩ :: below) := by rw [stack]; simp
      obtain ⟨w, run, left⟩ := yields z upper e self ops _ (.here h.within) split ⟨lower, _, rfl⟩
      refine shorter run ?_
      rw [left, split]
      simp only [List.length_append, List.length_cons]
      omega
    | _ => cases block

/-- A run that goes to its end comes there, if the handlers and interrupts that run meanwhile come to theirs. -/
theorem Ending.reaches (h : z.Ending d below) (r : Run (fun z => z.machine.ArmsCalm) (initial s) z) (yields : z.Yields below)
    (hv : z.view d = some v) : ∃ y, Run (·.Within below) z y ∧ y.machine.stack = ⟨d, .answered .done⟩ :: below := by
  induction hm : (v.rank, z.machine.stack.length) using (Prod.lex Nat.lt_wfRel Nat.lt_wfRel).wf.induction
    generalizing z v with
  | _ m ih =>
    by_cases done : z.machine.stack = ⟨d, .answered .done⟩ :: below
    · exact ⟨z, .here h.within, done⟩
    · obtain ⟨w, u, run, hu, less⟩ := h.progress r yields done hv
      have known := (run.also fun _ run => armsCalm_of_within r.last run).mono fun _ p => And.intro p.2 p.1
      have ending := h.later r (fun _ => Machine.ArmsCalm.confined) known
      have nearer : Prod.Lex (· < ·) (· < ·) (u.rank, w.machine.stack.length) (v.rank, z.machine.stack.length) := by
        rcases less with less | ⟨le, less⟩
        · exact .left _ _ less
        · exact Prod.lex_def.2 ((Nat.lt_or_eq_of_le le).imp id fun same => ⟨same, less⟩)
      obtain ⟨y, rest, done⟩ := ih _ (hm ▸ nearer) ending (r.trans (known.mono fun _ p => p.1)) (yields.later run) hu rfl
      exact ⟨y, run.trans rest, done⟩

/-! ## A run winds up -/

/-- Handlers and interrupts do not keep a call above `below` from its end. They come to theirs by themselves, or all that is
ever called is proper. -/
inductive Unhindered (below : List Frame) (x : Moment) : Prop
  | yields : x.Yields below → Unhindered below x
  | proper {s : Setup} : Run (fun z => z.machine.Proper s) (initial s) x → Unhindered below x

namespace Unhindered

theorem comes_to_end (h : x.Unhindered below) : x.Yields below := by
  cases h with
  | yields h => exact h
  | proper r => exact yields_of_proper r

theorem later (h : x.Unhindered below) (r : Run (·.Within below) x y) : y.Unhindered below :=
  .yields (h.comes_to_end.later r)

end Unhindered

/-- The run of device `d` above `below` winds up. Until it has its answer it does no more than `Winding` says, and it comes to
its answer if nothing hinders it; whatever happens, it happens on the way there, or afterwards. -/
structure WindsUp (d : Nat) (below : List Frame) (rounds : Prop) (closes : Bool) (x : Moment) : Prop where
  course : ∀ y deeds, Traced (·.Within below) (recording d View.tell) [] x y deeds → Winding d below rounds closes y deeds
  ends : x.Unhindered below → ∃ y, Run (·.Within below) x y ∧ y.machine.stack = ⟨d, .answered .done⟩ :: below ∧
    ∀ z, Run (fun _ => True) x z → Run (·.Within below) z y ∨ Run (fun _ => True) y z

/-- A run that goes to its end winds up. It closes its session, unless it is about to do so already. -/
theorem Ending.winds_up (h : x.Ending d below) (r : Run (fun z => z.machine.ArmsCalm) (initial s) x) (hv : x.view d = some v) :
    WindsUp d below (⟨d, .round⟩ ∈ x.machine.stack) v.sessionOpen x := by
  rw [← mem_pending, ← (view_eq_some hv).2.1]
  refine ⟨fun y deeds t => ?_, fun free => ?_⟩
  · have known := (t.also fun _ run => armsCalm_of_within r.last run).mono fun _ p => And.intro p.2 p.1
    obtain ⟨u, hu⟩ := exists_view r hv (t.run.mono fun _ _ => trivial)
    exact h.winding r (fun _ => Machine.ArmsCalm.confined) known hv hu
  · obtain ⟨y, run, done⟩ := h.reaches r free.comes_to_end hv
    exact ⟨y, run, done, fun z r' => run.meets (fun _ => Within.busy) r'⟩

/-- A step before it that nothing comes of belongs to it. -/
theorem WindsUp.cons {rounds : Prop} {closes : Bool} (h : y.WindsUp d below rounds closes) (next : x.Next y)
    (here : x.Within below) (within : y.Within below) (begins : ¬x.BeginsRound d)
    (unanswered : ∀ a, x.machine.stack ≠ ⟨d, .answered a⟩ :: below) (quiet : recording d View.tell x [] = []) :
    x.WindsUp d below rounds closes := by
  have step : Run (·.Within below) x y := (Run.here here).more next within
  refine ⟨fun z deeds t => ?_, fun free => ?_⟩
  · rcases t.here_or_next with ⟨rfl, rfl⟩ | ⟨y', next', rest⟩
    · exact ⟨begins, ⟨[], List.nodup_nil, fun _ => rfl, .inl rfl⟩, fun a answered => absurd answered (unanswered a)⟩
    · cases next'.unique next here.busy
      rw [quiet] at rest
      exact h.course z deeds rest
  · obtain ⟨w, run, done, only⟩ := h.ends (free.later step)
    exact ⟨w, step.trans run, done, fun z r => (step.trans run).meets (fun _ => Within.busy) r⟩

end Moment

end TimedTasks
