import TimedTasks.Proofs.Descent
import TimedTasks.Proofs.Progress
import TimedTasks.Proofs.Sessions

/-!
# A run goes to its end

A run whose session is to end finishes the round that it is in, tells the board, and answers. From there on the run is
`Ending`, whatever handlers and interrupts do meanwhile, and stays so with every step until it has its answer
(`Moment.Ending.next`). What it does on the way are the deeds of `Moment.Ending.winds_by`: the round comes to each task
once at most, and the board is told of the end once.
-/

namespace TimedTasks

/-! ## There is one way to go on -/

namespace Moment

variable {P Q : Moment → Prop} {x y z : Moment}

/-- While something is in progress, one thing comes next. -/
theorem Next.unique (h : x.Next y) (h' : x.Next z) (busy : x.machine.stack ≠ []) : y = z := by
  have machine : y.machine = z.machine := by
    cases hy : y.machine
    cases hz : z.machine
    have next := h.machine
    have next' := h'.machine
    rw [hy] at next
    rw [hz] at next'
    cases next with
    | step goes =>
      cases next' with
      | step goes' => exact Outcome.next.inj (goes.symm.trans goes')
      | finish ends => cases goes.symm.trans ends
      | call d op idle => exact absurd idle busy
    | finish ends =>
      cases next' with
      | step goes => cases goes.symm.trans ends
      | finish ends' => cases ends.symm.trans ends'; rfl
      | call d op idle => exact absurd idle busy
    | call d op idle => exact absurd idle busy
  have past : y.past = z.past := by
    funext d
    rw [h.past d, h'.past d, machine]
  rcases y with ⟨m, p⟩
  cases machine
  cases past
  rfl

end Moment

namespace Run

variable {P Q : Moment → Prop} {x y z : Moment}

/-- A run that is not over has a next moment. -/
theorem here_or_next (r : Run P x y) : x = y ∨ ∃ z, x.Next z ∧ Run P z y := by
  induction r with
  | here => exact .inl rfl
  | more r n p ih =>
    rcases ih with rfl | ⟨z, next, r⟩
    · exact .inr ⟨_, n, .here p⟩
    · exact .inr ⟨z, next, r.more n p⟩

/-- While something is in progress, all runs go the same way. -/
theorem meets (r : Run P x y) (busy : ∀ z, P z → z.machine.stack ≠ []) (r' : Run Q x z) : Run P z y ∨ Run Q y z := by
  induction r' with
  | here => exact .inl r
  | @more u z r' next q ih =>
    rcases ih with ahead | behind
    · rcases ahead.here_or_next with rfl | ⟨w, next', rest⟩
      · exact .inr (.more (.here r'.last) next q)
      · rw [next.unique next' (busy u ahead.first)]
        exact .inl rest
    · exact .inr (behind.more next q)

end Run

/-- The same of a run with a record. -/
theorem Traced.here_or_next {α : Type} {P : Moment → Prop} {f : Moment → α → α} {a b : α} {x y : Moment} (t : Traced P f a x y b) :
    (x = y ∧ a = b) ∨ ∃ z, x.Next z ∧ Traced P f (f x a) z y b := by
  induction t with
  | here => exact .inl ⟨rfl, rfl⟩
  | more t n p ih =>
    rcases ih with ⟨rfl, rfl⟩ | ⟨z, next, rest⟩
    · exact .inr ⟨_, n, .here p⟩
    · exact .inr ⟨z, next, rest.more n p⟩

/-! ## The run state, and rounds -/

theorem Act.lives_of_ofRun {a : Act} (h : a.ofRun) : a.lives := by
  cases a with
  | locked s => cases s <;> first | rfl | cases h
  | _ => first | rfl | cases h

/-- There is no session, and none is about to begin. -/
structure View.Shut (v : View) : Prop where
  stopped : v.scheduler.runState = .stopped
  unbegun : ∀ a ∈ v.acts, a.begins = false

/-- Only what is topmost makes something of the run state. -/
theorem View.Later.restates {v v' : View} (l : v.Later v') : v'.scheduler.runState = v.scheduler.runState ∨
    ∃ act ∈ v.acts.head?, act.Restates v.scheduler.runState v'.scheduler.runState := by
  rcases l with turned | shifted
  · cases turned with
    | @works w act t _ rest acts l =>
      refine .inr ⟨act, by rw [acts]; rfl, ?_⟩
      rw [show (take t rest _).scheduler = t.scheduler from t.scheduler_device]
      exact l.restates
    | @delivers ms act t _ rest acts l =>
      refine .inl ?_
      rw [show (take t rest _).scheduler = t.scheduler from t.scheduler_device]
      cases l <;> rfl
  · refine .inl ?_
    induction shifted with
    | refl => rfl
    | tail _ shift ih => cases shift <;> exact ih

/-- A session becomes active under the lock. -/
theorem Act.Restates.begun_of_active {r r' : RunState} {act : Act} (h : act.Restates r r') (late : r ≠ .active)
    (active : r' = .active) : act = .locked .beginSession := by
  cases h with
  | same => exact absurd active late
  | begun => rfl
  | asked => split at active <;> cases active
  | ended => cases active

/-- A round begins in an active session only. -/
theorem Leads.active_of_round {w : World} {δ : Device} {act a : Act} {t : Stride} (l : Leads w δ act t) (m : a ∈ t.frames)
    (begins : a = .checkCache ∨ a = .round) : δ.scheduler.runState = .active := by
  cases l with
  | tick active | anotherRound active => exact active
  | ask ask => cases ask <;> rcases begins with rfl | rfl <;> simp [Stride.frames] at m
  | asked | lengthAsked => rcases begins with rfl | rfl <;> simp [Stride.frames] at m
  | _ => rcases begins with rfl | rfl <;> simp [Stride.frames] at m

theorem Delivers.active_of_round {δ : Device} {ms : Option UInt32} {act a : Act} {t : Stride} (l : Delivers δ ms act t)
    (m : a ∈ t.frames) : a ≠ .checkCache ∧ a ≠ .round := by
  cases l <;> simp only [Stride.frames, List.mem_cons, List.not_mem_nil, or_false] at m
  · subst m; exact ⟨Act.noConfusion, Act.noConfusion⟩
  · subst m; exact ⟨Act.noConfusion, Act.noConfusion⟩
  · rcases m with rfl | rfl | rfl <;> exact ⟨Act.noConfusion, Act.noConfusion⟩
  · subst m; exact ⟨Act.noConfusion, Act.noConfusion⟩

/-- Once its session is to end, no round begins on a device. -/
theorem View.Later.round {v v' : View} (l : v.Later v') (late : v.scheduler.runState ≠ .active) (m : .round ∈ v'.acts) :
    .round ∈ v.acts := by
  rcases l with turned | shifted
  · cases turned with
    | @works w act t _ rest acts l =>
      rcases List.mem_append.1 m with new | old
      · exact absurd (l.active_of_round new (.inr rfl)) late
      · exact acts ▸ List.mem_cons_of_mem _ old
    | @delivers ms act t _ rest acts l =>
      rcases List.mem_append.1 m with new | old
      · exact absurd rfl (l.active_of_round new).2
      · exact acts ▸ List.mem_cons_of_mem _ (List.mem_cons_of_mem _ old)
  · induction shifted with
    | refl => exact m
    | tail _ shift ih =>
      refine ih ?_
      cases shift with
      | drops acts _ => exact acts ▸ List.mem_cons_of_mem _ m
      | arrives self op => exact (List.mem_cons.1 m).resolve_left Act.noConfusion

namespace Moment

variable {P : Moment → Prop} {s : Setup} {x y z z' : Moment} {d : Nat} {below : List Frame} {v u : View}

/-- The call in progress above `below` is a run on device `d` that goes to its end: no other round follows the one that
it is in. -/
structure Ending (d : Nat) (below : List Frame) (z : Moment) : Prop where
  call : ∃ above g, z.machine.stack = above ++ ⟨d, g⟩ :: below ∧ (g.ofRun ∨ g = .answered .done)
  late : ∀ v, z.view d = some v → v.scheduler.runState ≠ .active
  begun : ⟨d, .checkCache⟩ ∉ z.machine.stack
  closed : z.machine.stack = ⟨d, .answered .done⟩ :: below → ∀ v, z.view d = some v → v.Shut

namespace Ending

theorem within (h : z.Ending d below) : z.Within below := by
  obtain ⟨above, g, stack, -⟩ := h.call
  exact ⟨above, _, stack⟩

/-- Until it has its answer, the run is there. -/
theorem ofRun (h : z.Ending d below) (stacked : Stacked z.machine.stack)
    (more : z.machine.stack ≠ ⟨d, .answered .done⟩ :: below) :
    ∃ above g, z.machine.stack = above ++ ⟨d, g⟩ :: below ∧ g.ofRun := by
  obtain ⟨above, g, stack, own | rfl⟩ := h.call
  · exact ⟨above, g, stack, own⟩
  · cases above with
    | nil => exact absurd stack more
    | cons a above =>
      rw [stack] at stacked
      exact (Stacked.bare stacked).elim

/-- So the session is there, too. -/
theorem unstopped (h : z.Ending d below) (r : Run P (initial s) z) (calm : ∀ z, P z → Confined Op.calm z.machine.stack)
    (more : z.machine.stack ≠ ⟨d, .answered .done⟩ :: below) (hv : z.view d = some v) :
    (∃ g ∈ v.acts, g.ofRun) ∧ v.scheduler.runState ≠ .stopped := by
  obtain ⟨above, g, stack, own⟩ := h.ofRun (stacked_of_run r) more
  have m : g ∈ v.acts := by
    rw [(view_eq_some hv).2.1, mem_pending, stack]
    simp
  exact ⟨⟨g, m, own⟩, (engaged r calm hv).lives g m (Act.lives_of_ofRun own)⟩

/-- The run goes on to its next stage, and ends in its answer. -/
theorem call_next (h : z.Ending d below) (stacked : Stacked z.machine.stack) (next : z.Next z')
    (more : z.machine.stack ≠ ⟨d, .answered .done⟩ :: below) :
    (∃ above g, z'.machine.stack = above ++ ⟨d, g⟩ :: below ∧ (g.ofRun ∨ g = .answered .done)) ∧
      (z'.machine.stack = ⟨d, .answered .done⟩ :: below → ∃ n, z.machine.stack = ⟨d, .locked (.sessionOver n)⟩ :: below) := by
  obtain ⟨above, g, stack, own⟩ := h.ofRun stacked more
  have engages : g.engages := Act.engages_of_lives (Act.lives_of_ofRun own)
  -- The frame that has the answer is the lowest one of the call.
  have lowest : ∀ {above' : List Frame} {g' : Act}, z'.machine.stack = above' ++ ⟨d, g'⟩ :: below →
      z'.machine.stack = ⟨d, .answered .done⟩ :: below → g' = .answered .done := fun kept answered => by
    cases lowest_of_cons (answered.symm.trans kept)
    rfl
  cases above with
  | nil =>
    rw [List.nil_append] at stack
    obtain ⟨δ, t, -, l, takes⟩ := next.leads_of_top stack (by cases g <;> first | rfl | cases own)
    obtain ⟨front, ⟨e, g'⟩, frames⟩ : ∃ front f, t.frames.map (Frame.mk d) = front ++ [f] := by
      rcases List.eq_nil_or_concat (t.frames.map (Frame.mk d)) with none | ⟨front, f, split⟩
      · cases l with
        | @refused sec _ refuses => cases sec <;> first | cases refuses; done | cases own
        | _ => first | cases own; done | cases none
      · exact ⟨front, f, by simpa using split⟩
    have within : z'.machine.stack = front ++ ⟨e, g'⟩ :: below := by rw [takes.stack, frames]; simp
    obtain ⟨rfl, comes⟩ := next.comes stack engages within
    dsimp only at comes
    refine ⟨⟨front, g', within, ?_⟩, fun answered => ?_⟩
    · cases comes <;> first | exact .inl rfl | exact .inr rfl | cases own
    · obtain rfl := lowest within answered
      cases comes with
      | begun => cases own
      | ended => exact ⟨_, stack⟩
  | cons a above =>
    rcases next.machine.turn.keeps stack with ⟨above', kept⟩ | ⟨rfl, ms, deadline⟩ | ⟨-, takes, -⟩
    · refine ⟨⟨above', g, kept, .inl own⟩, fun answered => ?_⟩
      obtain rfl := lowest kept answered
      cases own
    · rcases a with ⟨e, act⟩
      dsimp only at deadline
      subst deadline
      have top' : z'.machine.stack = ⟨d, .running⟩ :: below := by
        obtain ⟨_, _, _, δ, t, same, found, l, takes⟩ := next.delivers_of_top stack
        cases same
        cases l with
        | round | ticking => cases own
        | sleeping active => exact absurd active (h.late _ (view_of_device found))
        | awake => exact takes.stack
      refine ⟨⟨[], .running, top', .inl rfl⟩, fun answered => ?_⟩
      cases top'.symm.trans answered
    · rw [Act.takesAnswer_of_calls (Act.calls_of_engages engages)] at takes
      cases takes

/-- A run that goes to its end stays on its way there. -/
theorem next (h : z.Ending d below) (r : Run P (initial s) z) (calm : ∀ z, P z → Confined Op.calm z.machine.stack)
    (next : z.Next z') (more : z.machine.stack ≠ ⟨d, .answered .done⟩ :: below) : z'.Ending d below := by
  have stacked := stacked_of_run r
  obtain ⟨call, last⟩ := h.call_next stacked next more
  refine ⟨call, fun v' hv' active => ?_, fun begins => ?_, fun answered v' hv' => ?_⟩
  · obtain ⟨v, hv, later⟩ := next.view_later stacked hv'
    rcases later.restates with same | ⟨act, top, restates⟩
    · exact h.late v hv (same ▸ active)
    · -- Another session would begin only without this one.
      cases restates.begun_of_active (h.late v hv) active
      exact (h.unstopped r calm more hv).2 ((engaged r calm hv).begins _ (List.mem_of_mem_head? top) rfl)
  · -- A new round would take an active session.
    cases next.machine.turn with
    | works e act rest δ t top found l takes =>
      rw [takes.stack] at begins
      rcases List.mem_append.1 begins with new | old
      · obtain ⟨a, ma, same⟩ := List.mem_map.1 new
        cases same
        exact h.late _ (view_of_device found) (l.active_of_round ma (.inl rfl))
      · exact h.begun (top ▸ List.mem_cons_of_mem _ old)
    | delivers e e' ms act rest δ t top found l takes =>
      rw [takes.stack] at begins
      rcases List.mem_append.1 begins with new | old
      · obtain ⟨a, ma, same⟩ := List.mem_map.1 new
        cases same
        exact (l.active_of_round ma).1 rfl
      · exact h.begun (top ▸ List.mem_cons_of_mem _ (List.mem_cons_of_mem _ old))
    | redirects e e' self op rest top _ top' =>
      rw [top'] at begins
      rcases List.mem_cons.1 begins with same | old
      · cases same
      · exact h.begun (top ▸ List.mem_cons_of_mem _ old)
    | answers e e' a act rest top _ _ top' =>
      rw [top'] at begins
      exact h.begun (top ▸ List.mem_cons_of_mem _ (List.mem_cons_of_mem _ begins))
    | finishes e a top _ top' => rw [top'] at begins; cases begins
    | calls e op top =>
      obtain ⟨above, g, stack, -⟩ := h.call
      rw [top] at stack
      simp at stack
  · obtain ⟨n, stack⟩ := last answered
    obtain ⟨v, hv, -⟩ := next.view_later stacked hv'
    have acts : v.acts = .locked (.sessionOver n) :: pending d below := by rw [(view_eq_some hv).2.1, stack, pending_same]
    have alone := (Moment.calm r calm hv).alone acts (.inr ⟨n, rfl⟩)
    obtain ⟨w, t, l, rfl⟩ := next.leads stacked hv hv' acts rfl
    cases l with
    | refused refuses => cases refuses
    | sessionOver =>
      refine ⟨rfl, fun a m => ?_⟩
      rcases List.mem_append.1 m with new | old
      · cases List.mem_singleton.1 new
        rfl
      · exact Bool.eq_false_iff.2 fun begins => Bool.false_ne_true ((alone a old).symm.trans (Act.engages_of_begins begins))

/-- It does so as long as it is in progress. -/
theorem later (h : x.Ending d below) (r : Run P (initial s) x) (calm : ∀ z, P z → Confined Op.calm z.machine.stack)
    (r' : Run (fun z => P z ∧ z.Within below) x y) : y.Ending d below := by
  induction r' with
  | here => exact h
  | more r' next p ih =>
    exact ih.next (r.trans (r'.mono fun _ p => p.1)) calm next fun answered => next.not_within answered p.2

end Ending

end Moment

/-! ## The deeds on the way -/

namespace Deed

/-- The task whose handler is invoked. -/
def task : Deed → Option Nat
  | runs i => some i
  | _ => none

/-- A history that neither opens a session nor sleeps is one of handlers that are invoked, and of the end of the session at
most. -/
theorem split_of_bracketed {deeds : List Deed} {within after : Bool}
    (h : deeds.foldlM (fun within deed => deed.after within) within = some after)
    (plain : ∀ deed ∈ deeds, deed ≠ .opens ∧ ∀ ms, deed ≠ .sleeps ms) :
    deeds = (deeds.filterMap task).map .runs ++ if within && !after then [.closes] else [] := by
  induction deeds generalizing within with
  | nil =>
    cases h
    cases after <;> rfl
  | cons deed deeds ih =>
    have rest := fun {within} h => @ih within h fun deed m => plain deed (List.mem_cons_of_mem _ m)
    rw [List.foldlM_cons] at h
    cases deed with
    | opens => exact absurd rfl (plain _ List.mem_cons_self).1
    | sleeps ms => exact absurd rfl ((plain _ List.mem_cons_self).2 ms)
    | runs i =>
      cases within with
      | false => cases h
      | true => exact congrArg (List.cons (.runs i)) (rest h)
    | closes =>
      cases within with
      | false => cases h
      | true =>
        -- Outside a session, only its opening could come.
        have none : deeds = [] := by
          cases deeds with
          | nil => rfl
          | cons deed deeds =>
            have here := plain deed (List.mem_cons_of_mem _ List.mem_cons_self)
            cases deed with
            | opens => exact absurd rfl here.1
            | _ => cases h
        subst none
        cases h
        rfl

end Deed

namespace View

variable {v v' u : View} {deeds : List Deed} {i : Nat}

theorem deed_eq_some {deed : Deed} (h : v.deed = some deed) :
    (deed = .opens ∧ v.scheduler.runState = .stopped) ∨
      (∃ i rest, deed = .runs i ∧ v.acts = .locked (.fetch i) :: rest) ∨
      ((∃ ms, deed = .sleeps ms) ∧ v.scheduler.runState = .active) ∨ deed = .closes := by
  unfold View.deed Device.deed at h
  split at h
  · split at h
    · rename_i stopped
      cases h
      exact .inl ⟨rfl, stopped⟩
    · cases h
  · rename_i i rest acts
    obtain ⟨k, -, rfl⟩ := Option.map_eq_some_iff.1 h
    exact .inr (.inl ⟨i, rest, rfl, acts⟩)
  · split at h
    · rename_i nap
      cases h
      exact .inr (.inr (.inl ⟨⟨_, rfl⟩, nap.1⟩))
    · cases h
  · cases h
    exact .inr (.inr (.inr rfl))
  · cases h

theorem Shift.sessionOpen (t : Shift v v') : v'.sessionOpen = v.sessionOpen := by
  cases t with
  | @drops act _ rest acts drops =>
    have idle : act.leaves = false ∧ act.begins = false := by cases act <;> first | exact ⟨rfl, rfl⟩ | cases drops
    refine sessionOpen_congr ?_ ?_ Iff.rfl
    · rw [acts, List.any_cons, idle.1, Bool.false_or]
    · rw [acts, List.any_cons, idle.2, Bool.false_or]
  | arrives self op => exact sessionOpen_congr rfl rfl Iff.rfl

/-- What is known of the deeds of a run that goes to its end, from when the device shows `v` to when it shows `u`. -/
structure WindsBy (v u : View) (deeds : List Deed) : Prop where
  history : deeds.foldlM (fun within deed => deed.after within) v.sessionOpen = some u.sessionOpen
  plain : ∀ deed ∈ deeds, deed ≠ .opens ∧ ∀ ms, deed ≠ .sleeps ms
  once : (deeds.filterMap Deed.task).Nodup
  behind : ∀ i ∈ deeds.filterMap Deed.task, .round ∈ u.acts → u.Behind i
  none : .round ∉ v.acts → .round ∉ u.acts ∧ deeds.filterMap Deed.task = []

namespace WindsBy

theorem refl : WindsBy v v [] := ⟨rfl, by simp, by simp, by simp, fun none => ⟨none, rfl⟩⟩

/-- A round that comes to an end stays behind the tasks that it came to. -/
theorem behind_of_later (later : u.Later v') (ordered : u.Ordered) (sound : u.Sound) (late : u.scheduler.runState ≠ .active)
    (h : .round ∈ u.acts → u.Behind i) (m : .round ∈ v'.acts) : v'.Behind i := by
  have busy := later.round late m
  rcases later with t | shifts
  · exact (h busy).turn ordered sound busy late t
  · have behind := h busy
    clear h busy m ordered sound late
    induction shifts with
    | refl => exact behind
    | tail _ shift ih => exact ih.shift shift

/-- Nothing is done in between. -/
theorem idle (h : WindsBy v u deeds) (later : u.Later v') (ordered : u.Ordered) (sound : u.Sound)
    (late : u.scheduler.runState ≠ .active) (same : v'.sessionOpen = u.sessionOpen) : WindsBy v v' deeds where
  history := h.history.trans (congrArg some same.symm)
  plain := h.plain
  once := h.once
  behind i m := behind_of_later later ordered sound late (h.behind i m)
  none free := ⟨fun m => (h.none free).1 (later.round late m), (h.none free).2⟩

/-- The device works. -/
theorem turn (h : WindsBy v u deeds) (t : Turn u v') (engaged : u.Engaged) (calm : u.Calm) (ordered : u.Ordered)
    (late : u.scheduler.runState ≠ .active) (unstopped : u.scheduler.runState ≠ .stopped) :
    WindsBy v v' (deeds ++ u.deed.toList) := by
  have sound := calm.sound
  have history : (deeds ++ u.deed.toList).foldlM (fun within deed => deed.after within) v.sessionOpen = some v'.sessionOpen := by
    rw [List.foldlM_append, h.history]
    exact engaged.deed calm t
  cases deed : u.deed with
  | none =>
    rw [deed, Option.toList_none, List.append_nil] at history
    rw [Option.toList_none, List.append_nil]
    exact ⟨history, h.plain, h.once, fun i m => behind_of_later (.inl t) ordered sound late (h.behind i m),
      fun free => ⟨fun m => (h.none free).1 (View.Later.round (.inl t) late m), (h.none free).2⟩⟩
  | some deed =>
    rw [deed] at history
    have others := fun i m => behind_of_later (i := i) (.inl t) ordered sound late (h.behind i m)
    have still := fun free m => (h.none free).1 (View.Later.round (.inl t) late m)
    rcases deed_eq_some deed with ⟨-, stopped⟩ | ⟨i, rest, rfl, acts⟩ | ⟨-, active⟩ | rfl
    · exact absurd stopped unstopped
    · have column : Column (.locked (.fetch i) :: rest) := acts ▸ sound.column
      have busy : .round ∈ u.acts := acts ▸ column.round_of_settle (column.settle_of_fetch List.mem_cons_self)
      have fresh : i ∉ deeds.filterMap Deed.task := fun m => (h.behind i m busy).gone _ (acts ▸ List.mem_cons_self) rfl
      refine ⟨history, fun deed m => ?_, ?_, fun j m => ?_, fun free => absurd busy (h.none free).1⟩
      · rcases List.mem_append.1 m with m | m
        · exact h.plain deed m
        · cases List.mem_singleton.1 m
          exact ⟨nofun, nofun⟩
      · rw [List.filterMap_append]
        refine List.Nodup.append h.once (List.nodup_singleton i) ?_
        simpa [Deed.task] using fresh
      · rw [List.filterMap_append] at m
        rcases List.mem_append.1 m with m | m
        · exact others j m
        · cases List.mem_singleton.1 m
          exact fun _ => ordered.behind_of_fetch sound acts t
    · exact absurd active late
    · have tasks : (deeds ++ (some Deed.closes).toList).filterMap Deed.task = deeds.filterMap Deed.task := by
        rw [List.filterMap_append]
        exact List.append_nil _
      refine ⟨history, fun deed m => ?_, tasks ▸ h.once, tasks ▸ others, fun free => ⟨still free, tasks ▸ (h.none free).2⟩⟩
      rcases List.mem_append.1 m with m | m
      · exact h.plain deed m
      · cases List.mem_singleton.1 m
        exact ⟨nofun, nofun⟩

end WindsBy

end View

namespace Moment

variable {P : Moment → Prop} {s : Setup} {x y z z' : Moment} {d : Nat} {below : List Frame} {v u : View} {deeds : List Deed}

/-- The deeds of a run that goes to its end. -/
theorem Ending.winds_by (h : x.Ending d below) (r : Run P (initial s) x) (calm : ∀ z, P z → Confined Op.calm z.machine.stack)
    (t : Traced (fun z => P z ∧ z.Within below) (recording d View.tell) [] x y deeds) (hv : x.view d = some v)
    (hu : y.view d = some u) : v.WindsBy u deeds := by
  induction t generalizing u with
  | here =>
    cases hv.symm.trans hu
    exact .refl
  | @more y z b t next p ih =>
    have r' := r.trans (t.run.mono fun _ p => p.1)
    have ending := h.later r calm t.run
    have stacked := stacked_of_run r'
    obtain ⟨u₀, hu₀, later⟩ := next.view_later stacked hu
    have told : recording d View.tell y b = b ++ u₀.deed.toList := by simp [recording, hu₀, View.tell]
    rw [told]
    have known := ih hu₀
    have late := ending.late u₀ hu₀
    have more : y.machine.stack ≠ ⟨d, .answered .done⟩ :: below := fun answered => next.not_within answered p.2
    have worked : View.Turn u₀ u → v.WindsBy u (b ++ u₀.deed.toList) := fun turn =>
      known.turn turn (engaged r' calm hu₀) (Moment.calm r' calm hu₀) (ordered r' hu₀) late (ending.unstopped r' calm more hu₀).2
    by_cases waits : ∀ act ∈ u₀.acts.head?, act.waits = true
    · rcases later with turn | shifts
      · exact worked turn
      · have none : u₀.deed = none := Device.deed_of_waits waits
        have same : u.sessionOpen = u₀.sessionOpen := by
          clear hu worked
          induction shifts with
          | refl => rfl
          | tail _ shift ih => exact shift.sessionOpen.trans ih
        rw [none, Option.toList_none, List.append_nil]
        exact known.idle (.inr shifts) (ordered r' hu₀) (sound r' hu₀) late same
    · obtain ⟨act, rest, acts, busy⟩ : ∃ act rest, u₀.acts = act :: rest ∧ act.waits = false := by
        cases acts : u₀.acts with
        | nil => simp [acts] at waits
        | cons act rest => exact ⟨act, rest, rfl, by simpa [acts] using waits⟩
      exact worked (next.turns stacked hu₀ hu acts busy)

/-- A round of device `d` begins. -/
def BeginsRound (d : Nat) (z : Moment) : Prop := ∃ rest, z.machine.stack = ⟨d, .checkCache⟩ :: rest

/-- What a run of device `d` that is asked to end has done until `y`. It began no round and did not sleep. It invoked the
handlers of some tasks, each once, unless no round of the device was in progress (`rounds`), and at most told the board of the
end of the session, if the board was still to be told (`closes`). If it has its answer, it is done, the board was told, and the
scheduler is stopped. -/
structure Winding (d : Nat) (below : List Frame) (rounds : Prop) (closes : Bool) (y : Moment) (deeds : List Deed) : Prop where
  begins : ¬y.BeginsRound d
  did : ∃ tasks : List Nat, tasks.Nodup ∧ (¬rounds → tasks = []) ∧
    (deeds = tasks.map .runs ∨ (closes = true ∧ deeds = tasks.map .runs ++ [.closes]))
  answer : ∀ a, y.machine.stack = ⟨d, .answered a⟩ :: below →
    a = .done ∧ (closes → .closes ∈ deeds) ∧ ∃ u, y.view d = some u ∧ u.scheduler.runState = .stopped

/-- A run that goes to its end finishes its round, and closes its session. -/
theorem Ending.winding (h : x.Ending d below) (r : Run P (initial s) x) (calm : ∀ z, P z → Confined Op.calm z.machine.stack)
    (t : Traced (fun z => P z ∧ z.Within below) (recording d View.tell) [] x y deeds) (hv : x.view d = some v)
    (hu : y.view d = some u) : Winding d below (.round ∈ v.acts) v.sessionOpen y deeds := by
  have ending := h.later r calm t.run
  have known := h.winds_by r calm t hv hu
  have split := Deed.split_of_bracketed known.history known.plain
  refine ⟨?_, ⟨deeds.filterMap Deed.task, known.once, fun free => (known.none free).2, ?_⟩, fun a answered => ?_⟩
  · rintro ⟨rest, top⟩
    exact ending.begun (top ▸ List.mem_cons_self)
  · cases closes : v.sessionOpen && !u.sessionOpen with
    | false =>
      rw [closes] at split
      exact .inl (by simpa using split)
    | true =>
      rw [closes] at split
      exact .inr ⟨(Bool.and_eq_true _ _ ▸ closes).1, by simpa using split⟩
  · obtain ⟨above, g, stack, own⟩ := ending.call
    cases lowest_of_cons (answered.symm.trans stack)
    obtain rfl : a = .done := by
      rcases own with own | same
      · cases own
      · cases same; rfl
    have shut := ending.closed answered u hu
    refine ⟨rfl, fun closes => ?_, u, hu, shut.stopped⟩
    rw [closes, View.not_sessionOpen_of_stopped shut.stopped shut.unbegun] at split
    rw [split]
    simp

end Moment

end TimedTasks
