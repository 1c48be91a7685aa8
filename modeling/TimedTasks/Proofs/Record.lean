import TimedTasks.Proofs.Sound
import TimedTasks.Proofs.Walk

/-!
# Records of runs

Some of what a run guarantees is said with the help of a record that is kept beside it: at each step the moment says
what becomes of the record, and the machine never reads it. `Traced` is a run with a record. Every run has one
(`Run.traced`), and `Moment.view_of_record` is the induction along it, as `Moment.view_of_run` is the one along a run.

What is recorded of a device is nearly always what its topmost act is about to do. Such an act is not buried under
another device, so it is the machine's next act (`Moment.Next.leads`).
-/

namespace TimedTasks

/-- A run with `P` at all its moments. The record of it begins as `a`, and `f` says what becomes of it at the step that
follows a moment. -/
inductive Traced {α : Type} (P : Moment → Prop) (f : Moment → α → α) (a : α) (x : Moment) : Moment → α → Prop
  | here : P x → Traced P f a x x a
  | more {y z b} : Traced P f a x y b → y.Next z → P z → Traced P f a x z (f y b)

section Traced

variable {α : Type} {P : Moment → Prop} {f : Moment → α → α} {a b : α} {x y : Moment}

/-- A record says nothing of which runs there are. -/
theorem Traced.run (h : Traced P f a x y b) : Run P x y := by
  induction h with
  | here p => exact .here p
  | more _ n p ih => exact .more ih n p

/-- What is true of every moment that the run reaches can be promised of it. -/
theorem Traced.also {Q : Moment → Prop} (h : Traced P f a x y b) (q : ∀ z, Run P x z → Q z) :
    Traced (fun z => P z ∧ Q z) f a x y b := by
  induction h with
  | here p => exact .here ⟨p, q _ (.here p)⟩
  | more r n p ih => exact ih.more n ⟨p, q _ (r.run.more n p)⟩

theorem Traced.mono {Q : Moment → Prop} (h : Traced P f a x y b) (sub : ∀ z, P z → Q z) : Traced Q f a x y b := by
  induction h with
  | here p => exact .here (sub _ p)
  | more _ n p ih => exact ih.more n (sub _ p)

theorem Traced.trans {z : Moment} {c : α} (h : Traced P f a x y b) (h' : Traced P f b y z c) : Traced P f a x z c := by
  induction h' with
  | here => exact h
  | more _ n p ih => exact ih.more n p

theorem Run.traced (r : Run P x y) (f : Moment → α → α) (a : α) : ∃ b, Traced P f a x y b := by
  induction r with
  | here p => exact ⟨a, .here p⟩
  | more _ n p ih =>
    obtain ⟨b, h⟩ := ih
    exact ⟨f _ b, h.more n p⟩

/-- The record of a walk. -/
def Moment.noted (f : Moment → α → α) : Nat → List (Nat × Op) → Moment → α → α
  | 0, _, _, a => a
  | n + 1, calls, x, a =>
    match x.follow calls with
    | some (y, calls) => noted f n calls y (f x a)
    | none => a

theorem Moment.traced_of_walk {ok : Moment → Bool} {n : Nat} {calls left : List (Nat × Op)}
    (h : x.walk ok n calls = some (y, left)) (sound : ∀ z, ok z → P z) : Traced P f a x y (x.noted f n calls a) := by
  induction n generalizing x a calls with
  | zero =>
    unfold walk at h
    split at h
    · rename_i good
      cases h
      exact .here (sound _ good)
    · cases h
  | succ n ih =>
    unfold walk at h
    split at h
    · rename_i good
      split at h
      · rename_i z calls follow
        have later : Traced P f (f x a) z y (z.noted f n calls (f x a)) := ih h
        rw [noted, follow]
        exact ((Traced.here (sound _ good)).more (next_of_follow follow) later.run.first).trans later
      · cases h
    · cases h

theorem Moment.traced_steps [DecidablePred P] {n : Nat} {calls : List (Nat × Op)}
    (h : (x.walk (fun z => P z) n calls).isSome) :
    Traced P f a x (x.steps n calls).1 (x.noted f n calls a) := by
  obtain ⟨⟨y, left⟩, walked⟩ := Option.isSome_iff_exists.1 h
  rw [steps, walk_anyhow walked]
  exact traced_of_walk walked fun z => of_decide_eq_true

/-- The record of the part of a walk after its first `n` steps. -/
theorem Moment.traced_steps_add [DecidablePred P] {n m : Nat} {calls : List (Nat × Op)}
    (h : (x.walk (fun _ => true) (n + m) calls).isSome)
    (later : ((x.steps n calls).1.walk (fun z => P z) m (x.steps n calls).2).isSome) :
    Traced P f a (x.steps n calls).1 (x.steps (n + m) calls).1 ((x.steps n calls).1.noted f m (x.steps n calls).2 a) := by
  rw [steps_add h]
  exact traced_steps later

end Traced

/-! ## The topmost act of a device -/

/-- An act that does not wait for an answer is not buried under another device. -/
theorem Stacked.top {d : Nat} {act : Act} {stack : List Frame} {rest : List Act} (h : Stacked stack)
    (acts : pending d stack = act :: rest) (works : act.takesAnswer = false) :
    ∃ below, stack = ⟨d, act⟩ :: below ∧ pending d below = rest := by
  cases stack with
  | nil => cases acts
  | cons f below =>
    rcases f with ⟨e, a⟩
    by_cases here : e = d
    · subst here
      rw [pending_same] at acts
      cases acts
      exact ⟨below, rfl, rfl⟩
    · rw [pending_other here] at acts
      have waits := h.takesAnswer_of_buried here act (by rw [acts]; rfl)
      rw [works] at waits
      cases waits

namespace Act

/-- The act works on its own: it neither is a result nor waits for one, and is not handed on. -/
def works : Act → Bool
  | deadline _ => false
  | a => !a.takesAnswer && !View.drops a

/-- The act waits for an answer, or only goes somewhere else. -/
def waits (a : Act) : Bool := a.takesAnswer || View.drops a

theorem works_of_waits {a : Act} (h : a.waits) : a.works = false := by
  rw [waits, Bool.or_eq_true] at h
  cases a with
  | deadline ms => rfl
  | _ =>
    rw [works, Bool.and_eq_false_iff, Bool.not_eq_false', Bool.not_eq_false']
    · exact h
    · nofun

end Act

namespace Moment

variable {x y : Moment} {d : Nat} {v v' : View} {act : Act} {rest : List Act}

/-- When the act on top works on its own, it is what happens next. -/
theorem Next.leads_of_top {below : List Frame} (next : x.Next y) (top : x.machine.stack = ⟨d, act⟩ :: below)
    (works : act.works) : ∃ δ s, x.machine.world.devices[d]? = some δ ∧ Leads x.machine.world δ act s ∧
      x.machine.Takes y.machine d s below := by
  cases next.machine.turn with
  | works e act' rest' δ s top' found l takes =>
    cases top.symm.trans top'
    exact ⟨δ, s, found, l, takes⟩
  | delivers e e' ms act' rest' δ s top' => cases top.symm.trans top'; cases works
  | redirects e e' self op rest' top' => cases top.symm.trans top'; cases works
  | answers e e' a act' rest' top' => cases top.symm.trans top'; cases works
  | finishes e a top' => cases top.symm.trans top'; cases works
  | calls e op top' => cases top.symm.trans top'

/-- When a deadline is on top, the frame below takes it. -/
theorem Next.delivers_of_top {e : Nat} {ms : Option UInt32} {below : List Frame} (next : x.Next y)
    (top : x.machine.stack = ⟨e, .deadline ms⟩ :: below) : ∃ d act rest δ s, below = ⟨d, act⟩ :: rest ∧
      x.machine.world.devices[d]? = some δ ∧ Delivers δ ms act s ∧ x.machine.Takes y.machine d s rest := by
  cases next.machine.turn with
  | works d act rest δ s top' _ l => cases top.symm.trans top'; cases l
  | delivers d e ms' act rest δ s top' found l takes =>
    cases top.symm.trans top'
    exact ⟨d, act, rest, δ, s, rfl, found, l, takes⟩
  | redirects d e self op rest top' => cases top.symm.trans top'
  | answers d e a act rest top' => cases top.symm.trans top'
  | finishes d a top' => cases top.symm.trans top'
  | calls d op top' => cases top.symm.trans top'

/-- When an answer is on top, the frame below, if there is one, takes it and is gone, too. -/
theorem Next.stack_of_answer {a : Answer} {below : List Frame} (next : x.Next y)
    (top : x.machine.stack = ⟨d, .answered a⟩ :: below) : y.machine.stack = below.tail := by
  cases next.machine.turn with
  | works e act rest δ s top' _ l => cases top.symm.trans top'; cases l
  | delivers e e' ms act rest δ s top' => cases top.symm.trans top'
  | redirects e e' self op rest top' => cases top.symm.trans top'
  | answers e e' a act rest top' _ _ left => cases top.symm.trans top'; exact left
  | finishes e a top' _ left => cases top.symm.trans top'; exact left
  | calls e op top' => cases top.symm.trans top'

/-- When the topmost act of a device works on its own, it is what happens next. -/
theorem Next.leads (next : x.Next y) (stacked : Stacked x.machine.stack) (h : x.view d = some v)
    (h' : y.view d = some v') (acts : v.acts = act :: rest) (works : act.works) :
    ∃ w s, Leads w v.device act s ∧ v' = View.take s rest (v.past.after v.clock act s) := by
  obtain ⟨found, shown, past⟩ := view_eq_some h
  obtain ⟨below, top, under⟩ := stacked.top (shown.symm.trans acts) (by cases act <;> first | rfl | cases works)
  obtain ⟨δ, s, found', l, takes⟩ := next.leads_of_top top works
  cases found.symm.trans found'
  obtain ⟨device, acts', past'⟩ := view_eq_some h'
  rw [takes.device_same found] at device
  rw [next.past d, Chronicle.next_works top found takes, ← past] at past'
  rw [takes.stack, pending_takes_same, under] at acts'
  refine ⟨_, s, l, ?_⟩
  rcases v' with ⟨δ', acts'', past''⟩
  cases device
  cases acts'
  cases past'
  rfl

/-- When the topmost act of a device is the deadline of a round, it is what goes on next. -/
theorem Next.delivers {ms : Option UInt32} (next : x.Next y) (stacked : Stacked x.machine.stack) (h : x.view d = some v)
    (h' : y.view d = some v') (acts : v.acts = .deadline ms :: rest) : View.Turn v v' := by
  obtain ⟨found, shown, past⟩ := view_eq_some h
  obtain ⟨below, top, under⟩ := stacked.top (shown.symm.trans acts) rfl
  obtain ⟨e, act, rest', δ, s, rfl, found', l, takes⟩ := next.delivers_of_top top
  obtain rfl : e = d := Stacked.device_of_deadline (top ▸ stacked)
  cases found.symm.trans found'
  obtain ⟨device, acts', past'⟩ := view_eq_some h'
  have clock : y.machine.clock e = x.machine.clock e := by
    rw [Machine.clock_eq found, Machine.clock_eq (takes.device_same found), Stride.clock_device]
    cases l <;> rfl
  have runs : y.machine.world.invocations e = x.machine.world.invocations e := by
    have none : s.invoked = none := by cases l <;> rfl
    funext i
    simp [takes.invocations, none]
  rw [takes.device_same found] at device
  rw [next.past e, Chronicle.next_idle (Machine.turn_idle top ⟨rfl, rfl⟩) clock runs, ← past] at past'
  rw [takes.stack, pending_takes_same] at acts'
  rw [pending_same] at under
  rw [← under] at acts
  have turn := View.Turn.delivers acts l
  rcases v' with ⟨δ', acts'', past''⟩
  cases device
  cases acts'
  cases past'
  exact turn

/-- When the topmost act of a device waits for no one, the device works next. -/
theorem Next.turns (next : x.Next y) (stacked : Stacked x.machine.stack) (h : x.view d = some v)
    (h' : y.view d = some v') (acts : v.acts = act :: rest) (busy : act.waits = false) : View.Turn v v' := by
  by_cases works : act.works = true
  · obtain ⟨w, s, l, rfl⟩ := next.leads stacked h h' acts works
    exact .works acts l
  · obtain ⟨ms, rfl⟩ : ∃ ms, act = .deadline ms := by
      cases act <;> first | exact ⟨_, rfl⟩ | simp_all [Act.works, Act.waits]
    exact next.delivers stacked h h' acts

/-- The record of what one device shows. -/
def recording {α : Type} (d : Nat) (f : View → α → α) (x : Moment) (a : α) : α :=
  match x.view d with
  | some v => f v a
  | none => a

/-- Either the device works, and this is recorded, or nothing is. -/
theorem Next.recorded {α : Type} {f : View → α → α} {b : α} (next : x.Next y) (stacked : Stacked x.machine.stack)
    (quiet : ∀ v b, (∀ act ∈ v.acts.head?, act.waits) → f v b = b) (h : x.view d = some v) (h' : y.view d = some v') :
    (View.Turn v v' ∧ recording d f x b = f v b) ∨
      (Relation.ReflTransGen View.Shift v v' ∧ recording d f x b = b) := by
  obtain ⟨u, hu, later⟩ := next.view_later stacked h'
  cases h.symm.trans hu
  have told : recording d f x b = f v b := by simp [recording, h]
  by_cases waits : ∀ act ∈ v.acts.head?, act.waits = true
  · rcases later with turned | shifted
    · exact .inl ⟨turned, told⟩
    · exact .inr ⟨shifted, told.trans (quiet v b waits)⟩
  · obtain ⟨act, rest, acts, busy⟩ : ∃ act rest, v.acts = act :: rest ∧ act.waits = false := by
      cases acts : v.acts with
      | nil => simp [acts] at waits
      | cons act rest => exact ⟨act, rest, rfl, by simpa [acts] using waits⟩
    exact .inl ⟨next.turns stacked h h' acts busy, told⟩

/-- What holds of a device and its record at first, and is kept by all that the device can show later, holds of them at
last. Nothing is recorded of a device that does not work. -/
theorem view_of_record_from {α : Type} {P : Moment → Prop} {f : View → α → α} {a b : α} {I : View → α → Prop}
    {Q : View → Prop} (r : Traced P (recording d f) a x y b) (stacked : Stacked x.machine.stack)
    (promise : ∀ z v, P z → z.view d = some v → Q v)
    (quiet : ∀ v b, (∀ act ∈ v.acts.head?, act.waits) → f v b = b) (first : ∀ v, x.view d = some v → I v a)
    (turn : ∀ v v' b, I v b → Q v → View.Turn v v' → Q v' → I v' (f v b))
    (shift : ∀ v v' b, I v b → View.Shift v v' → I v' b) (h : y.view d = some v) : I v b := by
  induction r generalizing v with
  | here => exact first v h
  | @more y z b r next p ih =>
    have stackedY : Stacked y.machine.stack :=
      r.run.invariant stacked fun _ _ h _ next _ => next.machine.turn.stacked h
    obtain ⟨u, hu, -⟩ := next.view_later stackedY h
    have here := ih hu
    rcases next.recorded stackedY quiet hu h with ⟨turned, told⟩ | ⟨shifted, told⟩
    · rw [told]
      exact turn u v b here (promise y u r.run.last hu) turned (promise z v p h)
    · rw [told]
      clear h
      induction shifted with
      | refl => exact here
      | tail _ step ih => exact shift _ _ b ih step

/-- The same of a record that begins with the run. -/
theorem view_of_record {α : Type} {P : Moment → Prop} {s : Setup} {f : View → α → α} {a b : α}
    {I : View → α → Prop} {Q : View → Prop} (r : Traced P (recording d f) a (initial s) y b)
    (promise : ∀ z v, P z → z.view d = some v → Q v)
    (quiet : ∀ v b, (∀ act ∈ v.acts.head?, act.waits) → f v b = b) (fresh : ∀ v, v.Fresh → I v a)
    (turn : ∀ v v' b, I v b → Q v → View.Turn v v' → I v' (f v b))
    (shift : ∀ v v' b, I v b → View.Shift v v' → I v' b) (h : y.view d = some v) : I v b :=
  view_of_record_from r trivial promise quiet (fun v hv => fresh v (initial_fresh hv))
    (fun v v' b i q t _ => turn v v' b i q t) shift h

/-- The same of a record of what acts that work on their own are about to do. -/
theorem view_of_traced {α : Type} {P : Moment → Prop} {s : Setup} {f : View → α → α} {a b : α}
    {I : View → α → Prop} {Q : View → Prop} (r : Traced P (recording d f) a (initial s) y b)
    (promise : ∀ z v, P z → z.view d = some v → Q v)
    (quiet : ∀ v b, (∀ act ∈ v.acts.head?, act.works = false) → f v b = b) (fresh : ∀ v, v.Fresh → I v a)
    (turn : ∀ v v' b, I v b → Q v → View.Turn v v' → I v' (f v b))
    (shift : ∀ v v' b, I v b → View.Shift v v' → I v' b) (h : y.view d = some v) : I v b :=
  view_of_record r promise (fun v b idle => quiet v b fun act m => Act.works_of_waits (idle act m)) fresh turn shift h

end Moment

end TimedTasks
