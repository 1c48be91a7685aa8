import TimedTasks.Proofs.Timed

/-!
# Interrupts that keep to some operations

A run in which interrupts call certain operations only (`Confined`) has, above every frame of interrupts, only
what those operations come to (`Moment.guarded`). Two classes matter: operations that begin no session and no round
(`Op.calm`), and requests for the end of a session (`Op.ends`).

Together with the order of frames this says what can be buried: an act that goes on after a call on the board has the
interrupts of that call above it, so below a round there is none (`Column.unresumed`).
-/

namespace TimedTasks

/-- The operation begins neither a session nor a round. -/
def Op.calm : Op → Bool
  | init | run | tick => false
  | on _ op => op.calm
  | _ => true

/-- The operation asks for the end of a session. -/
def Op.ends : Op → Bool
  | shutdown => true
  | on _ op => op.ends
  | _ => false

namespace Act

/-- The act is a call on the board's interrupts. -/
def interrupted : Act → Bool
  | interrupts .. => true
  | _ => false

/-- What the interrupts of the act are to do. -/
def bodies : Act → List (List Op)
  | interrupts _ bodies => bodies
  | _ => []

/-- What calm operations come to. -/
def minor : Act → Bool
  | perform _ op => op.calm
  | block _ ops => ops.all Op.calm
  | report _ | interrupts .. | claiming .. => true
  | answered (.deadline _) => false
  | answered _ => true
  | reading (.start ..) | reading (.elapsed ..) | reading (.remaining ..) | reading (.expired ..)
  | reading (.info _) => true
  | locked .beginSession | locked .endSession | locked (.sessionOver _) | locked (.adopt ..) | locked (.fetch _) => false
  | locked _ => true
  | _ => false

/-- What requests for the end of a session come to. -/
def ends : Act → Bool
  | perform _ op => op.ends
  | block _ ops => ops.all Op.ends
  | report _ | interrupts .. | locked .shutdown => true
  | answered (.deadline _) => false
  | answered _ => true
  | _ => false

/-- The readings of queries are what calm operations come to. -/
theorem minor_of_asks {r : Reading} (h : r.asks) : (reading r).minor := by
  cases r <;> first | rfl | cases h

/-- So are the sections in which operations work under the lock. -/
theorem minor_of_op {σ : Scheduler} {self : Option Nat} {op : Op} {s : Section} (h : op.Asks σ self s) :
    (locked s).minor := by
  cases h <;> rfl

/-- And their answers, which are no deadlines. -/
theorem minor_answered {a : Answer} (h : ∀ ms, a ≠ .deadline ms) : (answered a).minor := by
  cases a <;> first | rfl | exact absurd rfl (h _)

theorem ends_answered {a : Answer} (h : ∀ ms, a ≠ .deadline ms) : (answered a).ends := by
  cases a <;> first | rfl | exact absurd rfl (h _)

end Act

/-- `ok` holds of all that the operations of `allowed` come to, and of no frame of a session or a round. -/
structure Tame (allowed : Op → Bool) (ok : Act → Bool) : Prop where
  perform : ∀ self op, ok (.perform self op) = allowed op
  block : ∀ self ops, ok (.block self ops) = ops.all allowed
  interrupts : ∀ call bodies, ok (.interrupts call bodies)
  handsOn : ∀ e op, allowed (.on e op) = allowed op
  leads : ∀ {w δ act s}, Leads w δ act s → ok act → act.interrupted = false → ∀ a ∈ s.acts, ok a
  round : ∀ act : Act, act = .round ∨ act.loops → ok act = false

/-- Calm operations come to what is minor, and what is minor goes on to what is. -/
theorem tame_calm : Tame Op.calm Act.minor where
  perform _ _ := rfl
  block _ _ := rfl
  interrupts _ _ := rfl
  handsOn _ _ := rfl
  leads := by
    intro w δ act s l ok no
    cases l with
    | answer h | told _ h | refused _ h | lengthTold h | unclaimed h => simp [Act.minor_answered h]
    | ask ask => simp [Act.minor_of_op ask]
    | asked _ r | lengthAsked r => simp [Act.minor_of_asks r]
    | blockNext => simp_all [Act.minor]
    | _ => first | cases ok; done | cases no; done | simp [Act.minor]
  round act h := by
    rcases h with rfl | loops
    · rfl
    · cases act <;> first | rfl | cases loops

/-- Requests for the end of a session come to no more than their section and its answer. -/
theorem tame_ends : Tame Op.ends Act.ends where
  perform _ _ := rfl
  block _ _ := rfl
  interrupts _ _ := rfl
  handsOn _ _ := rfl
  leads := by
    intro w δ act s l ok no
    cases l with
    | answer h | told _ h | refused _ h | lengthTold h | unclaimed h => simp [Act.ends_answered h]
    | ask ask => cases ask <;> first | cases ok; done | simp [Act.ends]
    | asked r | lengthAsked r => cases ok
    | blockNext => simp_all [Act.ends]
    | _ => first | cases ok; done | cases no; done | simp [Act.ends]
  round act h := by
    rcases h with rfl | loops
    · rfl
    · cases act <;> first | rfl | cases loops

/-! ## What lies above interrupts -/

/-- Above the frames of interrupts there is nothing but acts of a certain kind. -/
def Guarded (ok : Act → Bool) (acts : List Act) : Prop := acts.Pairwise fun a b => b.interrupted → ok a

/-- All interrupts in progress call operations of a certain kind only. -/
def Confined (allowed : Op → Bool) (stack : List Frame) : Prop :=
  ∀ f ∈ stack, ∀ body ∈ f.act.bodies, body.all allowed

instance (allowed : Op → Bool) (stack : List Frame) : Decidable (Confined allowed stack) :=
  inferInstanceAs (Decidable (∀ f ∈ stack, ∀ body ∈ f.act.bodies, body.all allowed))

/-- A step brings no interrupts but those of the call on the board in which it ends. -/
theorem Leads.uninterrupted {w : World} {δ : Device} {act : Act} {s : Stride} (l : Leads w δ act s)
    (no : act.interrupted = false) : ∀ a ∈ s.acts, a.interrupted = false := by
  cases l with
  | interruptsEnd | interruptsNext => cases no
  | _ => simp [Act.interrupted]

section Guarded

variable {allowed : Op → Bool} {ok : Act → Bool} {w : World} {δ : Device} {act : Act} {s : Stride} {rest : List Act}

/-- Acts that come in place of one of the kind are of the kind. -/
theorem Tame.frames (t : Tame allowed ok) (l : Leads w δ act s) (h : ok act)
    (confined : ∀ body ∈ act.bodies, body.all allowed) :
    ∀ a ∈ s.frames, ok a := by
  cases no : act.interrupted with
  | true =>
    cases l with
    | interruptsEnd => simp [Stride.frames]
    | @interruptsNext call body bodies =>
      have own := confined body List.mem_cons_self
      simp only [Stride.frames, List.forall_mem_cons]
      exact ⟨by rw [t.block]; exact own, t.interrupts _ _, by simp⟩
    | _ => cases no
  | false =>
    have kind := t.leads l h no
    intro a m
    unfold Stride.frames at m
    split at m
    · exact kind a m
    · rcases List.mem_cons.1 m with rfl | m
      · exact t.interrupts _ _
      · exact kind a m

/-- A step under interrupts that keep to the allowed operations leaves only what these come to. -/
theorem Tame.guarded_frames (t : Tame allowed ok) (l : Leads w δ act s)
    (confined : ∀ body ∈ act.bodies, body.all allowed) :
    Guarded ok s.frames := by
  have none : ∀ {acts : List Act}, (∀ a ∈ acts, a.interrupted = false) → Guarded ok acts := by
    intro acts h
    refine List.Pairwise.imp_of_mem (fun _ mb _ inter => ?_)
      (List.pairwise_of_forall (R := fun _ _ => True) fun _ _ => trivial)
    rw [h _ mb] at inter
    cases inter
  cases no : act.interrupted with
  | true =>
    cases l with
    | interruptsEnd => exact List.Pairwise.nil
    | @interruptsNext call body bodies =>
      have own := confined body List.mem_cons_self
      have block : ok (.block Option.none body) = true := by rw [t.block]; exact own
      refine List.Pairwise.cons (fun b m _ => ?_) (List.pairwise_singleton _ _)
      exact block
    | _ => cases no
  | false =>
    have plain := l.uninterrupted no
    unfold Stride.frames
    split
    · exact none plain
    · refine List.Pairwise.cons (fun b m inter => ?_) (none plain)
      rw [plain b m] at inter
      cases inter

end Guarded

namespace Machine

/-- The frames above interrupts are of a certain kind. -/
def Guarded (ok : Act → Bool) (stack : List Frame) : Prop := TimedTasks.Guarded ok (stack.map (·.act))

variable {allowed : Op → Bool} {ok : Act → Bool} {m m' : Machine}

/-- So does every turn of a machine, above its frames of interrupts. -/
theorem Turn.guarded (turn : m.Turn m') (t : Tame allowed ok) (confined : Confined allowed m.stack)
    (h : Guarded ok m.stack) : Guarded ok m'.stack := by
  have below : ∀ {f : Frame} {rest : List Frame}, Guarded ok (f :: rest) → Guarded ok rest := fun h => h.tail
  cases turn with
  | works d act rest δ s top _ l takes =>
    rw [top] at h confined
    have own := confined ⟨d, act⟩ List.mem_cons_self
    rw [takes.stack, Guarded, List.map_append, List.map_map]
    refine List.pairwise_append.2 ⟨?_, h.tail, fun a ma b mb inter => ?_⟩
    · simpa [Function.comp_def, TimedTasks.Guarded] using t.guarded_frames l own
    · have kind := (List.pairwise_cons.1 h).1 b mb inter
      exact t.frames l kind own a (by simpa [Function.comp_def] using ma)
  | delivers d e ms act rest δ s top _ l takes =>
    rw [top] at h
    rw [takes.stack, Guarded, List.map_append, List.map_map]
    have asked : ok act = false := t.round act (by cases l <;> first | exact .inl rfl | exact .inr rfl)
    have free : ∀ b ∈ rest.map (·.act), b.interrupted = false := by
      intro b mb
      by_contra inter
      have kind := (List.pairwise_cons.1 h.tail).1 b mb (by simpa using inter)
      rw [asked] at kind
      cases kind
    refine List.pairwise_append.2 ⟨?_, h.tail.tail, fun a _ b mb inter => ?_⟩
    · cases l <;> simp [Stride.frames, Function.comp_def, Act.interrupted]
    · rw [free b mb] at inter
      cases inter
  | redirects d e self op rest top _ top' =>
    rw [top] at h
    rw [top']
    refine List.Pairwise.cons (fun b mb inter => ?_) h.tail
    have kind := (List.pairwise_cons.1 h).1 b mb inter
    change ok (.perform self (.on e op)) at kind
    show ok (.perform self op)
    rwa [t.perform, t.handsOn, ← t.perform self] at kind
  | answers d e a act rest top _ _ top' => rw [top']; rw [top] at h; exact h.tail.tail
  | finishes d a top _ top' => rw [top']; exact List.Pairwise.nil
  | calls d op top _ top' => rw [top']; exact List.pairwise_singleton _ _

end Machine

namespace Moment

variable {P : Moment → Prop} {s : Setup} {y : Moment} {d : Nat} {v : View} {allowed : Op → Bool} {ok : Act → Bool}

/-- In a run whose interrupts keep to operations of a kind, each device has only what these come to above them. -/
theorem guarded (r : Run P (initial s) y) (t : Tame allowed ok)
    (confined : ∀ z, P z → Confined allowed z.machine.stack) (h : y.view d = some v) : Guarded ok v.acts := by
  have machine : Machine.Guarded ok y.machine.stack :=
    r.invariant (I := fun y => Machine.Guarded ok y.machine.stack) List.Pairwise.nil
      fun x z g p next _ => next.machine.turn.guarded t (confined x p) g
  rw [(view_eq_some h).2.1]
  refine List.Pairwise.filterMap _ (fun f g imp a ha b hb => ?_) (List.pairwise_map.1 machine)
  unfold Frame.actOn at ha hb
  split at ha <;> cases ha
  split at hb <;> cases hb
  exact imp

end Moment

namespace Column

variable {allowed : Op → Bool} {ok : Act → Bool} {a b : Act} {rest : List Act}

/-- Right above an act that goes on after a call on the board are the interrupts of that call. -/
theorem interrupted_of_resumes (h : a.Sits b) (r : b.resumes) : a.interrupted := by
  cases a with
  | interrupts => rfl
  | reading r' => cases r' <;> cases b <;> simp_all [Act.Sits, Act.resumes, Act.takesAnswer, Act.walks]
  | locked s => cases s <;> cases b <;> simp_all [Act.Sits, Act.resumes, Act.takesAnswer]
  | _ => cases b <;> simp_all [Act.Sits, Act.resumes, Act.takesAnswer, Act.loops, Act.walks]

/-- Below an act that interrupts cannot bring, nothing waits for the interrupts of a call on the board. -/
theorem unresumed (h : Column (a :: rest)) (t : Tame allowed ok) (g : Guarded ok (a :: rest)) (major : ok a = false) :
    ∀ b ∈ rest, b.resumes = false := by
  intro b m
  by_contra r
  have r : b.resumes = true := by simpa using r
  suffices inter : ∃ i ∈ rest, i.interrupted = true by
    obtain ⟨i, mi, inter⟩ := inter
    have kind := (List.pairwise_cons.1 g).1 i mi inter
    rw [major] at kind
    cases kind
  have notSelf : a.interrupted = false := by
    cases a <;> first | rfl | (rw [t.interrupts] at major; cases major)
  clear g major
  induction rest generalizing a with
  | nil => cases m
  | cons c rest ih =>
    rcases List.mem_cons.1 m with rfl | m
    · have inter := interrupted_of_resumes h.1 r
      rw [notSelf] at inter
      cases inter
    · cases inter : c.interrupted with
      | true => exact ⟨c, List.mem_cons_self, inter⟩
      | false =>
        obtain ⟨i, mi, hi⟩ := ih h.2 m inter
        exact ⟨i, List.mem_cons_of_mem _ mi, hi⟩

end Column

end TimedTasks
