import TimedTasks.Proofs.Record
import TimedTasks.Proofs.Stop

/-!
# What a restart is good for

A start or an update of a task that does not run makes it wait for its whole interval, counted from the clock reading of
the restart. `Awaits` is what keeps it so: of the frames in progress none is about to stamp the task anew or to run it,
and those that look at its interval look at the new one.

There are looks for which a restart comes too late. A round reads the interval of a task, then the clock, and an
interrupt of that reading may restart the task in between. The look goes by the interval that it was made for: when that
one is over, the round runs the task, whose new interval has just begun. A renewal that waits for its reading of the
clock does the same, as it does with a stop.
-/

namespace TimedTasks

namespace Act

/-- The act is about to stamp task `i`, to run it or to end its dispatch. -/
def moves (i : Nat) : Act → Bool
  | reading (.start j _) | reading (.renew j) | dispatch j | locked (.fetch j) | settle j => j = i
  | _ => false

/-- The interval that the act compares with the clock, if it is a look of a round at task `i`. -/
def looksAt (i : Nat) : Act → Option Interval
  | reading (.cached j timing) | reading (.due j timing) => if j = i then some timing else none
  | _ => none

/-- Someone decides about task `i`: it is started, updated or stopped, or its configuration takes effect, or a session
begins or ends. -/
def commands (i : Nat) : Act → Bool
  | perform self (.start task) | perform self (.update task _) | perform self (.stop task) => task.resolve self = .ok i
  | locked (.configure j ..) => j = i
  | act => act.resets

/-- The act does not move task `i`, and if it looks at the task, then at interval `t`. -/
def Heeds (i : Nat) (t : Interval) (act : Act) : Prop :=
  act.moves i = false ∧ ∀ o, act.looksAt i = some o → o = t

@[simp] theorem heeds_interrupts {call : BoardCall} {bodies : List (List Op)} {i : Nat} {t : Interval} :
    (interrupts call bodies).Heeds i t := ⟨rfl, fun _ look => nomatch look⟩

theorem looksAt_of_asks {r : Reading} {i : Nat} (h : r.asks) : (reading r).looksAt i = none := by
  cases r <;> first | rfl | cases h

theorem heeds_of_asks {r : Reading} {i : Nat} {t : Interval} (h : r.asks) : (reading r).Heeds i t := by
  refine ⟨?_, fun o look => ?_⟩
  · cases r <;> first | rfl | cases h
  · rw [looksAt_of_asks h] at look
    cases look

theorem heeds_of_op {σ : Scheduler} {self : Option Nat} {op : Op} {s : Section} {i : Nat} {t : Interval}
    (h : op.Asks σ self s) : (locked s).Heeds i t := by
  cases h <;> exact ⟨rfl, fun _ look => nomatch look⟩

end Act

/-- Task `i` waits for `t`. Nothing in progress is about to change that, and no look at the task is at another interval,
except for those of a list. -/
structure Awaits (i : Nat) (t : Interval) (stale : List Act) (σ : Scheduler) (acts : List Act) : Prop where
  state : (σ.life i).state = .active
  timing : (σ.life i).timing = t
  still : ∀ a ∈ acts, a.moves i = false
  looks : ∀ a ∈ acts, ∀ o, a.looksAt i = some o → o = t ∨ a ∈ stale

/-- Without a command about task `i` and without an act that moves it, a step leaves its life alone. -/
theorem Lives.unmoved {σ : Scheduler} {now : UInt32} {act : Act} {life : Nat → Life} {i : Nat} (l : Lives σ now act life)
    (free : act.commands i = false) (still : act.moves i = false) : life i = σ.life i := by
  have other : ∀ {j : Nat} {ℓ : Life}, j ≠ i → Function.update σ.life j ℓ i = σ.life i :=
    fun ne => Function.update_of_ne (Ne.symm ne) _ _
  cases l with
  | same => rfl
  | relength ref | stop ref =>
    refine other ?_
    rintro rfl
    simp [Act.commands, ref] at free
  | configure =>
    refine other ?_
    rintro rfl
    simp [Act.commands] at free
  | stamp | renew | dispatch | settle =>
    refine other ?_
    rintro rfl
    simp [Act.moves] at still
  | dismiss which => rcases which with rfl | rfl <;> cases free

/-- A start that has its clock reading stamps its task, and goes on to tell the cache. -/
theorem Leads.stamped {w : World} {δ : Device} {s : Stride} {i : Nat} {next : TaskState}
    (l : Leads w δ (.reading (.start i next)) s) : ∃ σ, δ.scheduler.start i next δ.board.clock = .ok σ ∧
      s = ⟨σ, δ.board.readClock.2, some .lock, [.locked (.noteArmed i δ.board.clock)]⟩ := by
  cases l with
  | stamp st => exact ⟨_, st, rfl⟩
  | asked asks => cases asks
  | told asks => cases asks

namespace Awaits

variable {i : Nat} {t : Interval} {stale : List Act} {σ σ' : Scheduler} {w : World} {δ : Device} {s : Stride} {act : Act}
  {acts rest : List Act}

/-- No step brings an act that moves the task, or a look at another interval, before a look finds its own over. -/
theorem frames (h : Awaits i t stale δ.scheduler (act :: rest)) (l : Leads w δ act s) (free : act.commands i = false)
    (unseen : ∀ o, act.looksAt i = some o → o.expired δ.board.clock = false) :
    (∀ a ∈ s.frames, a.Heeds i t) ∧ s.invoked ≠ some i := by
  have still : act.moves i = false := h.still act List.mem_cons_self
  have early : ∀ {j : Nat} {o : Interval}, (j = i → act.looksAt i = some o) → o.expired δ.board.clock = true → j ≠ i := by
    intro j o look expired same
    rw [unseen o (look same)] at expired
    cases expired
  have current : ∀ {j : Nat} {u : Task}, δ.scheduler.arena.slot j = .ok u → j = i → u.timing = t := by
    rintro j u found rfl
    rw [← h.timing, Scheduler.life, Arena.life_of_slot found]
    rfl
  cases l with
  | @start _ _ j _ ref | @update _ _ _ j _ _ ref =>
    have other : j ≠ i := by
      rintro rfl
      simp [Act.commands, ref] at free
    exact ⟨by simp [Stride.frames, Act.Heeds, Act.moves, Act.looksAt, other], by simp [Stride.invoked]⟩
  | ask ask => exact ⟨by simp [Stride.frames, Act.heeds_of_op ask], by simp [Stride.invoked]⟩
  | asked _ r | lengthAsked r => exact ⟨by simp [Stride.frames, Act.heeds_of_asks r], by simp [Stride.invoked]⟩
  | @dueFirst j o expired =>
    have other : j ≠ i := early (fun same => if_pos same) ((Interval.remaining_eq_zero_iff _ _).1 expired)
    exact ⟨by simp [Stride.frames, Act.Heeds, Act.moves, Act.looksAt, other], by simp [Stride.invoked]⟩
  | @due j o expired =>
    have other : j ≠ i := early (fun same => if_pos same) expired
    exact ⟨by simp [Stride.frames, Act.Heeds, Act.moves, Act.looksAt, other], by simp [Stride.invoked]⟩
  | remembered _ found | looked _ found =>
    have same := current found
    exact ⟨by simp_all [Stride.frames, Act.Heeds, Act.moves, Act.looksAt], by simp [Stride.invoked]⟩
  | @renew j | @renewing j | @dispatched j =>
    have other : j ≠ i := by simpa [Act.moves] using still
    exact ⟨by simp [Stride.frames, Act.Heeds, Act.moves, Act.looksAt, other], by simp [Stride.invoked]⟩
  | @fetched j =>
    have other : j ≠ i := by simpa [Act.moves] using still
    exact ⟨by simp [Stride.frames, Act.Heeds, Act.moves, Act.looksAt], by simpa [Stride.invoked] using other⟩
  | _ => exact ⟨by simp [Stride.frames, Act.Heeds, Act.moves, Act.looksAt], by simp [Stride.invoked]⟩

theorem tail (h : Awaits i t stale σ (act :: rest)) : Awaits i t stale σ rest :=
  ⟨h.state, h.timing, fun a m => h.still a (List.mem_cons_of_mem _ m), fun a m => h.looks a (List.mem_cons_of_mem _ m)⟩

/-- Acts that neither move the task nor look at it wrongly come on top. -/
theorem push (h : Awaits i t stale σ rest) (life : σ'.life i = σ.life i) (new : ∀ a ∈ acts, a.Heeds i t) :
    Awaits i t stale σ' (acts ++ rest) := by
  refine ⟨by rw [life]; exact h.state, by rw [life]; exact h.timing, fun a m => ?_, fun a m o look => ?_⟩
  · rcases List.mem_append.1 m with m | m
    · exact (new a m).1
    · exact h.still a m
  · rcases List.mem_append.1 m with m | m
    · exact .inl ((new a m).2 o look)
    · exact h.looks a m o look

/-- A step that no one commands keeps the task waiting, as long as no look finds its own interval over. -/
theorem leads (h : Awaits i t stale δ.scheduler (act :: rest)) (l : Leads w δ act s) (free : act.commands i = false)
    (unseen : ∀ o, act.looksAt i = some o → o.expired δ.board.clock = false) :
    Awaits i t stale s.scheduler (s.frames ++ rest) ∧ s.invoked ≠ some i := by
  obtain ⟨new, quiet⟩ := h.frames l free unseen
  exact ⟨h.tail.push (l.lives.unmoved free (h.still act List.mem_cons_self)) new, quiet⟩

theorem delivers {ms : Option UInt32} (h : Awaits i t stale δ.scheduler (.deadline ms :: act :: rest))
    (l : Delivers δ ms act s) : Awaits i t stale s.scheduler (s.frames ++ rest) := by
  have below := h.tail.tail
  cases l <;> exact below.push rfl (by simp [Stride.frames, Act.Heeds, Act.moves, Act.looksAt])

end Awaits

namespace View

variable {v v' : View} {i : Nat} {t : Interval} {stale : List Act} {fired : List Nat}

/-- Task `i` waits for `t`, and its handler ran at the times of a list. -/
def Awaits (v : View) (i : Nat) (t : Interval) (stale : List Act) (fired : List Nat) : Prop :=
  TimedTasks.Awaits i t stale v.scheduler v.acts ∧ v.past.fired i = fired

/-- Someone decides about task `i`. -/
def Commands (v : View) (i : Nat) : Prop := ∃ act ∈ v.acts.head?, act.commands i

instance (v : View) (i : Nat) : Decidable (v.Commands i) :=
  inferInstanceAs (Decidable (∃ act ∈ v.acts.head?, act.commands i))

/-- A round reads the clock for a look at task `i`, and interval `o`, which the look is at, is over. -/
def Sees (v : View) (i : Nat) (o : Interval) : Prop :=
  ∃ act ∈ v.acts.head?, act.looksAt i = some o ∧ o.expired v.clock

/-- The look is one of a list: it was in progress before its task was restarted. -/
def SeesStale (v : View) (i : Nat) (stale : List Act) : Prop :=
  ∃ act ∈ v.acts.head?, act ∈ stale ∧ ∃ o, act.looksAt i = some o ∧ o.expired v.clock

/-- The interval of task `i` if it is stamped now. -/
def restarted (v : View) (i : Nat) : Interval := ⟨v.clock, (v.scheduler.life i).timing.length⟩

theorem Awaits.turn (h : v.Awaits i t stale fired) (free : ¬v.Commands i) (unseen : ∀ o, ¬v.Sees i o) (t' : Turn v v') :
    v'.Awaits i t stale fired := by
  obtain ⟨awaits, ran⟩ := h
  cases t' with
  | @works w act s _ rest acts l =>
    rw [acts] at awaits
    have top : act ∈ v.acts.head? := by simp [acts]
    obtain ⟨awaits, quiet⟩ := awaits.leads l (Bool.eq_false_iff.2 fun c => free ⟨act, top, c⟩)
      fun o look => Bool.eq_false_iff.2 fun expired => unseen o ⟨act, top, look, expired⟩
    exact ⟨by simpa [take, scheduler] using awaits, by simp [take, Chronicle.after, quiet, ran]⟩
  | delivers acts l =>
    rw [acts] at awaits
    exact ⟨by simpa [take, scheduler] using awaits.delivers l, ran⟩

theorem Awaits.shift (h : v.Awaits i t stale fired) (t' : Shift v v') : v'.Awaits i t stale fired := by
  obtain ⟨awaits, ran⟩ := h
  cases t' with
  | drops acts _ =>
    rw [acts] at awaits
    exact ⟨awaits.tail, ran⟩
  | arrives self op =>
    have pushed : TimedTasks.Awaits i t stale v.scheduler ([.perform self op] ++ v.acts) :=
      awaits.push rfl (by simp [Act.Heeds, Act.moves, Act.looksAt])
    exact ⟨pushed, ran⟩

end View

namespace Moment

variable {P : Moment → Prop} {s : Setup} {x x₁ y z : Moment} {d i : Nat} {v v₁ v' : View} {t : Interval}
  {next : TaskState} {stale rest : List Act} {fired : List Nat}

/-- Between two moments, device `d` made a reading of the clock that a condition holds of. -/
def Reads (d : Nat) (p : View → Prop) (x y : Moment) : Prop :=
  ∃ z z' u r, Run (fun _ => True) x z ∧ z.Next z' ∧ Run (fun _ => True) z' y ∧ z.view d = some u ∧
    u.acts.head? = some (.reading r) ∧ p u

theorem Reads.more {p : View → Prop} (h : Reads d p x y) (next : y.Next z) : Reads d p x z := by
  obtain ⟨w, w', u, r, before, made, after, shown⟩ := h
  exact ⟨w, w', u, r, before, made, after.more next trivial, shown⟩

/-- A task that waits goes on waiting until a reading of the clock by which its interval is over, or until a look at the
interval before finds that one over. -/
theorem awaits_or_reads (r : Run (fun z => ∀ u, z.view d = some u → ¬u.Commands i) x y)
    (stacked : Stacked x.machine.stack) (first : ∀ u, x.view d = some u → u.Awaits i t stale fired) :
    (∀ u, y.view d = some u → u.Awaits i t stale fired) ∨ Reads d (fun u => t.expired u.clock) x y ∨
      Reads d (fun u => u.SeesStale i stale) x y := by
  induction r with
  | here => exact .inl first
  | @more y z r next _ ih =>
    have free := r.last
    have known := r.mono (Q := fun _ => True) fun _ _ => trivial
    have stackedY : Stacked y.machine.stack :=
      r.invariant (I := fun z => Stacked z.machine.stack) stacked fun _ _ h _ n _ => n.machine.turn.stacked h
    rcases ih with waits | read | read
    · by_cases seen : ∃ u o, y.view d = some u ∧ u.Sees i o
      · obtain ⟨u, o, hu, act, top, look, expired⟩ := seen
        have mem : act ∈ u.acts := List.mem_of_mem_head? top
        obtain ⟨q, rfl⟩ : ∃ q, act = .reading q := by
          cases act <;> first | exact ⟨_, rfl⟩ | cases look
        refine .inr ?_
        rcases (waits u hu).1.looks _ mem o look with rfl | stale
        · exact .inl ⟨y, z, u, q, known, next, .here trivial, hu, top, expired⟩
        · exact .inr ⟨y, z, u, q, known, next, .here trivial, hu, top, _, top, stale, o, look, expired⟩
      · refine .inl fun u' hu' => ?_
        obtain ⟨u, hu, later⟩ := next.view_later stackedY hu'
        have now := waits u hu
        rcases later with turned | shifted
        · exact now.turn (free u hu) (fun o sees => seen ⟨u, o, hu, sees⟩) turned
        · clear hu'
          induction shifted with
          | refl => exact now
          | tail _ step ih => exact ih.shift step
    · exact .inr (.inl (read.more next))
    · exact .inr (.inr (read.more next))

/-- A restart makes a task wait for its whole interval, if the task is neither dispatched nor about to be renewed. -/
theorem awaits_of_stamp (sound : v.Sound) (stacked : Stacked x.machine.stack) (hx : x.view d = some v)
    (call : v.acts = .reading (.start i next) :: rest) (alone : ∀ n, .reading (.start i n) ∉ rest)
    (idle : .settle i ∉ rest) (noRenewal : .reading (.renew i) ∉ rest) (first : x.Next x₁) (h₁ : x₁.view d = some v₁) :
    v₁.Awaits i (v.restarted i) rest (v.past.fired i) := by
  obtain ⟨w, s, l, rfl⟩ := first.leads stacked hx h₁ call rfl
  obtain ⟨σ, st, rfl⟩ := l.stamped
  rw [View.Sound, call] at sound
  have life : σ.life i = (v.scheduler.life i).start next v.clock := by
    rw [(Scheduler.start_changes st).life, Function.update_self]
    rfl
  have still : ∀ a ∈ rest, a.moves i = false := by
    intro a m
    by_contra moves
    cases a with
    | reading q =>
      cases q <;> simp only [Act.moves, decide_eq_false_iff_not, not_not, not_true_eq_false] at moves
      · subst moves; exact alone _ m
      · subst moves; exact noRenewal m
    | locked q =>
      cases q <;> simp only [Act.moves, decide_eq_false_iff_not, not_not, not_true_eq_false] at moves
      subst moves
      exact idle (sound.column.tail.settle_of_fetch m)
    | dispatch j => exact sound.column.no_dispatch j m
    | settle j =>
      simp only [Act.moves, decide_eq_false_iff_not, not_not] at moves
      subst moves
      exact idle m
    | _ => simp [Act.moves] at moves
  have below : Awaits i (v.restarted i) rest σ rest :=
    ⟨by rw [life]; exact sound.layered.1.2 idle, by rw [life]; rfl, still, fun a m _ _ => .inr m⟩
  have pushed : Awaits i (v.restarted i) rest σ (Stride.frames ⟨σ, v.device.board.readClock.2, some .lock,
      [.locked (.noteArmed i v.device.board.clock)]⟩ ++ rest) :=
    below.push rfl (by simp [Stride.frames, Act.Heeds, Act.moves, Act.looksAt])
  exact ⟨by simpa [View.take, View.scheduler] using pushed, by simp [View.take, Chronicle.after, Stride.invoked]⟩

/-- A look that finds its interval over leads to a dispatch, whatever became of the task since the look began. -/
theorem dispatch_of_look {act : Act} {o : Interval} (stacked : Stacked y.machine.stack) (hy : y.view d = some v)
    (top : v.acts = act :: rest) (look : act.looksAt i = some o) (expired : o.expired v.clock) (next : y.Next z)
    (hz : z.view d = some v') : v'.acts.head? = some (.dispatch i) := by
  have found : ∀ {j : Nat} {timing : Interval}, (if j = i then some timing else none) = some o → j = i ∧ timing = o := by
    intro j timing same
    split at same
    · exact ⟨‹_›, Option.some.inj same⟩
    · cases same
  have works : act.works = true := by cases act <;> first | rfl | cases look
  obtain ⟨w, s, l, rfl⟩ := next.leads stacked hy hz top works
  cases l with
  | due | dueFirst =>
    obtain ⟨rfl, rfl⟩ := found look
    rfl
  | notDue early =>
    obtain ⟨rfl, rfl⟩ := found look
    rw [View.clock, early] at expired
    cases expired
  | wait left | retarget left =>
    obtain ⟨rfl, rfl⟩ := found look
    rw [View.clock, ← Interval.remaining_eq_zero_iff] at expired
    rw [expired] at left
    cases left
  | asked asks | told asks =>
    rw [Act.looksAt_of_asks asks] at look
    cases look
  | _ => cases look

/-- A restart of a task that is not dispatched holds, until someone decides anew about the task: the task stays `active`
with its new interval, and its handler is not invoked, before a reading of the clock by which that interval is over. The
exceptions are the looks and the renewals of rounds that wait for their readings of the clock when the restart is made.
Such a look, when its own interval is over, has the task dispatched all the same, and such a renewal makes it
`executing`. -/
theorem restart_holds_unless_seen (r : Run P (initial s) x) (hx : x.view d = some v)
    (call : v.acts = .reading (.start i next) :: rest) (alone : ∀ n, .reading (.start i n) ∉ rest)
    (idle : .settle i ∉ rest) (first : x.Next x₁)
    (r₁ : Run (fun z => ∀ u, z.view d = some u → ¬u.Commands i) x₁ y) (hy : y.view d = some v') :
    (.reading (.renew i) ∉ rest →
      ((v'.scheduler.life i).state = .active ∧ (v'.scheduler.life i).timing = v.restarted i ∧
        y.machine.world.invocations d i = x.machine.world.invocations d i) ∨
      Reads d (fun u => (v.restarted i).expired u.clock) x₁ y ∨ Reads d (fun u => u.SeesStale i rest) x₁ y) ∧
    (∀ z v₂ act o below, v'.acts = act :: below → act.looksAt i = some o → o.expired v'.clock → y.Next z →
      z.view d = some v₂ → v₂.acts.head? = some (.dispatch i)) ∧
    ∀ z v₂ below, y.machine.stack = ⟨d, .reading (.renew i)⟩ :: below → y.Next z → z.view d = some v₂ →
      (v₂.scheduler.life i).state = .executing := by
  have stacked := stacked_of_run r
  have whole : Run (fun _ => True) (initial s) y :=
    ((r.mono fun _ _ => trivial).more first trivial).trans (r₁.mono fun _ _ => trivial)
  refine ⟨fun noRenewal => ?_, fun z v₂ act o below top look expired last h₂ => ?_,
    fun z v₂ below top last h₂ => executing_of_renewal top last h₂⟩
  swap
  · exact dispatch_of_look (stacked_of_run whole) hy top look expired last h₂
  have begins : ∀ u, x₁.view d = some u → u.Awaits i (v.restarted i) rest (v.past.fired i) := fun u hu =>
    awaits_of_stamp (sound r hx) stacked hx call alone idle noRenewal first hu
  refine (awaits_or_reads r₁ (first.machine.turn.stacked stacked) begins).imp (fun waits => ?_) id
  obtain ⟨awaits, ran⟩ := waits v' hy
  refine ⟨awaits.state, awaits.timing, ?_⟩
  rw [← length_fired whole, ← length_fired r, ← (view_eq_some hy).2.2, ← (view_eq_some hx).2.2, ran]

/-- A session with one task that runs once after ten milliseconds, and a round at whose first clock reading, `ms` after
the start, an interrupt starts the task again. -/
def restartAt (ms : UInt32) : List (Nat × Op) :=
  [(0, .declare), (0, .init), (0, .configure (.slot 0) 0 10 false), (0, .start (.slot 0)), (0, .advance ms),
    (0, .hook .now 0 [.start (.slot 0)]), (0, .tick)]

/-- What is in progress when an interrupt starts a task again that a round looks at. -/
def restartInRound : List Act :=
  [.report "start", .block none [], .interrupts .now [], .reading (.due 0 ⟨0, 10⟩), .walking none none, .round, .ticking]

/-- An interrupt starts the task again while a round looks at the clock for it. Its interval is not over by then, and it
waits for the new one. -/
theorem restart_holds_in_round : ∃ (x x₁ y : Moment) (v v' : View), x.view 0 = some v ∧ x.Next x₁ ∧
    v.acts = .reading (.start 0 .active) :: restartInRound ∧ y.view 0 = some v' ∧ v'.acts = [] ∧
    ((v'.scheduler.life 0).state = .active ∧ (v'.scheduler.life 0).timing = v.restarted 0 ∧
        y.machine.world.invocations 0 0 = x.machine.world.invocations 0 0 ∨
      Reads 0 (fun u => (v.restarted 0).expired u.clock) x₁ y ∨ Reads 0 (fun u => u.SeesStale 0 restartInRound) x₁ y) := by
  let at' := fun n => ((initial oneSlot).steps n (restartAt 5)).1
  have called : ((at' 39).view 0).map (·.acts) = some (.reading (.start 0 .active) :: restartInRound) := by rfl
  have ended : ((at' 54).view 0).map (·.acts) = some [] := by rfl
  obtain ⟨v, hv, acts⟩ := Option.map_eq_some_iff.1 called
  obtain ⟨v', hv', idle⟩ := Option.map_eq_some_iff.1 ended
  have before : Run (fun _ => True) (initial oneSlot) (at' 39) := run_steps (by decide +kernel)
  have stamped : (at' 39).Next (at' 40) := next_steps (by decide +kernel)
  have later : Run (fun z => ∀ u, z.view 0 = some u → ¬u.Commands 0) (at' 40) (at' (40 + 14)) :=
    run_steps_add (P := fun z => ∀ u ∈ z.view 0, ¬u.Commands 0) (by decide +kernel) (by decide +kernel)
  have holds := (restart_holds_unless_seen before hv acts (by simp [restartInRound]) (by simp [restartInRound]) stamped
    later hv').1 (by simp [restartInRound])
  exact ⟨_, _, _, v, v', hv, stamped, acts, hv', idle, holds⟩

/-- An interrupt starts the task again while a round looks at the clock for it. Its interval is over by then, so the
handler is invoked at once and the task is left `stopped`: at no later reading of the clock was its new interval over. -/
theorem restart_lost_of_look : ∃ (x x₁ y : Moment) (v v' : View),
    Run (fun z => Confined Op.calm z.machine.stack) (initial oneSlot) x ∧ x.view 0 = some v ∧
    v.acts = .reading (.start 0 .active) :: restartInRound ∧ x.Next x₁ ∧
    Run (fun z => Confined Op.calm z.machine.stack ∧ ∀ u ∈ z.view 0, ¬u.Commands 0 ∧
      (v.restarted 0).expired u.clock = false) x₁ y ∧ y.view 0 = some v' ∧ v'.acts = [] ∧
    (v'.scheduler.life 0).state = .stopped ∧
    y.machine.world.invocations 0 0 = x.machine.world.invocations 0 0 + 1 := by
  let at' := fun n => ((initial oneSlot).steps n (restartAt 10)).1
  have called : ((at' 39).view 0).map (·.acts) = some (.reading (.start 0 .active) :: restartInRound) := by rfl
  have stamped : ((at' 39).view 0).map (·.restarted 0) = some ⟨10, 10⟩ := by decide +kernel
  have ended : ((at' 60).view 0).map (·.acts) = some [] := by rfl
  have after : ((at' 60).view 0).map (fun v => (v.scheduler.life 0).state) = some .stopped := by decide +kernel
  obtain ⟨v, hv, acts⟩ := Option.map_eq_some_iff.1 called
  obtain ⟨v', hv', idle⟩ := Option.map_eq_some_iff.1 ended
  rw [hv, Option.map_some, Option.some.injEq] at stamped
  rw [hv', Option.map_some, Option.some.injEq] at after
  have before : Run (fun z => Confined Op.calm z.machine.stack) (initial oneSlot) (at' 39) := run_steps (by decide +kernel)
  have later : Run (fun z => Confined Op.calm z.machine.stack ∧ ∀ u ∈ z.view 0, ¬u.Commands 0 ∧
      (⟨10, 10⟩ : Interval).expired u.clock = false) (at' 40) (at' (40 + 20)) :=
    run_steps_add (by decide +kernel) (by decide +kernel)
  exact ⟨_, _, _, v, v', before, hv, acts, next_steps (by decide +kernel), stamped ▸ later, hv', idle, after,
    by decide +kernel⟩

end Moment

end TimedTasks
