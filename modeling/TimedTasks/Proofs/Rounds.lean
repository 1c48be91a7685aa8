import TimedTasks.Proofs.Steady

/-!
# Rounds leave no task behind

Each step of a run of rounds keeps what the scheduler relies on (`View.Steady.turn`). The step of a round that works on
its tasks is a `Steps`; each part of `View.Steady` has a lemma about it.

The argument is about where a task is whose time has come. The scan, or the look at the remembered task, finds none
that is in no one's hands (`Steps.covered_frames`). A task leaves the hands of the round when it turns out that it has time
left, or when it is dispatched, and then it waits no more or waits for a time to come (`Steps.covered_below`).
-/

namespace TimedTasks

namespace Chronicle

variable {past : Chronicle} {clock : UInt32} {act : Act} {s : Stride} {σ : Scheduler} {i : Nat}

theorem time_after_eq (h : s.board.clock = clock) : (past.after clock act s).time = past.time := by
  simp [after, h]

/-- A step that neither takes time nor touches the task does not make it ripe. -/
theorem ripe_after (life : s.scheduler.life i = σ.life i) (stamps : act.stamps ≠ some i) (h : s.board.clock = clock) :
    (past.after clock act s).Ripe s.scheduler i ↔ past.Ripe σ i := by
  have stamp : (past.after clock act s).stamp i = past.stamp i := if_neg stamps
  rw [Ripe, Ripe, due, due, time_after_eq h, stamp, life, waits_of_eq life]

/-- A task whose time has come is not put off as time goes by. -/
theorem Ripe.after (h : past.Ripe σ i) (life : s.scheduler.life i = σ.life i) (stamps : act.stamps ≠ some i) :
    (past.after clock act s).Ripe s.scheduler i := by
  have stamp : (past.after clock act s).stamp i = past.stamp i := if_neg stamps
  refine ⟨(waits_of_eq life).2 h.1, ?_⟩
  rw [due, stamp, life]
  exact Nat.le_trans h.2 (Nat.le_add_right _ _)

end Chronicle

/-- A task is due later after it was stamped, and not before its interval in progress is over otherwise. -/
theorem Lives.onTime {σ : Scheduler} {past : Chronicle} {now : UInt32} {act : Act} {acts : List Act} {life : Nat → Life}
    (l : Lives σ now act life) (kind : act.steady) (ends : ∀ op ∈ act.orders, op.ends)
    (repeating : ∀ i, act = .reading (.renew i) → (σ.life i).repeats = true) (h : OnTime σ past acts) (i : Nat) :
    ((life i).state = .active →
      past.time ≤ (if act.stamps = some i then past.time else past.stamp i) + (life i).timing.length.toNat) ∧
    ((life i).state = .executing →
      (if act.stamps = some i then past.time else past.stamp i) = past.time ∧ (life i).repeats = true) := by
  have old : (σ.life i).state = .active → past.time ≤ past.stamp i + (σ.life i).timing.length.toNat := h.punctual i
  cases l with
  | same none => rw [none]; exact ⟨old, h.executing i⟩
  | @renew j =>
    by_cases e : i = j
    · subst e
      rw [Function.update_self]
      exact ⟨(fun active => nomatch active), fun _ => ⟨if_pos rfl, repeating i rfl⟩⟩
    · have other : (Act.reading (.renew j)).stamps ≠ some i := fun same => e (Option.some.inj same).symm
      rw [Function.update_of_ne e, if_neg other]
      exact ⟨old, h.executing i⟩
  | @dispatch j =>
    by_cases e : i = j
    · subst e
      rw [Function.update_self]
      exact ⟨(fun active => nomatch active), fun executing => nomatch executing⟩
    · rw [Function.update_of_ne e]
      exact ⟨old, h.executing i⟩
  | @settle j =>
    by_cases e : i = j
    · subst e
      rw [Function.update_self]
      have executing := h.executing i
      generalize σ.life i = ℓ at old executing ⊢
      rcases ℓ with ⟨state, timing, repeats, handler⟩
      cases state with
      | executing =>
        exact ⟨fun _ => Nat.le_add_right_of_le (Nat.le_of_eq (executing rfl).1.symm), fun again => nomatch again⟩
      | stopping => exact ⟨(fun active => nomatch active), fun again => nomatch again⟩
      | _ => exact ⟨old, executing⟩
    · rw [Function.update_of_ne e]
      exact ⟨old, h.executing i⟩
  | dismiss which => rcases which with rfl | rfl <;> cases kind
  | _ => first | cases kind; done | cases ends _ List.mem_cons_self

/-- What a step of a run of rounds starts from. -/
structure Steps (v : View) (w : World) (act : Act) (s : Stride) (rest : List Act) : Prop where
  acts : v.acts = act :: rest
  leads : Leads w v.device act s
  steady : v.Steady
  orderly : v.Orderly
  quiet : v.Quiet
  ends : ∀ op ∈ act.orders, op.ends
  /-- Calls on the board are not above it. -/
  alone : act.aside = false → ∀ b ∈ rest, b.resumes = false

namespace Steps

variable {v : View} {w : World} {act : Act} {s : Stride} {rest : List Act}

theorem kind (h : Steps v w act s rest) : act.steady := h.steady.steady act (h.acts ▸ List.mem_cons_self)

theorem head (h : Steps v w act s rest) : act ∈ v.acts := h.acts ▸ List.mem_cons_self

theorem column (h : Steps v w act s rest) : Column (act :: rest) := h.acts ▸ h.orderly.sound.column

theorem sound (h : Steps v w act s rest) : TimedTasks.Sound v.scheduler (act :: rest) := h.acts ▸ h.orderly.sound

theorem young (h : Steps v w act s rest) : v.Young := h.steady.young h.orderly.timed

theorem clock (h : Steps v w act s rest) (awake : ∀ ms, act ≠ .sleeping ms) : s.board.clock = v.clock :=
  (h.leads.stands h.ends h.steady.pace).2 awake

/-- Below the places where a round stands, and below a sleep, no round stands. -/
theorem no_scans (h : Steps v w act s rest) (top : act.turns ∨ act = .running ∨ ∃ ms, act = .sleeping ms) :
    ¬Scans rest := by
  refine not_scans_of_no_turns ?_
  rcases top with turns | rfl | ⟨ms, rfl⟩
  · exact TimedTasks.Sound.turns_head_of h.sound.column h.sound.layered turns
  · exact h.column.tail.no_turns h.sound.layered.1
  · cases rest with
    | nil => simp
    | cons b rest =>
      have running : b = .running := h.column.1
      subst running
      intro a m
      rcases List.mem_cons.1 m with rfl | m
      · rfl
      · exact h.column.tail.tail.no_turns h.sound.layered.2.1 a m

theorem not_handed (h : Steps v w act s rest) (none : ¬Scans rest) (i : Nat) : ¬Handed rest i := by
  rintro (m | ⟨timing, m⟩ | m)
  · exact none (h.column.tail.scans_of_mem m rfl)
  · exact none (h.column.tail.scans_of_mem m rfl)
  · exact none (h.column.tail.scans_of_mem m rfl)

/-- A round takes into its hands what it looks at, and sees it as it is. -/
theorem inHand (h : Steps v w act s rest) (major : act.aside = false) :
    InHand s.scheduler (v.past.after v.clock act s) (s.frames ++ rest) := by
  have here : ∀ {a : Act}, a ∈ s.frames ++ rest → a.resumes → a ∈ s.frames := fun m resumes =>
    (List.mem_append.1 m).resolve_right fun m => by
      rw [h.alone major _ m] at resumes
      cases resumes
  have l := h.leads
  have kind := h.kind
  have ends := h.ends
  refine ⟨fun i timing m => l.looked_at (here m rfl), fun i m => ?_, fun i m => ?_⟩
  · have awake : (∃ timing, act = .reading (.due i timing)) ∨ (∃ timing, act = .reading (.cached i timing)) ∨
        act = .dispatch i → v.past.Ripe v.scheduler i → s.scheduler = v.scheduler →
        (v.past.after v.clock act s).Ripe s.scheduler i := by
      intro which ripe same
      rw [Chronicle.ripe_after (by rw [same]) ?_ (h.clock ?_)]
      · exact ripe
      · rcases which with ⟨t, rfl⟩ | ⟨t, rfl⟩ | rfl <;> simp [Act.stamps]
      · rcases which with ⟨t, rfl⟩ | ⟨t, rfl⟩ | rfl <;> simp
    have seen := h.steady.inHand
    have m : .dispatch i ∈ s.frames ∨ .reading (.renew i) ∈ s.frames := by
      refine m.imp (fun m => (List.mem_append.1 m).resolve_right (h.column.no_dispatch i)) fun m => here m rfl
    have head := h.head
    cases l with
    | @due j timing expired =>
      obtain rfl : i = j := by simpa [Stride.frames] using m
      exact awake (.inl ⟨timing, rfl⟩) ((h.orderly.timed.expired_iff h.young (seen.looked i timing head)).1 expired) rfl
    | @dueFirst j timing expired =>
      obtain rfl : i = j := by simpa [Stride.frames] using m
      have elapsed := h.orderly.timed.remaining_eq_zero_iff h.young (h.quiet.looking i timing head)
      exact awake (.inr (.inl ⟨timing, rfl⟩)) (elapsed.1 expired) rfl
    | @renewing j t =>
      obtain rfl : i = j := by simpa [Stride.frames] using m
      exact awake (.inr (.inr rfl)) (seen.ripe i (.inl head)) rfl
    | asked r =>
      rw [Act.unsteady_of_asks r] at kind
      cases kind
    | _ => first | cases kind; done | cases ends _ List.mem_cons_self | simp [Stride.frames] at m
  · have m := here m rfl
    cases l with
    | @renewing j t found active repeats =>
      obtain rfl : i = j := by simpa [Stride.frames] using m
      have life : v.scheduler.life i = t.life := Arena.life_of_slot found
      show (v.scheduler.life i).repeats = true
      rw [life]
      exact repeats
    | asked r =>
      rw [Act.unsteady_of_asks r] at kind
      cases kind
    | _ => first | cases kind; done | cases ends _ List.mem_cons_self | simp [Stride.frames] at m

/-- A task that was due is due no more, and a task that is about to be due is not missed. -/
theorem onTime (h : Steps v w act s rest) (major : act.aside = false) :
    OnTime s.scheduler (v.past.after v.clock act s) (s.frames ++ rest) := by
  have old := h.steady.onTime
  have l := h.leads
  have kind := h.kind
  have ends := h.ends
  have noNap : ∀ nap, .sleeping nap ∉ s.frames ++ rest := by
    intro nap m
    rcases List.mem_append.1 m with m | m
    · cases l <;> simp [Stride.frames] at m
    · have resumes := h.alone major _ m
      cases resumes
  by_cases asleep : ∃ ms, act = .sleeping ms
  · obtain ⟨ms, rfl⟩ := asleep
    have life : s.scheduler.life = v.scheduler.life := by cases l <;> rfl
    have due : ∀ i, (v.past.after v.clock (.sleeping ms) s).due s.scheduler i = v.past.due v.scheduler i := fun i => by
      rw [Chronicle.due, Chronicle.due, Chronicle.stamp_after rfl, life]
    have late : (v.past.after v.clock (.sleeping ms) s).time ≤ v.past.time + ms.toNat := by
      have slept : s.board.clock = v.clock + min ms (v.device.board.naps.headD ms) := by cases l <;> rfl
      have short := Board.toNat_min_le ms (v.device.board.naps.headD ms)
      show v.past.time + (s.board.clock - v.clock).toNat ≤ _
      rw [slept, UInt32.add_comm v.clock, UInt32.add_sub_cancel]
      omega
    refine ⟨fun i w => ?_, fun nap m => absurd m (noNap nap), fun i e => ?_⟩
    · rw [due i]
      exact Nat.le_trans late (old.napping ms h.head i ((waits_of_life life i).1 w))
    · rw [life] at e
      have settle := (h.sound.handling i).1 (by rw [e]; rfl)
      exact absurd (h.column.tail.scans_of_mem ((List.mem_cons.1 settle).resolve_left (by simp)) rfl)
        (h.no_scans (.inr (.inr ⟨ms, rfl⟩)))
  · have clock := h.clock fun ms e => asleep ⟨ms, e⟩
    have time : (v.past.after v.clock act s).time = v.past.time := Chronicle.time_after_eq clock
    have each := l.lives.onTime kind ends (fun i e => h.steady.inHand.repeating i (e ▸ h.head)) old
    refine ⟨fun i w => ?_, fun nap m => absurd m (noNap nap), fun i e => ?_⟩
    · rw [time]
      exact (each i).1 w
    · rw [time]
      exact (each i).2 e

/-- After its dispatch, the time of a repeating task has not come again. -/
theorem not_ripe_of_settle {i : Nat} (h : Steps v w (.settle i) s rest) (clock : s.board.clock = v.clock)
    (life : s.scheduler.life = Function.update v.scheduler.life i (v.scheduler.life i).settle) :
    ¬(v.past.after v.clock (.settle i) s).Ripe s.scheduler i := by
  rintro ⟨waits, due⟩
  change (s.scheduler.life i).state = .active at waits
  have busy := (h.sound.handling i).2 List.mem_cons_self
  have executing := h.steady.onTime.executing i
  have positive := (h.orderly.timed.clamped i).positive
  rw [Chronicle.due, Chronicle.time_after_eq clock, Chronicle.stamp_after rfl, life, Function.update_self] at due
  rw [life, Function.update_self] at waits
  generalize v.scheduler.life i = ℓ at *
  rcases ℓ with ⟨state, timing, repeats, handler⟩
  cases state <;> first | cases busy; done | cases waits; done | skip
  obtain ⟨stamp, again⟩ := executing rfl
  have length := positive again
  change v.past.stamp i + timing.length.toNat ≤ v.past.time at due
  change 1 ≤ timing.length.toNat at length
  omega

/-- A task leaves the hands of a round when its time has not come, or when it waits no more. -/
theorem covered_below (h : Steps v w act s rest) (major : act.aside = false) {a : Act} (m : a ∈ rest) :
    a.Covers s.scheduler (v.past.after v.clock act s) (s.frames ++ rest) := by
  have old := h.steady.covered a (h.acts ▸ List.mem_cons_of_mem _ m)
  rw [h.acts] at old
  obtain ⟨noDeadline, -⟩ := h.column.no_result
  -- Where a round stands, and where none is in progress, there is nothing below that covers anything.
  have nothing : ¬Scans rest → a.Covers s.scheduler (v.past.after v.clock act s) (s.frames ++ rest) := by
    intro none
    have still : a.scans = false := by
      by_contra scans
      exact none ⟨a, m, by simpa using scans⟩
    refine .of_idle still (fun best now e => ?_) fun ms e => noDeadline ms (e ▸ m)
    exact absurd (h.alone major _ (e ▸ m)) Bool.noConfusion
  have handed : ∀ {i : Nat}, (act = .dispatch i ∨ (∃ timing, act = .reading (.due i timing)) ∨ act = .reading (.renew i) →
      Handed (s.frames ++ rest) i) → Handed (act :: rest) i → Handed (s.frames ++ rest) i := fun own hands =>
    (handed_cons.1 hands).elim own fun hands => hands.mono fun _ => List.mem_append_right _
  have seen := h.steady.inHand
  have l := h.leads
  have kind := h.kind
  have ends := h.ends
  have head := h.head
  have awake := h.clock
  have ripe : ∀ {i : Nat}, s.scheduler.life i = v.scheduler.life i → act.stamps ≠ some i →
      s.board.clock = v.clock → (v.past.after v.clock act s).Ripe s.scheduler i → v.past.Ripe v.scheduler i :=
    fun life stamps clock => (Chronicle.ripe_after life stamps clock).1
  cases l with
  | @due i timing =>
    refine old.mono rfl (fun j => ripe rfl (by simp [Act.stamps]) (awake (by simp))) fun j _ => handed ?_
    rintro (e | ⟨t, e⟩ | e) <;> cases e
    exact .inl List.mem_cons_self
  | @notDue i timing early =>
    have clock := awake (by simp)
    refine old.mono rfl (fun j => ripe rfl (by simp [Act.stamps]) clock) fun j r => handed ?_
    rintro (e | ⟨t, e⟩ | e) <;> cases e
    have expired := (h.orderly.timed.expired_iff h.young (seen.looked i timing head)).2 (ripe rfl (by simp [Act.stamps]) clock r)
    change timing.expired v.clock = false at early
    rw [expired] at early
    cases early
  | @renewing i t =>
    refine old.mono rfl (fun j => ripe rfl (by simp [Act.stamps]) (awake (by simp))) fun j _ => handed ?_
    rintro (e | ⟨t, e⟩ | e) <;> cases e
    exact .inr (.inr (by simp [Stride.frames]))
  | @notDispatched i t found idle =>
    have life : v.scheduler.life i = t.life := Arena.life_of_slot found
    have waits : (v.scheduler.life i).state = .active := (seen.ripe i (.inl head)).1
    rw [life] at waits
    exact absurd waits idle
  | unhandled | fetched =>
    refine old.mono rfl (fun j => ripe rfl (by simp [Act.stamps]) (awake (by simp))) fun j _ => handed ?_
    rintro (e | ⟨t, e⟩ | e) <;> cases e
  | @renew i σ st =>
    have c := Scheduler.start_changes st
    have busy : ¬σ.arena.Waits i := fun w => by
      change (σ.life i).state = .active at w
      rw [c.life, Function.update_self] at w
      cases w
    refine old.mono c.link (fun j r => ?_) fun j r => handed ?_
    · have e : j ≠ i := fun e => busy (e ▸ r.1)
      exact ripe (by rw [c.life, Function.update_of_ne e]; rfl) (by simp [Act.stamps, e.symm]) (awake (by simp)) r
    · rintro (e | ⟨t, e⟩ | e) <;> cases e
      exact absurd r.1 busy
  | @dispatched i t σ _ _ _ st =>
    have c := Scheduler.stopping_changes st
    have busy : ¬σ.arena.Waits i := fun w => by
      change (σ.life i).state = .active at w
      rw [c.life, Function.update_self] at w
      cases w
    refine old.mono c.link (fun j r => ?_) fun j r => handed ?_
    · have e : j ≠ i := fun e => busy (e ▸ r.1)
      exact ripe (by rw [c.life, Function.update_of_ne e]; rfl) (by simp [Act.stamps]) (awake (by simp)) r
    · rintro (e | ⟨t, e⟩ | e) <;> cases e
      exact absurd r.1 busy
  | @settled i σ st =>
    have c := Scheduler.settle_changes st
    have clock := awake (by simp)
    refine old.mono c.link (fun j r => ?_) fun j _ => handed ?_
    · by_cases e : j = i
      · subst e
        exact absurd r (h.not_ripe_of_settle clock c.life)
      · exact ripe (by rw [c.life, Function.update_of_ne e]; rfl) (by simp [Act.stamps]) clock r
    · rintro (e | ⟨t, e⟩ | e) <;> cases e
  | woken | wokenLast => exact nothing (h.no_scans (.inr (.inr ⟨_, rfl⟩)))
  | anotherRound | lastRound => exact nothing (h.no_scans (.inr (.inl rfl)))
  | remembered | nothingRemembered | surveyed | walked | looked | passed | wait | retarget | dueFirst | scan | adopted =>
    exact nothing (h.no_scans (.inl rfl))
  | asked r | told r =>
    rw [Act.unsteady_of_asks r] at kind
    cases kind
  | refused r =>
    rw [(Act.unsteady_of_refuses r).1] at kind
    cases kind
  | _ => first | cases kind; done | cases major

/-- Where a round goes on, it covers all that is ripe. -/
theorem covered_frames (h : Steps v w act s rest) (major : act.aside = false)
    (told : ∀ ms, .deadline ms ∈ s.frames → s.scheduler.LeastLeft (v.past.after v.clock act s).read ms) {a : Act}
    (m : a ∈ s.frames) : a.Covers s.scheduler (v.past.after v.clock act s) (s.frames ++ rest) := by
  have old := h.steady.covered act h.head
  have seen := h.steady.inHand
  have l := h.leads
  have kind := h.kind
  have head := h.head
  have awake := h.clock
  have ripe : ∀ {i : Nat}, s.scheduler.life i = v.scheduler.life i → act.stamps ≠ some i →
      s.board.clock = v.clock → (v.past.after v.clock act s).Ripe s.scheduler i → v.past.Ripe v.scheduler i :=
    fun life stamps clock => (Chronicle.ripe_after life stamps clock).1
  have free : act.turns → ∀ i, ¬Handed v.acts i := by
    intro turns i hands
    rw [h.acts, handed_cons] at hands
    rcases hands with (rfl | ⟨t, rfl⟩ | rfl) | hands
    · cases turns
    · cases turns
    · cases turns
    · exact h.not_handed (h.no_scans (.inl turns)) i hands
  cases l with
  | @dueFirst i =>
    simp only [Stride.frames, List.mem_cons, List.not_mem_nil, or_false] at m
    rcases m with rfl | rfl
    · trivial
    · intro _
      exact .inl List.mem_cons_self
  | @surveyed skip =>
    obtain rfl := List.mem_singleton.1 m
    obtain ⟨l, holds, mem⟩ := h.orderly.linked.queue
    intro i now
    have before := ripe rfl (by simp [Act.stamps]) (awake (by simp)) now
    refine .inr ⟨fun e => ?_, l, holds.chain, (mem i).2 fun u => ?_⟩
    · subst e
      exact free rfl i (old before)
    · have waits : (v.scheduler.life i).state = .active := before.1
      rw [u] at waits
      cases waits
  | @walked skip =>
    simp only [Stride.frames, List.mem_cons, List.not_mem_nil, or_false] at m
    rcases m with rfl | rfl
    · trivial
    · intro i r
      rcases old i (ripe rfl (by simp [Act.stamps]) (awake (by simp)) r) with hands | ahead
      · exact free rfl i hands
      · exact Scheduler.not_ahead_none ahead
  | @looked skip j t other found active =>
    simp only [Stride.frames, List.mem_cons, List.not_mem_nil, or_false] at m
    rcases m with rfl | rfl | rfl
    · trivial
    · trivial
    · intro i r
      rcases old i (ripe rfl (by simp [Act.stamps]) (awake (by simp)) r) with hands | ahead
      · exact absurd hands (free rfl i)
      · refine (ahead.next found).imp (fun e => ?_) id
        subst e
        exact .inr (.inl ⟨t.timing, by simp [Stride.frames]⟩)
  | @passed skip j t idle found =>
    obtain rfl := List.mem_singleton.1 m
    intro i r
    have r := ripe rfl (by simp [Act.stamps]) (awake (by simp)) r
    rcases old i r with hands | ahead
    · exact absurd hands (free rfl i)
    · refine .inr ((ahead.next found).resolve_left fun e => ?_)
      subst e
      have life : v.scheduler.life i = t.life := Arena.life_of_slot found
      have waits : (v.scheduler.life i).state = .active := r.1
      rw [life] at waits
      exact idle.elim ahead.1 fun idle => idle waits
  | scan =>
    simp only [Stride.frames, List.mem_cons, List.not_mem_nil, or_false] at m
    rcases m with rfl | rfl
    · trivial
    · intro i r
      exact old i (ripe rfl (by simp [Act.stamps]) (awake (by simp)) r)
  | adopted adopt =>
    obtain rfl := List.mem_singleton.1 m
    have c := (Scheduler.adopt_changes adopt).2
    intro i r
    exact old i (ripe (by rw [c.life]; rfl) (by simp [Act.stamps]) (awake (by simp)) r)
  | @wait i timing early =>
    obtain rfl := List.mem_singleton.1 m
    intro j r
    have r := ripe rfl (by simp [Act.stamps]) (awake (by simp)) r
    have least := (told _ m).2 j r.1
    rw [Chronicle.read_after_consulted rfl] at least
    change _ ≤ v.scheduler.arena.left v.clock j at least
    have left := h.orderly.timed.toNat_left h.young h.orderly.timed.readAt r.1
    have due := r.2
    rw [UInt32.le_iff_toNat_le, left] at least
    change 0 < timing.remaining v.clock at early
    rw [UInt32.lt_iff_toNat_lt] at early
    change (timing.remaining v.clock).toNat ≤ _ at least
    change 0 < _ at early
    omega
  | asked r | told r =>
    rw [Act.unsteady_of_asks r] at kind
    cases kind
  | refused r =>
    rw [(Act.unsteady_of_refuses r).1] at kind
    cases kind
  | _ =>
    first
    | cases kind; done
    | cases major; done
    | cases m; done
    | simp only [Stride.frames, List.mem_cons, List.not_mem_nil, or_false] at m
      rcases m with rfl | rfl | rfl <;> trivial

/-- A run of rounds in progress stays in progress as long as its session is active. -/
theorem runs (h : Steps v w act s rest) (more : act = .running → v.scheduler.runState = .active) :
    Runs (s.frames ++ rest) := by
  have old : Runs (act :: rest) := h.acts ▸ h.steady.runs
  have l := h.leads
  by_cases last : act = .running
  · subst last
    rw [old.alone]
    cases l with
    | anotherRound => exact ⟨[.checkCache, .round], rfl, by simp⟩
    | lastRound inactive => exact absurd (more rfl) inactive
  · exact (old.tail last).append (l.no_running last h.ends)

/-- The result of a round is about the clock as it still stands, and so is a scan. -/
theorem read (h : Steps v w act s rest) (major : act.aside = false)
    (adopting : ∀ best now, act = .locked (.adopt best now) → v.past.read = now) :
    (∀ ms, .deadline ms ∈ s.frames ++ rest → (v.past.after v.clock act s).read = s.board.clock) ∧
      ∀ best now, .locked (.adopt best now) ∈ s.frames ++ rest → now = s.board.clock := by
  obtain ⟨noDeadline, -⟩ := h.column.no_result
  have clock := h.clock
  have scanned := h.steady.scanned
  have head := h.head
  have l := h.leads
  constructor
  · intro ms m
    have here := (List.mem_append.1 m).resolve_right (noDeadline ms)
    clear m
    cases l with
    | wait => exact (Chronicle.read_after_consulted rfl).trans (clock (by simp)).symm
    | @adopted best now =>
      rw [Chronicle.read_after rfl, adopting best now rfl, scanned best now head]
      rfl
    | _ => simp [Stride.frames] at here
  · intro best now m
    have here := (List.mem_append.1 m).resolve_right fun m => by cases h.alone major _ m
    clear m
    cases l with
    | ask ask => cases ask <;> simp [Stride.frames] at here
    | @scan best' =>
      simp only [Stride.frames, List.mem_cons, Act.locked.injEq, Section.adopt.injEq, List.not_mem_nil, or_false,
        reduceCtorEq, false_or] at here
      exact here.2.trans (clock (by simp)).symm
    | _ => simp [Stride.frames] at here

/-- Whatever a round does, nothing but time moves its tasks. -/
theorem works (h : Steps v w act s rest) (major : act.aside = false) (cached : v.Cached)
    (told : ∀ ms, .deadline ms ∈ s.frames → s.scheduler.LeastLeft (v.past.after v.clock act s).read ms)
    (more : act = .running → v.scheduler.runState = .active) :
    (View.take s rest (v.past.after v.clock act s)).Steady := by
  obtain ⟨read, scanned⟩ := h.read major fun best now e => (cached.adopting best now (e ▸ h.head)).read
  have covered : ∀ a ∈ s.frames ++ rest, a.Covers s.scheduler (v.past.after v.clock act s) (s.frames ++ rest) :=
    fun a m => (List.mem_append.1 m).elim (h.covered_frames major told) (h.covered_below major)
  have kinds : ∀ a ∈ s.frames ++ rest, a.steady := fun a m =>
    (List.mem_append.1 m).elim (h.leads.steady h.kind h.ends more a) fun m =>
      h.steady.steady a (h.acts ▸ List.mem_cons_of_mem _ m)
  have pace := (h.leads.stands h.ends h.steady.pace).1
  refine ⟨h.runs more, kinds, ?_, ?_, ?_, ?_, ?_, ?_⟩
  · simpa [View.take] using pace
  · simpa [View.take, View.clock] using read
  · simpa [View.take, View.clock] using scanned
  · simpa [View.take, View.scheduler] using h.inHand major
  · simpa [View.take, View.scheduler] using h.onTime major
  · simpa [View.take, View.scheduler] using covered

end Steps

namespace View

variable {v v' : View}

theorem Steady.steps {w : World} {act : Act} {s : Stride} {rest : List Act} (h : v.Steady) (o : v.Orderly)
    (quiet : v.Quiet) (spared : v.Spared) (modest : v.Modest) (acts : v.acts = act :: rest)
    (l : Leads w v.device act s) : Steps v w act s rest := by
  refine ⟨acts, l, h, o, quiet, modest act (acts ▸ List.mem_cons_self), fun major b m => ?_⟩
  by_contra resumes
  have minor := Act.aside_of_ends (spared.ends_of_resumes o.sound acts b m (by simpa using resumes))
  rw [major] at minor
  cases minor

/-- A run of rounds that nothing but time moves stays one until its session is over. -/
theorem Steady.turn (h : v.Steady) (o : v.Orderly) (quiet : v.Quiet) (cached : v.Cached) (spared : v.Spared)
    (modest : v.Modest) (cached' : v'.Cached) (t : Turn v v') : v'.Steady ∨ .running ∉ v'.acts := by
  cases t with
  | @delivers ms act s _ rest acts l => exact .inl (h.delivers cached o acts l)
  | @works w act s _ rest acts l =>
    have steps := h.steps o quiet spared modest acts l
    cases major : act.aside with
    | true => exact .inl (h.aside acts l major steps.ends)
    | false =>
      by_cases more : act = .running → v.scheduler.runState = .active
      · refine .inl (steps.works major cached (fun ms m => ?_) more)
        have told := cached'.told ms (.inl (List.mem_append_left _ m))
        simpa [take, scheduler] using told
      · obtain ⟨rfl, inactive⟩ := Classical.not_imp.1 more
        have last : rest = [] := Runs.alone (acts ▸ h.runs)
        subst last
        refine .inr ?_
        cases l with
        | anotherRound active => exact absurd active inactive
        | lastRound => simp [take, Stride.frames]

/-- No run begins where none is in progress. -/
theorem not_running_of_turn (modest : v.Modest) (none : .running ∉ v.acts) (t : Turn v v') : .running ∉ v'.acts := by
  cases t with
  | @works w act s _ rest acts l =>
    rw [acts] at none
    have other : act ≠ .running := fun e => none (e ▸ List.mem_cons_self)
    have here := l.no_running other (modest act (acts ▸ List.mem_cons_self))
    intro m
    exact (List.mem_append.1 m).elim here fun m => none (List.mem_cons_of_mem _ m)
  | @delivers ms act s _ rest acts l =>
    rw [acts] at none
    refine fun m => (List.mem_append.1 m).elim (fun m => ?_) fun m => none (by simp [m])
    cases l with
    | round | ticking => simp [Stride.frames] at m
    | sleeping | awake => simp at none

end View

end TimedTasks
