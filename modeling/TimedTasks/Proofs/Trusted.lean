import TimedTasks.Proofs.Notes

/-!
# The cache through a run

Every step leaves a cache that stands for what it should, as long as no task gets too old and interrupts leave the word
of starts and scans undisturbed (`View.Cached.turn`). So it does through every run of which that is promised
(`Moment.cached`).

Stops, updates and configurations make what is remembered obsolete: `Cached.keep` applies to them, and what is promised
of interrupts spares the tasks from which a scan under way is to choose.
-/

namespace TimedTasks

namespace DueCache

variable {c : DueCache} {i j : Nat}

/-- After one slot was forgotten another one may still be remembered. -/
theorem soonest_forget : (c.forget i).soonest = some j ↔ c.soonest = some j ∧ j ≠ i := by
  unfold forget
  split
  · rename_i same
    refine ⟨fun none => (nomatch none), fun ⟨is, other⟩ => absurd ?_ other⟩
    rw [same] at is
    exact (Option.some.inj is).symm
  · rename_i other
    exact ⟨fun is => ⟨is, fun e => other (e ▸ is)⟩, fun h => h.1⟩

/-- Only the soonest is forgotten. -/
theorem latecomer_forget : (c.forget i).latecomer = c.latecomer := by
  unfold forget
  split <;> rfl

/-- Another slot that an adoption chooses from stays one of them. -/
theorem Member.forget {best : Option Nat} (h : c.Member best j) (other : j ≠ i) : (c.forget i).Member best j := by
  rcases h with is | is | is
  · exact .inl is
  · exact .inr (.inl (soonest_forget.2 ⟨is, other⟩))
  · exact .inr (.inr (latecomer_forget.trans is))

end DueCache

/-- A shutdown leaves the cache alone. -/
theorem Scheduler.cache_shutdown (σ : Scheduler) : σ.shutdown.cache = σ.cache := by
  unfold Scheduler.shutdown
  split <;> rfl

theorem Life.stop_ne_active (ℓ : Life) : ℓ.stop.state ≠ .active := by
  rcases ℓ with ⟨state, timing, repeats, handler⟩
  cases state <;> exact TaskState.noConfusion

/-- Whether a slot waits is a matter of its own life. -/
theorem waits_of_eq {σ σ' : Scheduler} {i : Nat} (life : σ'.life i = σ.life i) :
    σ'.arena.Waits i ↔ σ.arena.Waits i := by
  show (σ'.life i).state = _ ↔ (σ.life i).state = _
  rw [life]

namespace Chronicle

variable {c : Chronicle} {clock : UInt32} {act : Act} {s : Stride}

/-- True time does not go back. -/
theorem time_after : c.time ≤ (c.after clock act s).time := Nat.le_add_right _ _

/-- A step that stamps no slot leaves all true stamps. -/
theorem stamp_after (h : act.stamps = none) : (c.after clock act s).stamp = c.stamp := by
  simp [after, h]

/-- One that does stamps it with the true time of the step. -/
theorem stamp_after_some {i : Nat} (h : act.stamps = some i) :
    (c.after clock act s).stamp = Function.update c.stamp i c.time := by
  funext j
  by_cases e : j = i
  · subst e; simp [after, h]
  · rw [Function.update_of_ne e]
    simp [after, h, Ne.symm e]

/-- Only the readings of rounds and starts are remembered as such. -/
theorem read_after (h : act.consults = false) : (c.after clock act s).read = c.read := by
  simp [after, h]

theorem read_after_consulted (h : act.consults = true) : (c.after clock act s).read = clock := by
  simp [after, h]

end Chronicle

/-- A step that leaves a walk along the queue in progress leaves no result of a round. -/
theorem Leads.untold {w : World} {δ : Device} {act : Act} {s : Stride} {rest : List Act} (l : Leads w δ act s)
    (sound : Sound δ.scheduler (act :: rest)) (scans : Scans (s.frames ++ rest)) (ms : Option UInt32) :
    ¬(.deadline ms ∈ s.frames ++ rest ∨ .answered (.deadline ms) ∈ s.frames ++ rest) := by
  obtain ⟨noDeadline, noAnswer⟩ := sound.column.no_result
  intro told
  simp only [List.mem_append, noDeadline ms, noAnswer, or_false] at told
  have above : act.turns → ¬Scans rest := fun turns =>
    not_scans_of_no_turns (Sound.turns_head_of sound.column sound.layered turns)
  cases l with
  | wait | adopted => exact above rfl ((scans_cons.1 scans).resolve_left Bool.noConfusion)
  | answer h | told _ h | refused _ h | lengthTold h | unclaimed h =>
    simp only [Stride.frames, List.mem_singleton, reduceCtorEq, false_or, Act.answered.injEq] at told
    exact h ms told.symm
  | _ => simp [Stride.frames] at told

namespace View

variable {v v' : View}

/-- When a session begins or ends, no start and no scan has yet to give word to the cache. Nothing is remembered
afterwards. -/
theorem Cached.dismissed {σ' : Scheduler} {past' : Chronicle} {act : Act} {new rest : List Act} (h : v.Cached)
    (o : v.Orderly) (acts : v.acts = act :: rest) (pa : act.neutral) (major : act.minor = false)
    (pf : new.all Act.calm) (d : Scheduler.Dismissed v.scheduler σ') (time : v.past.time ≤ past'.time)
    (stamp : past'.stamp = v.past.stamp) (read : past'.read = v.past.read) :
    TimedTasks.Cached σ' past' (new ++ rest) := by
  have h' : TimedTasks.Cached v.scheduler v.past (act :: rest) := acts ▸ h
  have col : Column (act :: rest) := acts ▸ o.sound.column
  obtain ⟨l, -, life⟩ := d.life
  refine h'.keep col pa pf time stamp read (fun i w _ => ?_) (fun c e => ?_) fun best now m => ?_
  · change (σ'.life i).state = .active at w
    have kept : i ∉ l := fun m => by
      rw [life i, if_pos m] at w
      cases w
    have same : σ'.life i = v.scheduler.life i := (life i).trans (if_neg kept)
    exact ⟨(waits_of_eq same).1 w, by rw [same]⟩
  · rw [d.cache] at e
    cases e
  · exact absurd m ((o.alone acts major).2.2 best now)

open Scheduler in
/-- Every step leaves a cache that stands for what it should. -/
theorem Cached.works {w : World} {act : Act} {s : Stride} {rest : List Act} (h : v.Cached) (o : v.Orderly)
    (young : v.Young) (u : v.Undisturbed) (acts : v.acts = act :: rest) (l : Leads w v.device act s) :
    TimedTasks.Cached s.scheduler (v.past.after v.clock act s) (s.frames ++ rest) := by
  have h' : TimedTasks.Cached v.scheduler v.past (act :: rest) := acts ▸ h
  have sound : TimedTasks.Sound v.scheduler (act :: rest) := acts ▸ o.sound
  have col := sound.column
  by_cases scans : Scans (s.frames ++ rest)
  · exact .of_scans (l.sound sound) scans (l.untold sound scans)
  have noRest : ¬Scans rest := fun s => scans (scans_append.2 (.inr s))
  have noScan : act.scans = false → ¬Scans v.acts := fun still => by
    rw [acts, scans_cons, still]
    simpa using noRest
  have time : v.past.time ≤ (v.past.after v.clock act s).time := Chronicle.time_after
  -- Most steps make nothing of any life or the cache.
  have idle : act.neutral → s.frames.all Act.calm → s.scheduler.life = v.scheduler.life →
      s.scheduler.cache = v.scheduler.cache →
      TimedTasks.Cached s.scheduler (v.past.after v.clock act s) (s.frames ++ rest) := fun pa pf life cache =>
    h'.idle col pa pf time (Chronicle.stamp_after (Act.neutral_spec pa).2.2.1)
      (Chronicle.read_after (Act.neutral_spec pa).2.2.2) life cache
  -- Those that touch a task leave alone what a scan under way is to choose from.
  have spared : ∀ {i : Nat}, act.Touches i → ∀ best now, .locked (.adopt best now) ∈ rest →
      ∀ j, v.scheduler.cache.Member best j → v.scheduler.arena.Waits j → j ≠ i :=
    fun touches best now m j mj wj e => u.spared act rest best now j acts m (e ▸ touches) wj mj
  cases l with
  | alloc | init | start | run | tick | info | advance | setNow | hook | blockEnd | blockNext | interruptsEnd
  | interruptsNext | shutdown | unhandled | fetched | sessionOver | claimedMeanwhile | opened | closed | woken | wokenLast
  | anotherRound | lastRound | remembered | handled | handledLast | occupied | claiming =>
    exact idle rfl rfl (by first | rfl | exact life_shutdown _) (by first | rfl | exact cache_shutdown _)
  | answer h | lengthTold h | unclaimed h => exact idle rfl (by simp [Stride.frames, Act.calm_answered h]) rfl rfl
  | ask ask => exact idle rfl (by simp [Stride.frames, Act.calm_of_op ask]) rfl rfl
  | asked r r' => exact idle (Act.neutral_of_asks r) (by simp [Stride.frames, Act.calm_of_asks r']) rfl rfl
  | told r h => exact idle (Act.neutral_of_asks r) (by simp [Stride.frames, Act.calm_answered h]) rfl rfl
  | refused r h => exact idle (Act.neutral_of_refuses r) (by simp [Stride.frames, Act.calm_answered h]) rfl rfl
  | lengthAsked r => exact idle rfl (by simp [Stride.frames, Act.calm_of_asks r]) rfl rfl
  | declared t => exact idle rfl rfl (takeSlots_changes t).life (takeSlots_changes t).cache
  | attached a => exact idle rfl rfl (attach_changes a).life (attach_changes a).cache
  | written a => exact idle rfl rfl (write_changes a).life (write_changes a).cache
  | enrolled e => exact idle rfl rfl (enrollPool_changes e).life (enrollPool_changes e).cache
  | claimed c => exact idle rfl rfl (handOut_changes c).life (handOut_changes c).cache
  -- A walk goes on.
  | retarget | dueFirst | nothingRemembered | surveyed | walked | looked | passed =>
    exact absurd (by simp [Stride.frames, Scans, Act.scans]) scans
  | due | notDue | renew | renewing | dispatched | notDispatched | settled => exact absurd (col.scans_of_walked rfl) noRest
  -- Stops, updates and configurations.
  | @update _ task _ i next σ ref re st =>
    have c := (relength_changes re).2.2
    have other : ∀ j, j ≠ i → σ.life j = v.scheduler.life j := fun j e => by rw [c.life, Function.update_of_ne e]; rfl
    refine h'.keep col rfl rfl time (Chronicle.stamp_after rfl) (Chronicle.read_after rfl) (fun j w quiet => ?_)
      (fun k e => c.cache ▸ e) fun best now m j mj wj => ?_
    · have e : j ≠ i := fun e => quiet ⟨.reading (.start i next), by simp [Stride.frames], e ▸ rfl⟩
      exact ⟨(waits_of_eq (other j e)).1 w, by rw [other j e]⟩
    · have e := spared (i := i) ref best now m j mj wj
      exact ⟨c.cache ▸ mj, (waits_of_eq (other j e)).2 wj, by rw [other j e]⟩
  | @stop _ task i σ ref st =>
    have c := (stop_changes st).2
    have other : ∀ j, j ≠ i → σ.life j = v.scheduler.life j := fun j e => by rw [c.life, Function.update_of_ne e]; rfl
    refine h'.keep col rfl rfl time (Chronicle.stamp_after rfl) (Chronicle.read_after rfl) (fun j w _ => ?_)
      (fun k e => c.cache ▸ e) fun best now m j mj wj => ?_
    · have e : j ≠ i := fun e => by
        change (σ.life j).state = .active at w
        rw [c.life, e, Function.update_self] at w
        exact Life.stop_ne_active _ w
      exact ⟨(waits_of_eq (other j e)).1 w, by rw [other j e]⟩
    · have e := spared (i := i) ref best now m j mj wj
      exact ⟨c.cache ▸ mj, (waits_of_eq (other j e)).2 wj, by rw [other j e]⟩
  | @configured i handler ms repeats σ conf =>
    have c := Scheduler.configured conf
    have other : ∀ j, j ≠ i → σ.life j = v.scheduler.life j := fun j e => by rw [c.life, Function.update_of_ne e]; rfl
    refine h'.keep col rfl rfl time (Chronicle.stamp_after rfl) (Chronicle.read_after rfl) (fun j w _ => ?_)
      (fun k e => (DueCache.soonest_forget.1 (c.cache ▸ e)).1) fun best now m j mj wj => ?_
    · have e : j ≠ i := fun e => by
        change (σ.life j).state = .active at w
        rw [c.life, e, Function.update_self] at w
        cases w
      exact ⟨(waits_of_eq (other j e)).1 w, by rw [other j e]⟩
    · have e := spared (i := i) rfl best now m j mj wj
      exact ⟨c.cache ▸ mj.forget e, (waits_of_eq (other j e)).2 wj, by rw [other j e]⟩
  | @forgotten i =>
    refine h'.keep col rfl rfl time (Chronicle.stamp_after rfl) (Chronicle.read_after rfl) (fun j w _ => ⟨w, rfl⟩)
      (fun k e => (DueCache.soonest_forget.1 e).1) fun best now m j mj wj => ?_
    exact ⟨mj.forget (spared (i := i) rfl best now m j mj wj), wj, rfl⟩
  | begun b =>
    have d := (beginSession_dismissed b).1
    exact h.dismissed o acts rfl rfl rfl ⟨d.life, d.queue, d.cache, d.inRound⟩ time (Chronicle.stamp_after rfl)
      (Chronicle.read_after rfl)
  | ended e =>
    exact h.dismissed o acts rfl rfl rfl (endSession_dismissed e).1 time (Chronicle.stamp_after rfl)
      (Chronicle.read_after rfl)
  -- The steps that the cache hears of.
  | stamp st =>
    exact h.stamp o u acts (noScan rfl) (start_changes st) time (Chronicle.read_after rfl) (Chronicle.stamp_after_some rfl)
  | noted n =>
    exact h.told_start o young u acts (noScan rfl) n time (Chronicle.read_after rfl) (Chronicle.stamp_after rfl)
  | scan sc => exact Cached.of_scan o young acts sc time (Chronicle.read_after_consulted rfl) (Chronicle.stamp_after rfl)
  | adopted a => exact h.of_adopt o young acts a time (Chronicle.read_after rfl) (Chronicle.stamp_after rfl)
  | wait early soonest =>
    exact h.of_wait o young u acts (noScan rfl) soonest early time (Chronicle.read_after_consulted rfl)
      (Chronicle.stamp_after rfl)
/-- The deadline of a round is told on its way up, and a run sleeps until then. -/
theorem Cached.delivers {ms : Option UInt32} {act : Act} {s : Stride} {rest : List Act} (h : v.Cached)
    (o : v.Orderly) (acts : v.acts = .deadline ms :: act :: rest) (l : Delivers v.device ms act s) :
    TimedTasks.Cached s.scheduler v.past (s.frames ++ rest) := by
  have h' : TimedTasks.Cached v.scheduler v.past (.deadline ms :: act :: rest) := acts ▸ h
  have col : Column (.deadline ms :: act :: rest) := acts ▸ o.sound.column
  have least := h'.told ms (.inl List.mem_cons_self)
  obtain ⟨noDeadline, noAnswer⟩ := col.tail.no_result
  cases l with
  | round | ticking =>
    refine h'.congr rfl rfl (by simp [Stride.frames, Scans, Act.scans]) (by simp [Stride.frames, Starting, Act.announces])
      (by simp [Stride.frames]) (by simp [Stride.frames]) fun n told => ?_
    simp only [Stride.frames, List.singleton_append, List.mem_cons, noDeadline, noAnswer, Act.deadline.injEq,
      Act.answered.injEq, Answer.deadline.injEq, reduceCtorEq, or_false, false_or] at told
    exact told ▸ least
  | sleeping | awake =>
    refine h'.congr rfl rfl (by simp [Stride.frames, Scans, Act.scans]) (by simp [Stride.frames, Starting, Act.announces])
      (by simp [Stride.frames]) (by simp [Stride.frames]) fun n told => ?_
    simp [Stride.frames, noDeadline, noAnswer] at told

/-- While others work the cache stands for what it did. -/
theorem Cached.shift (h : v.Cached) (t : Shift v v') : v'.Cached := by
  cases t with
  | @drops act _ rest acts drops =>
    have h' : TimedTasks.Cached v.scheduler v.past (act :: rest) := acts ▸ h
    refine h'.congr rfl rfl ?_ (fun i => ?_) (fun i n => ?_) (fun b n => ?_) fun ms told => ?_
    · cases act <;> first | cases drops; done | simp [Scans, Act.scans]
    · cases act <;> first | cases drops; done | simp [Starting, Act.announces]
    · cases act <;> first | cases drops; done | simp
    · cases act <;> first | cases drops; done | simp
    · exact h'.told ms (told.imp (List.mem_cons_of_mem _) (List.mem_cons_of_mem _))
  | arrives self op =>
    refine TimedTasks.Cached.congr h rfl rfl (by simp [Scans, Act.scans]) (by simp [Starting, Act.announces]) (by simp)
      (by simp) fun ms told => ?_
    exact h.told ms (by simpa using told)

/-- A step leaves a cache that stands for what it should, of a device whose word to its cache is undisturbed. -/
theorem Cached.turn (h : v.Cached) (o : v.Orderly) (young : v.Young) (u : v.Undisturbed) (t : Turn v v') :
    v'.Cached := by
  cases t with
  | works acts l => simpa [View.Cached, take, scheduler] using h.works o young u acts l
  | delivers acts l => simpa [View.Cached, take, scheduler] using h.delivers o acts l

theorem Fresh.cached (h : v.Fresh) : v.Cached := by
  obtain ⟨capacity, fresh⟩ := h.scheduler
  rw [View.Cached, h.acts, fresh]
  exact ⟨fun _ _ c e => (nomatch e), fun _ i n m => (nomatch m), fun b n m => (nomatch m), fun ms told => by simp at told⟩

end View

/-- In a run in which no task gets too old and interrupts leave the word of starts and scans undisturbed, the cache
stands for what it should. -/
theorem Moment.cached {P : Moment → Prop} {s : Setup} {y : Moment} {d : Nat} {v : View} (r : Run P (initial s) y)
    (calm : ∀ z, P z → Confined Op.calm z.machine.stack)
    (promise : ∀ z v, P z → z.view d = some v → v.Young ∧ v.Undisturbed) (h : y.view d = some v) : v.Cached := by
  have known : ∀ z, Run P (initial s) z → ∀ v, z.view d = some v → v.Orderly := fun z r v hv => orderly r calm hv
  exact view_of_run (Q := fun v => (v.Young ∧ v.Undisturbed) ∧ v.Orderly) (r.also known)
    (fun z v p hv => ⟨promise z v p.1 hv, p.2 v hv⟩) (fun _ => View.Fresh.cached)
    (fun _ _ h q t _ => h.turn q.2 q.1.1 q.1.2 t) (fun _ _ h t => h.shift t) h

end TimedTasks
