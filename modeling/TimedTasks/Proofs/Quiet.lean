import TimedTasks.Proofs.Trusted

/-!
# Runs that nothing disturbs

Interrupts that only ask for the end of a session touch no task. While they are in progress every life stays what it is,
so what a start or a round goes on with after a call on the board is as it was before the call (`Quiet`), and the word of
starts and scans is undisturbed (`View.Quiet.undisturbed`). In such a run the remembered task also waits, as soon as the
cache was told of every stop.
-/

namespace TimedTasks

/-- A request for the end of a session changes no life. -/
theorem Lives.of_ends {σ : Scheduler} {now : UInt32} {act : Act} {life : Nat → Life} (l : Lives σ now act life)
    (h : act.ends) : life = σ.life := by
  cases l with
  | same => rfl
  | dismiss which _ _ => rcases which with rfl | rfl <;> cases h
  | _ => cases h

namespace Act

variable {act : Act}

/-- What touches a task is no such request. -/
theorem ends_of_touches {i : Nat} (h : act.Touches i) : act.ends = false := by
  cases act with
  | perform self op => cases op <;> first | rfl | cases h
  | reading r => rfl
  | locked s => cases s <;> first | rfl | cases h
  | _ => cases h

theorem scans_of_ends (h : act.ends) : act.scans = false := by
  cases act with
  | reading r => cases h
  | _ => first | rfl | cases h

theorem consults_of_ends (h : act.ends) : act.consults = false := by
  cases act with
  | reading r => cases h
  | _ => rfl

/-- The act ends in word of a start or of a scan to the cache. -/
def tells : Act → Bool
  | reading (.start ..) | locked (.noteArmed ..) | locked (.adopt ..) => true
  | _ => false

/-- A round's look at the clock is for a task that waits with the interval that the round saw. -/
def sees (σ : Scheduler) : Act → Bool
  | reading (.cached i timing) => σ.arena.Waits i ∧ (σ.life i).timing = timing
  | _ => true

/-- The two steps of a start have something to tell the cache. -/
theorem tells_of_announces {i : Nat} (h : act.announces = some i) : act.tells := by
  cases act with
  | reading r => cases r <;> first | rfl | cases h
  | locked s => cases s <;> first | rfl | cases h
  | _ => cases h

theorem resumes_of_tells (h : act.tells) : act.resumes := by
  cases act with
  | reading r => rfl
  | locked s => rfl
  | _ => cases h

end Act

/-- What lies below a call on the board can rely on what it saw before, and what is remembered waits. -/
structure Quiet (σ : Scheduler) (acts : List Act) : Prop where
  looking : ∀ i timing, .reading (.cached i timing) ∈ acts → σ.arena.Waits i ∧ (σ.life i).timing = timing
  starting : ¬Scans acts → ∀ i now, .locked (.noteArmed i now) ∈ acts → σ.arena.Waits i
  soonest : ¬Scans acts → (∀ best now, .locked (.adopt best now) ∉ acts) → ∀ c, σ.cache.soonest = some c →
    σ.arena.Waits c ∨ .locked (.forget c) ∈ acts

namespace Quiet

variable {σ σ' : Scheduler} {acts acts' : List Act}

/-- Quiet depends on the lives, the cache, and the acts of rounds and sections. -/
theorem congr (h : Quiet σ acts) (life : σ'.life = σ.life) (cache : σ'.cache = σ.cache)
    (scans : Scans acts' ↔ Scans acts)
    (same : ∀ a : Act, (∃ i timing, a = .reading (.cached i timing)) ∨ (∃ s, a = .locked s) → (a ∈ acts' ↔ a ∈ acts)) :
    Quiet σ' acts' := by
  have waits := waits_of_life life
  refine ⟨fun i timing m => ?_, fun no i n m => ?_, fun no none c hc => ?_⟩
  · obtain ⟨w, t⟩ := h.looking i timing ((same _ (.inl ⟨i, timing, rfl⟩)).1 m)
    exact ⟨(waits i).2 w, by rw [life]; exact t⟩
  · exact (waits i).2 (h.starting (fun s => no (scans.2 s)) i n ((same _ (.inr ⟨_, rfl⟩)).1 m))
  · rw [waits c, same _ (.inr ⟨_, rfl⟩)]
    exact h.soonest (fun s => no (scans.2 s)) (fun b n m => none b n ((same _ (.inr ⟨_, rfl⟩)).2 m)) c (cache ▸ hc)

end Quiet

section Leads

open Scheduler

variable {w : World} {δ : Device} {act : Act} {s : Stride} {rest : List Act}

/-- A round looks at the clock for a remembered task that waits. -/
theorem Leads.looking (l : Leads w δ act s) (h : Quiet δ.scheduler (act :: rest))
    (buried : ∀ b ∈ rest, b.resumes → act.ends) {i : Nat} {timing : Interval}
    (m : .reading (.cached i timing) ∈ s.frames ++ rest) :
    s.scheduler.arena.Waits i ∧ (s.scheduler.life i).timing = timing := by
  rcases List.mem_append.1 m with m | m
  · cases l with
    | @remembered j t _ found active =>
      simp only [Stride.frames, List.mem_cons, Act.reading.injEq, Reading.cached.injEq, List.not_mem_nil, or_false,
        reduceCtorEq, false_or] at m
      obtain ⟨rfl, rfl⟩ := m
      have life : δ.scheduler.life i = t.life := Arena.life_of_slot found
      refine ⟨?_, by rw [life]; rfl⟩
      show (δ.scheduler.life i).state = .active
      rw [life]
      exact active
    | asked _ r | lengthAsked r =>
      simp only [Stride.frames, List.mem_cons, Act.reading.injEq, List.not_mem_nil, or_false, reduceCtorEq, false_or] at m
      subst m
      cases r
    | _ => simp [Stride.frames] at m
  · have life : s.scheduler.life = δ.scheduler.life := l.lives.of_ends (buried _ m rfl)
    obtain ⟨w, t⟩ := h.looking i timing (List.mem_cons_of_mem _ m)
    exact ⟨(waits_of_life life i).2 w, by rw [life]; exact t⟩

/-- Outside of walks along the queue, a start leaves its task waiting. -/
theorem Leads.starting (l : Leads w δ act s) (h : Quiet δ.scheduler (act :: rest))
    (sound : Sound δ.scheduler (act :: rest)) (buried : ∀ b ∈ rest, b.resumes → act.ends)
    (no : ¬Scans (s.frames ++ rest)) {i : Nat} {now : UInt32}
    (m : .locked (.noteArmed i now) ∈ s.frames ++ rest) : s.scheduler.arena.Waits i := by
  have noRest : ¬Scans rest := fun s => no (scans_append.2 (.inr s))
  rcases List.mem_append.1 m with m | m
  · cases l with
    | @stamp j next _ st =>
      simp only [Stride.frames, List.mem_cons, Act.locked.injEq, Section.noteArmed.injEq, List.not_mem_nil, or_false,
        reduceCtorEq, false_or] at m
      obtain ⟨rfl, -⟩ := m
      have free : Act.settle i ∉ rest := fun m => noRest (sound.column.tail.scans_of_mem m rfl)
      have active : next = .active := sound.layered.1.2 free
      show (Scheduler.life _ i).state = .active
      rw [(start_changes st).life, Function.update_self]
      exact active
    | ask a => cases a <;> simp [Stride.frames] at m
    | _ => simp [Stride.frames] at m
  · have ends := buried _ m rfl
    have still : ¬Scans (act :: rest) := by
      rw [scans_cons, Act.scans_of_ends ends]
      simpa using noRest
    exact (waits_of_life (l.lives.of_ends ends) i).2 (h.starting still i now (List.mem_cons_of_mem _ m))

/-- What a walk along the queue finds waits. Whatever changes a life later leaves word to forget it, or says so itself. -/
theorem Leads.soonest (l : Leads w δ act s) (h : Quiet δ.scheduler (act :: rest))
    (sound : Sound δ.scheduler (act :: rest))
    (no : ¬Scans (s.frames ++ rest)) (none : ∀ best now, .locked (.adopt best now) ∉ s.frames ++ rest)
    (found : ∀ best now, act = .locked (.adopt best now) → ∀ b, best = some b → δ.scheduler.arena.Waits b) {c : Nat}
    (hc : s.scheduler.cache.soonest = some c) :
    s.scheduler.arena.Waits c ∨ .locked (.forget c) ∈ s.frames ++ rest := by
  have noRest : ¬Scans rest := fun s => no (scans_append.2 (.inr s))
  have noneRest : ∀ best now, .locked (.adopt best now) ∉ rest := fun b n m => none b n (List.mem_append_right _ m)
  -- Most steps bring nothing to the cache, and forget nothing.
  have keep : act.calm → δ.scheduler.cache.soonest = some c → act ≠ .locked (.forget c) →
      (δ.scheduler.arena.Waits c → s.scheduler.arena.Waits c ∨ .locked (.forget c) ∈ s.frames) →
      s.scheduler.arena.Waits c ∨ .locked (.forget c) ∈ s.frames ++ rest := by
    intro calm was notForget stays
    obtain ⟨still, -, notAdopt, -⟩ := Act.calm_spec calm
    have noScan : ¬Scans (act :: rest) := by
      rw [scans_cons, still]
      simpa using noRest
    rcases h.soonest noScan (fun b n m => (List.mem_cons.1 m).elim (fun e => notAdopt b n e.symm) (noneRest b n)) c was
      with waits | m
    · exact (stays waits).imp id (List.mem_append_left _)
    · exact .inr (List.mem_append_right _ ((List.mem_cons.1 m).resolve_left fun e => notForget e.symm))
  have idle : act.calm → (∀ i, act ≠ .locked (.forget i)) → s.scheduler.life = δ.scheduler.life →
      s.scheduler.cache = δ.scheduler.cache → s.scheduler.arena.Waits c ∨ .locked (.forget c) ∈ s.frames ++ rest :=
    fun calm notForget life cache => keep calm (cache ▸ hc) (notForget c) fun w => .inl ((waits_of_life life c).2 w)
  have changed : ∀ {i : Nat} {ℓ : Life}, act.calm → (∀ i, act ≠ .locked (.forget i)) →
      s.scheduler.life = Function.update δ.scheduler.life i ℓ → s.scheduler.cache = δ.scheduler.cache →
      (c = i → δ.scheduler.arena.Waits c → ℓ.state = .active ∨ .locked (.forget c) ∈ s.frames) →
      s.scheduler.arena.Waits c ∨ .locked (.forget c) ∈ s.frames ++ rest := by
    intro i ℓ calm notForget life cache own
    refine keep calm (cache ▸ hc) (notForget c) fun w => ?_
    by_cases e : c = i
    · refine (own e w).imp (fun active => ?_) id
      show (s.scheduler.life c).state = .active
      rw [life, e, Function.update_self]
      exact active
    · exact .inl ((waits_of_eq (by rw [life, Function.update_of_ne e])).2 w)
  have emptied : s.scheduler.cache = .empty → s.scheduler.arena.Waits c ∨ .locked (.forget c) ∈ s.frames ++ rest :=
    fun empty => by rw [empty] at hc; cases hc
  have col := sound.column
  cases l with
  | answer | ask | alloc | init | start | run | tick | info | advance | setNow | hook | blockEnd | blockNext
  | interruptsEnd | interruptsNext | lengthAsked | lengthTold | unhandled | fetched | sessionOver | claimedMeanwhile
  | opened | closed | woken | wokenLast | anotherRound | lastRound | remembered | handled | handledLast | unclaimed | occupied
  | claiming | wait =>
    exact idle rfl (by simp) rfl rfl
  | asked r | told r => exact idle (Act.calm_of_asks r) (by simp) rfl rfl
  | refused r => exact idle (Act.neutral_spec (Act.neutral_of_refuses r)).1 (fun i e => by cases e; cases r) rfl rfl
  | shutdown => exact idle rfl (by simp) (life_shutdown _) (cache_shutdown _)
  | declared t =>
    exact idle rfl (by simp) (takeSlots_changes t).life (takeSlots_changes t).cache
  | attached a => exact idle rfl (by simp) (attach_changes a).life (attach_changes a).cache
  | written a => exact idle rfl (by simp) (write_changes a).life (write_changes a).cache
  | enrolled e => exact idle rfl (by simp) (enrollPool_changes e).life (enrollPool_changes e).cache
  | claimed a => exact idle rfl (by simp) (handOut_changes a).life (handOut_changes a).cache
  | begun b => exact emptied (beginSession_dismissed b).1.cache
  | ended e => exact emptied (endSession_dismissed e).1.cache
  | retarget | dueFirst | nothingRemembered | surveyed | walked | looked | passed =>
    exact absurd (by simp [Stride.frames, Scans, Act.scans]) no
  | due | notDue | renew | renewing | dispatched | notDispatched | settled => exact absurd (col.scans_of_walked rfl) noRest
  | @scan best => exact absurd (by simp [Stride.frames]) (none best δ.board.clock)
  | update _ re _ =>
    have ch := (relength_changes re).2.2
    exact changed rfl (by simp) ch.life ch.cache fun e w => .inl (e ▸ w)
  | @stop _ _ i _ _ st =>
    have ch := (stop_changes st).2
    exact changed rfl (by simp) ch.life ch.cache fun e _ => .inr (by simp [Stride.frames, e])
  | @stamp i next _ st =>
    have ch := start_changes st
    have free : Act.settle i ∉ rest := fun m => noRest (col.tail.scans_of_mem m rfl)
    exact changed rfl (by simp) ch.life ch.cache fun _ _ => .inl (sound.layered.1.2 free)
  | @configured i _ _ _ _ conf =>
    have ch := Scheduler.configured conf
    obtain ⟨was, other⟩ := DueCache.soonest_forget.1 (ch.cache ▸ hc)
    refine keep rfl was (by simp) fun w => .inl ((waits_of_eq ?_).2 w)
    rw [ch.life, Function.update_of_ne other]
  | @forgotten i =>
    obtain ⟨was, other⟩ := DueCache.soonest_forget.1 hc
    exact keep rfl was (fun e => by cases e; exact other rfl) .inl
  | @noted i now σ n =>
    have noScan : ¬Scans (.locked (.noteArmed i now) :: rest) := by
      rw [scans_cons]
      simpa [Act.scans] using noRest
    obtain ⟨cache, ch⟩ := noteArmed_changes n
    have noted := DueCache.noteArmed_eq_ok cache
    have waits := waits_of_life ch.life
    change σ.cache.soonest = some c at hc
    generalize σ.cache = cache' at noted hc
    refine .inl ((waits c).2 ?_)
    cases noted with
    | sooner => cases hc; exact h.starting noScan c now List.mem_cons_self
    | @later j isSoonest other armed =>
      cases isSoonest.symm.trans hc
      exact sound.waits_of_armed noScan armed
    | alone => cases hc
  | @adopted best now σ left a =>
    obtain ⟨cache, ch⟩ := adopt_changes a
    obtain ⟨empty | ⟨k, is, -, waits⟩, -⟩ := DueCache.adopt_eq_ok cache (found best now rfl)
    · exact emptied empty.1
    · change σ.cache.soonest = some c at hc
      rw [is] at hc
      cases hc
      exact .inl ((waits_of_life ch.life c).2 waits)

end Leads

namespace View

/-- On the device, calls on the board change nothing that the scheduler goes on with. -/
def Quiet (v : View) : Prop := TimedTasks.Quiet v.scheduler v.acts

/-- Above interrupts there are only requests for the end of a session. -/
def Spared (v : View) : Prop := Guarded Act.ends v.acts

variable {v v' : View} {act : Act} {rest : List Act}

/-- What goes on after a call on the board lies below requests for the end of a session only. -/
theorem Spared.ends_of_resumes (h : v.Spared) (sound : v.Sound) (acts : v.acts = act :: rest) :
    ∀ b ∈ rest, b.resumes → act.ends := by
  have col : Column (act :: rest) := acts ▸ sound.column
  have g : Guarded Act.ends (act :: rest) := acts ▸ h
  intro b m resumes
  by_contra major
  rw [col.unresumed tame_ends g (by simpa using major) b m] at resumes
  cases resumes

/-- A step of a device whose interrupts only ask for the end leaves it quiet. -/
theorem Quiet.turn (h : v.Quiet) (cached : v.Cached) (sound : v.Sound) (spared : v.Spared) (t : Turn v v') :
    v'.Quiet := by
  cases t with
  | @works w act s _ rest acts l =>
    have h' : TimedTasks.Quiet v.scheduler (act :: rest) := acts ▸ h
    have sound' : TimedTasks.Sound v.scheduler (act :: rest) := acts ▸ sound
    have buried := spared.ends_of_resumes sound acts
    have found : ∀ best now, act = .locked (.adopt best now) → ∀ b, best = some b → v.scheduler.arena.Waits b := by
      rintro best now rfl
      exact (cached.adopting best now (acts ▸ List.mem_cons_self)).found
    have after : TimedTasks.Quiet s.scheduler (s.frames ++ rest) :=
      ⟨fun _ _ m => l.looking h' buried m, fun no _ _ m => l.starting h' sound' buried no m,
        fun no none _ hc => l.soonest h' sound' no none found hc⟩
    simpa [View.Quiet, take, scheduler] using after
  | @delivers ms act s _ rest acts l =>
    have h' : TimedTasks.Quiet v.scheduler (.deadline ms :: act :: rest) := acts ▸ h
    have after : TimedTasks.Quiet s.scheduler (s.frames ++ rest) := by
      cases l <;>
      · refine h'.congr rfl rfl (by simp [Stride.frames, Scans, Act.scans]) fun a ha => ?_
        rcases ha with ⟨i, timing, rfl⟩ | ⟨s, rfl⟩ <;> simp [Stride.frames]
    simpa [View.Quiet, take, scheduler] using after

/-- So does what happens between its steps. -/
theorem Quiet.shift (h : v.Quiet) (t : Shift v v') : v'.Quiet := by
  cases t with
  | @drops act _ rest acts drops =>
    have h' : TimedTasks.Quiet v.scheduler (act :: rest) := acts ▸ h
    refine h'.congr rfl rfl ?_ fun a ha => ?_
    · cases act <;> first | cases drops; done | simp [Scans, Act.scans]
    · rcases ha with ⟨i, timing, rfl⟩ | ⟨s, rfl⟩ <;> (cases act <;> first | cases drops; done | simp)
  | arrives self op =>
    refine TimedTasks.Quiet.congr h rfl rfl (by simp [Scans, Act.scans]) fun a ha => ?_
    rcases ha with ⟨i, timing, rfl⟩ | ⟨s, rfl⟩ <;> simp

theorem Fresh.quiet (h : v.Fresh) : v.Quiet := by
  obtain ⟨capacity, fresh⟩ := h.scheduler
  rw [View.Quiet, h.acts, fresh]
  exact ⟨fun i t m => (nomatch m), fun _ i n m => (nomatch m), fun _ _ c e => (nomatch e)⟩

/-- The word to the cache is undisturbed if nothing but requests for the end of a session comes between, and a round finds
the remembered task as it was. -/
theorem undisturbed_of_ends (silent : ∀ act rest, v.acts = act :: rest → ∀ b ∈ rest, b.tells → act.ends)
    (same : ∀ i timing rest, v.acts = .reading (.cached i timing) :: rest → v.scheduler.cache.soonest = some i →
      v.scheduler.arena.Waits i ∧ (v.scheduler.life i).timing = timing) : v.Undisturbed := by
  have buried : ∀ {act b : Act} {rest : List Act}, v.acts = act :: rest → b ∈ rest → b.tells → act.ends = false →
      False := fun acts m tells major => by
    rw [silent _ _ acts _ m tells] at major
    cases major
  refine ⟨fun i next rest now acts _ below => ?_, fun i now rest c acts _ _ _ _ _ starting => ?_,
    fun act rest best now i acts m touches => ?_, fun i n rest best now acts m => ?_,
    fun i timing rest acts soonest _ => same i timing rest acts soonest⟩
  · rcases below with ⟨j, m⟩ | ⟨best, m⟩
    · exact (buried acts m rfl rfl).elim
    · exact (buried acts m rfl rfl).elim
  · obtain ⟨a, m, announces⟩ := starting
    exact (buried acts m (Act.tells_of_announces announces) rfl).elim
  · exact (buried acts m rfl (Act.ends_of_touches touches)).elim
  · exact (buried acts m rfl rfl).elim

/-- Requests for the end of a session leave the word of starts and scans undisturbed. -/
theorem Quiet.undisturbed (h : v.Quiet) (sound : v.Sound) (spared : v.Spared) : v.Undisturbed :=
  undisturbed_of_ends
    (fun _ _ acts b m tells => spared.ends_of_resumes sound acts b m (Act.resumes_of_tells tells))
    fun i timing _ acts _ => h.looking i timing (acts ▸ List.mem_cons_self)

/-- A test of what `undisturbed_of_ends` asks for. -/
def silent (v : View) : Bool :=
  match v.acts with
  | [] => true
  | act :: rest => (act.ends || rest.all fun b => !b.tells) && act.sees v.scheduler

/-- Where nothing is in progress there is nothing to disturb. -/
theorem undisturbed_of_silent (h : v.silent) : v.Undisturbed := by
  have head : ∀ act rest, v.acts = act :: rest → (act.ends ∨ ∀ b ∈ rest, b.tells = false) ∧ act.sees v.scheduler := by
    intro act rest acts
    simpa [silent, acts] using h
  refine undisturbed_of_ends (fun act rest acts b m tells => ?_) fun i timing rest acts _ => ?_
  · refine (head act rest acts).1.resolve_right fun none => ?_
    rw [none b m] at tells
    cases tells
  · exact of_decide_eq_true (head _ rest acts).2

end View

theorem Op.calm_of_ends (op : Op) (h : op.ends) : op.calm := by
  cases op with
  | on e op => exact calm_of_ends op h
  | _ => first | rfl | cases h

namespace Moment

variable {P : Moment → Prop} {s : Setup} {y : Moment} {d : Nat} {v : View}

/-- Interrupts that only ask for the end of a session are calm. -/
theorem confined_calm_of_ends {stack : List Frame} (h : Confined Op.ends stack) : Confined Op.calm stack := by
  intro f m body mb
  rw [List.all_eq_true]
  intro op mo
  exact op.calm_of_ends (List.all_eq_true.1 (h f m body mb) op mo)

/-- In a run in which interrupts only ask for the end of sessions and no task gets too old, the cache stands for what it
should, and the remembered task waits. -/
theorem quiet (r : Run P (initial s) y) (ends : ∀ z, P z → Confined Op.ends z.machine.stack)
    (young : ∀ z v, P z → z.view d = some v → v.Young) (h : y.view d = some v) :
    v.Orderly ∧ v.Cached ∧ v.Quiet := by
  have calm : ∀ z, P z → Confined Op.calm z.machine.stack := fun z p => confined_calm_of_ends (ends z p)
  have known : ∀ z, Run P (initial s) z → ∀ v, z.view d = some v → v.Orderly ∧ v.Spared := fun z r v hv =>
    ⟨orderly r calm hv, guarded r tame_ends ends hv⟩
  refine ⟨orderly r calm h, ?_⟩
  exact view_of_run (I := fun v => v.Cached ∧ v.Quiet) (Q := fun v => v.Young ∧ v.Orderly ∧ v.Spared) (r.also known)
    (fun z v p hv => ⟨young z v p.1 hv, p.2 v hv⟩) (fun _ fresh => ⟨fresh.cached, fresh.quiet⟩)
    (fun _ _ h q t _ => ⟨h.1.turn q.2.1 q.1 (h.2.undisturbed q.2.1.sound q.2.2) t, h.2.turn h.1 q.2.1.sound q.2.2 t⟩)
    (fun _ _ h t => ⟨h.1.shift t, h.2.shift t⟩) h

end Moment

end TimedTasks
