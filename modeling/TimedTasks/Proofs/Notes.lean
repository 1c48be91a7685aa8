import TimedTasks.Proofs.Nearest

/-!
# The steps that the cache hears of

A start stamps its task, then tells the cache; a walk ends with a scan, which the cache adopts; a stop, an update and a
configuration make what is remembered obsolete. For each of these steps one lemma says that the cache goes on standing
for what it should (`Cached`), provided that interrupts leave it undisturbed.
-/

namespace TimedTasks

namespace DueCache

variable {c c' : DueCache} {a : Arena} {i : Nat} {now : UInt32}

/-- What a cache that was told of a start of slot `i` chooses from, compared with what it chose from before: nothing that
waits is given up without another slot that waits and has no more time left. -/
theorem Noted.covers (best : Option Nat) (noted : c.Noted a i now c')
    (waits : ∀ {j}, (a.life j).state.armed → a.Waits j) (present : a.Waits i) :
    (∃ k, c'.Member best k ∧ a.Waits k ∧ a.left now k ≤ a.left now i) ∧
    ∀ j, c.Member best j → a.Waits j → ∃ k, c'.Member best k ∧ a.Waits k ∧ a.left now k ≤ a.left now j := by
  cases noted with
  | @sooner j isSoonest other armed less =>
    refine ⟨⟨i, .inr (.inl rfl), present, UInt32.le_refl _⟩, fun k mk wk => ?_⟩
    rcases mk with is | is | is
    · exact ⟨k, .inl is, wk, UInt32.le_refl _⟩
    · rw [isSoonest] at is
      cases is
      exact ⟨i, .inr (.inl rfl), present, UInt32.le_of_lt less⟩
    · exact ⟨k, .inr (.inr is), wk, UInt32.le_refl _⟩
  | @later j isSoonest other armed notLess =>
    exact ⟨⟨j, .inr (.inl isSoonest), waits armed, UInt32.not_lt.1 notLess⟩, fun k mk wk => ⟨k, mk, wk, UInt32.le_refl _⟩⟩
  | @alone late unarmed latest =>
    -- The kept latecomer is the started slot, or has no more time left.
    have keep : a.Waits late ∧ a.left now late ≤ a.left now i := by
      cases latest with
      | new _ => exact ⟨present, UInt32.le_refl _⟩
      | old _ _ armed notLess => exact ⟨waits armed, UInt32.not_lt.1 notLess⟩
    refine ⟨⟨late, .inr (.inr rfl), keep⟩, fun k mk wk => ?_⟩
    rcases mk with is | is | is
    · exact ⟨k, .inl is, wk, UInt32.le_refl _⟩
    · have same : k = i := by
        by_contra other
        have armed := wk.armed
        rw [unarmed k is other] at armed
        cases armed
      exact ⟨late, .inr (.inr rfl), same ▸ keep⟩
    · cases latest with
      | new less =>
        by_cases same : k = i
        · exact ⟨i, .inr (.inr rfl), present, same ▸ UInt32.le_refl _⟩
        · exact ⟨i, .inr (.inr rfl), present, UInt32.le_of_lt (less k is same wk.armed)⟩
      | old isLate _ _ _ =>
        exact ⟨k, .inr (.inr (isLate.symm.trans is)), wk, UInt32.le_refl _⟩

end DueCache

namespace View

variable {v : View} {σ' : Scheduler} {past' : Chronicle} {rest : List Act} {i : Nat} {now : UInt32}

/-- Truncated differences that are in order stay in order as time passes. -/
theorem sub_le_sub_later {a b m n : Nat} (h : a - m ≤ b - m) (le : m ≤ n) : a - n ≤ b - n := by omega

/-- A start stamps its task. -/
theorem Cached.stamp {next : TaskState} {call : BoardCall} {bodies : List (List Op)}
    (h : v.Cached) (o : v.Orderly) (u : v.Undisturbed)
    (acts : v.acts = .reading (.start i next) :: rest) (noScan : ¬Scans v.acts)
    (c : Scheduler.Changes v.scheduler σ' (Function.update v.scheduler.life i ((v.scheduler.life i).start next v.clock))
      v.scheduler.cache)
    (time : v.past.time ≤ past'.time) (read : past'.read = v.past.read)
    (stamp : past'.stamp = Function.update v.past.stamp i v.past.time) :
    TimedTasks.Cached σ' past' (.interrupts call bodies :: .locked (.noteArmed i v.clock) :: rest) := by
  have noRest : ¬Scans rest := fun s => noScan (acts ▸ scans_cons.2 (.inr s))
  have col : Column (.reading (.start i next) :: rest) := acts ▸ o.sound.column
  -- All that waits to be told to the cache was read off the clock just now.
  have readAt : past'.ReadAt v.clock v.past.time := by
    refine ⟨time, o.timed.clock, fun j => ?_⟩
    rw [stamp]
    by_cases e : j = i
    · simp [e]
    · rw [Function.update_of_ne e]; exact o.timed.stamp_le j
  have current := fun n => u.current i next rest n acts noScan
  have lifeOther : ∀ j, j ≠ i → σ'.life j = v.scheduler.life j := fun j e => by rw [c.life, Function.update_of_ne e]
  have dueOther : ∀ j, j ≠ i → past'.due σ' j = v.past.due v.scheduler j := fun j e => by
    rw [Chronicle.due, Chronicle.due, stamp, Function.update_of_ne e, lifeOther j e]
  have was : ∀ j, Settled σ' (.interrupts call bodies :: .locked (.noteArmed i v.clock) :: rest) j →
      j ≠ i ∧ Settled v.scheduler v.acts j := by
    rintro j ⟨waits, quiet⟩
    rw [starting_cons, starting_cons, not_or, not_or] at quiet
    have e : j ≠ i := fun e => quiet.2.1 (e ▸ rfl)
    refine ⟨e, ?_, ?_⟩
    · show (v.scheduler.life j).state = .active
      rw [← lifeOther j e]
      exact waits
    · rw [acts, starting_cons, not_or]
      exact ⟨fun a => e (Option.some.inj a).symm, quiet.2.2⟩
  refine ⟨fun _ noAdopt d hd sd j sj => ?_, fun _ j n m => ?_, fun best n m => ?_, ?_⟩
  · have noAdopt' : ∀ best n, .locked (.adopt best n) ∉ v.acts := by
      intro best n m
      rw [acts, List.mem_cons] at m
      rcases m with m | m
      · cases m
      · exact noAdopt best n (by simp [m])
    obtain ⟨ed, sd⟩ := was d sd
    obtain ⟨ej, sj⟩ := was j sj
    rw [dueOther d ed, dueOther j ej]
    exact sub_le_sub_later (h.soonest noScan noAdopt' d (c.cache ▸ hd) sd j sj) time
  · simp only [List.mem_cons, Act.locked.injEq, Section.noteArmed.injEq, reduceCtorEq, false_or] at m
    rcases m with ⟨-, rfl⟩ | m
    · exact ⟨_, readAt⟩
    · exact ⟨_, current n (.inl ⟨j, m⟩) ▸ readAt⟩
  · simp only [List.mem_cons, Act.locked.injEq, reduceCtorEq, false_or] at m
    have a := h.adopting best n (acts ▸ List.mem_cons_of_mem _ m)
    have reading : n = v.clock := current n (.inr ⟨best, m⟩)
    have spared : ∀ j, v.scheduler.cache.Member best j → v.scheduler.arena.Waits j → j ≠ i := fun j mj wj e =>
      u.spared _ rest best n i acts m rfl (e ▸ wj) (e ▸ mj)
    obtain ⟨then', r, covered⟩ := a.covered
    have waitsOther : ∀ j, j ≠ i → v.scheduler.arena.Waits j → σ'.arena.Waits j := fun j e w => by
      show (σ'.life j).state = .active
      rw [lifeOther j e]
      exact w
    refine ⟨read.trans a.read, fun b e => ?_, ⟨v.past.time, reading ▸ readAt, fun j sj => ?_⟩, fun j n' m' => ?_⟩
    · exact waitsOther b (spared b (.inl e) (a.found b e)) (a.found b e)
    · obtain ⟨ej, sj⟩ := was j sj
      obtain ⟨k, mk, wk, le⟩ := covered j sj
      have ek := spared k mk wk
      refine ⟨k, c.cache ▸ mk, waitsOther k ek wk, ?_⟩
      rw [dueOther k ek, dueOther j ej]
      exact sub_le_sub_later le r.le
    · simp only [List.mem_cons, Act.locked.injEq, Section.noteArmed.injEq, reduceCtorEq, false_or] at m'
      rcases m' with ⟨-, rfl⟩ | m'
      · exact reading.symm
      · exact a.noted j n' (acts ▸ List.mem_cons_of_mem _ m')
  · intro ms told
    simp only [List.mem_cons, reduceCtorEq, false_or] at told
    exact absurd told fun t => t.elim (col.no_result.1 ms) (col.no_result.2 _)

/-- What a cache that was told of a start of task `i` chooses from, compared with what it chose from before. -/
theorem covered_of_noted (best : Option Nat) {then' : Nat} {cache : DueCache} (o : v.Orderly) (young : v.Young)
    (noScan : ¬Scans v.acts) (r : v.past.ReadAt now then') (present : v.scheduler.arena.Waits i)
    (noted : v.scheduler.cache.Noted v.scheduler.arena i now cache) :
    (∃ k, cache.Member best k ∧ v.scheduler.arena.Waits k ∧
      v.past.due v.scheduler k - then' ≤ v.past.due v.scheduler i - then') ∧
    ∀ j, v.scheduler.cache.Member best j → v.scheduler.arena.Waits j → ∃ k, cache.Member best k ∧
      v.scheduler.arena.Waits k ∧ v.past.due v.scheduler k - then' ≤ v.past.due v.scheduler j - then' := by
  obtain ⟨⟨k, mk, wk, le⟩, kept⟩ := noted.covers best (fun armed => o.sound.waits_of_armed noScan armed) present
  refine ⟨⟨k, mk, wk, (o.timed.left_le_iff young r wk present).1 le⟩, fun j mj wj => ?_⟩
  obtain ⟨k, mk, wk, le⟩ := kept j mj wj
  exact ⟨k, mk, wk, (o.timed.left_le_iff young r wk wj).1 le⟩

/-- The cache is told of a start. -/
theorem Cached.told_start (h : v.Cached) (o : v.Orderly) (young : v.Young)
    (u : v.Undisturbed) (acts : v.acts = .locked (.noteArmed i now) :: rest) (noScan : ¬Scans v.acts)
    (note : v.scheduler.noteArmed i now = .ok σ') (time : v.past.time ≤ past'.time) (read : past'.read = v.past.read)
    (stamp : past'.stamp = v.past.stamp) : TimedTasks.Cached σ' past' (.answered .done :: rest) := by
  obtain ⟨cache, c⟩ := Scheduler.noteArmed_changes note
  have noted := DueCache.noteArmed_eq_ok cache
  have col : Column (.locked (.noteArmed i now) :: rest) := acts ▸ o.sound.column
  obtain ⟨then', r⟩ := h.noted noScan i now (acts ▸ List.mem_cons_self)
  have waits := waits_of_life c.life
  have due : ∀ j, past'.due σ' j = v.past.due v.scheduler j := fun j => by
    rw [Chronicle.due, Chronicle.due, stamp, c.life]
  have readAt : ∀ {n t}, v.past.ReadAt n t → past'.ReadAt n t := fun r =>
    ⟨Nat.le_trans r.le time, r.clock, stamp ▸ r.stamped⟩
  have was : ∀ j, Settled σ' (.answered .done :: rest) j →
      v.scheduler.arena.Waits j ∧ (j ≠ i → Settled v.scheduler v.acts j) := by
    rintro j ⟨wj, quiet⟩
    rw [waits j] at wj
    rw [starting_cons, not_or] at quiet
    refine ⟨wj, fun e => ⟨wj, ?_⟩⟩
    rw [acts, starting_cons, not_or]
    exact ⟨fun a => e (Option.some.inj a).symm, quiet.2⟩
  have before : ∀ {a : Act}, a ∈ .answered .done :: rest → a ≠ .answered .done → a ∈ v.acts := fun m e => by
    rw [acts]
    exact List.mem_cons_of_mem _ ((List.mem_cons.1 m).resolve_left e)
  refine ⟨fun _ noAdopt d hd sd j sj => ?_, fun _ j n m => ?_, fun best n m => ?_, fun ms told => ?_⟩
  · have noAdopt : ∀ best n, .locked (.adopt best n) ∉ rest := fun best n m =>
      noAdopt best n (List.mem_cons_of_mem _ m)
    have old := h.soonest noScan fun best n m => by
      rw [acts, List.mem_cons] at m
      exact m.elim (by simp) (noAdopt best n)
    obtain ⟨wj, sj⟩ := was j sj
    rw [due d, due j]
    generalize σ'.cache = cache' at noted hd
    cases noted with
    | @sooner k isSoonest other armed less =>
      cases hd
      by_cases own : j = i
      · exact own ▸ Nat.le_refl _
      · have wk := o.sound.waits_of_armed noScan armed
        have settled : Settled v.scheduler v.acts k := by
          refine ⟨wk, ?_⟩
          rw [acts, starting_cons, not_or]
          refine ⟨fun a => other (Option.some.inj a).symm, fun begun => ?_⟩
          exact u.patient i now rest k acts noScan noAdopt isSoonest other wk begun less
        rw [o.timed.left_lt_iff young r (was i sd).1 wk] at less
        refine sub_le_sub_later ?_ time
        exact Nat.le_trans (sub_le_sub_later (Nat.le_of_lt less) r.le) (old k isSoonest settled j (sj own))
    | @later k isSoonest other armed notLess =>
      cases isSoonest.symm.trans hd
      refine sub_le_sub_later ?_ time
      by_cases own : j = i
      · subst own
        rw [o.timed.left_lt_iff young r wj (o.sound.waits_of_armed noScan armed), Nat.not_lt] at notLess
        exact sub_le_sub_later notLess r.le
      · exact old d hd ((was d sd).2 other) j (sj own)
    | alone => cases hd
  · obtain ⟨then', r⟩ := h.noted noScan j n (before m Act.noConfusion)
    exact ⟨then', readAt r⟩
  · have m' := (List.mem_cons.1 m).resolve_left Act.noConfusion
    have a := h.adopting best n (before m Act.noConfusion)
    have same : now = n := a.noted i now (acts ▸ List.mem_cons_self)
    subst same
    obtain ⟨then', r, covered⟩ := a.covered
    obtain ⟨own, others⟩ := covered_of_noted best o young noScan r (u.present i now rest best now acts m') noted
    refine ⟨read.trans a.read, fun b e => (waits b).2 (a.found b e), ⟨then', readAt r, fun j sj => ?_⟩,
      fun j n m => a.noted j n (before m Act.noConfusion)⟩
    suffices found : ∃ k, σ'.cache.Member best k ∧ v.scheduler.arena.Waits k ∧
        v.past.due v.scheduler k - then' ≤ v.past.due v.scheduler j - then' by
      obtain ⟨k, mk, wk, le⟩ := found
      exact ⟨k, mk, (waits k).2 wk, by rw [due k, due j]; exact le⟩
    by_cases e : j = i
    · exact e ▸ own
    · obtain ⟨k, mk, wk, le⟩ := covered j ((was j sj).2 e)
      obtain ⟨k', mk', wk', le'⟩ := others k mk wk
      exact ⟨k', mk', wk', Nat.le_trans le' le⟩
  · simp only [List.mem_cons, Act.answered.injEq, reduceCtorEq, false_or] at told
    exact absurd told fun t => t.elim (col.no_result.1 ms) (col.no_result.2 _)

/-- A round scans the queue. What it finds is due first of all that waits. -/
theorem Cached.of_scan {best : Option Nat} {call : BoardCall} {bodies : List (List Op)} (o : v.Orderly)
    (young : v.Young) (acts : v.acts = .reading .scan :: rest) (scan : v.scheduler.scan v.clock = .ok best)
    (time : v.past.time ≤ past'.time) (read : past'.read = v.clock) (stamp : past'.stamp = v.past.stamp) :
    TimedTasks.Cached v.scheduler past' (.interrupts call bodies :: .locked (.adopt best v.clock) :: rest) := by
  obtain ⟨-, noNote, noAdopt⟩ := o.alone acts rfl
  have col : Column (.reading .scan :: rest) := acts ▸ o.sound.column
  obtain ⟨l, holds, mem⟩ := o.linked.queue
  obtain ⟨found, least⟩ := Scheduler.scan_eq_ok scan (Queue.members_of_holds holds)
  refine ⟨fun _ no => absurd (by simp) (no best v.clock), fun _ i n m => ?_, fun best' n m => ?_, fun ms told => ?_⟩
  · simp only [List.mem_cons, Act.locked.injEq, reduceCtorEq, false_or] at m
    exact absurd m (noNote i n)
  · simp only [List.mem_cons, Act.locked.injEq, Section.adopt.injEq, reduceCtorEq, false_or] at m
    obtain ⟨rfl, rfl⟩ := m.resolve_right (noAdopt best' n)
    refine ⟨read, found, ⟨v.past.time, ⟨time, o.timed.clock, fun i => stamp ▸ o.timed.stamp_le i⟩, fun i si => ?_⟩,
      fun i n m => ?_⟩
    · have queued : i ∈ l := (mem i).2 fun u => by
        have wi : (v.scheduler.life i).state = .active := si.1
        rw [u] at wi
        cases wi
      obtain ⟨b, is, le⟩ := least i queued si.1
      rw [o.timed.left_le_iff young o.timed.readAt (found b is) si.1] at le
      exact ⟨b, .inl is, found b is, by rw [Chronicle.due, Chronicle.due, stamp]; exact le⟩
    · simp only [List.mem_cons, Act.locked.injEq, reduceCtorEq, false_or] at m
      exact absurd m (noNote i n)
  · simp only [List.mem_cons, reduceCtorEq, false_or] at told
    exact absurd told fun t => t.elim (col.no_result.1 ms) (col.no_result.2 _)

/-- The result of a scan is adopted. -/
theorem Cached.of_adopt {best : Option Nat} {left : Option UInt32} (h : v.Cached)
    (o : v.Orderly) (young : v.Young) (acts : v.acts = .locked (.adopt best now) :: rest)
    (adopt : v.scheduler.adopt best now = .ok (σ', left)) (time : v.past.time ≤ past'.time)
    (read : past'.read = v.past.read) (stamp : past'.stamp = v.past.stamp) :
    TimedTasks.Cached σ' past' (.deadline left :: rest) := by
  obtain ⟨noStart, noNote, noAdopt⟩ := o.alone acts rfl
  have col : Column (.locked (.adopt best now) :: rest) := acts ▸ o.sound.column
  obtain ⟨cache, c⟩ := Scheduler.adopt_changes adopt
  have a := h.adopting best now (acts ▸ List.mem_cons_self)
  obtain ⟨result, least⟩ := DueCache.adopt_eq_ok cache a.found
  obtain ⟨then', r, covered⟩ := a.covered
  have waits := waits_of_life c.life
  -- Whatever waits, the adopted task has no more time left.
  have first : ∀ i, v.scheduler.arena.Waits i → ∃ k, σ'.cache.soonest = some k ∧
      ∃ j, v.scheduler.arena.Waits j ∧ v.scheduler.arena.left now k ≤ v.scheduler.arena.left now j ∧
        v.past.due v.scheduler j - then' ≤ v.past.due v.scheduler i - then' := by
    intro i wi
    have si : Settled v.scheduler v.acts i := by
      refine ⟨wi, ?_⟩
      rw [acts, starting_cons, not_or]
      exact ⟨(fun e => nomatch e), noStart i⟩
    obtain ⟨j, mj, wj, le⟩ := covered i si
    obtain ⟨k, hk, le'⟩ := least j (mj.imp id fun m => ⟨m, wj⟩)
    exact ⟨k, hk, j, wj, le', le⟩
  refine ⟨fun _ _ d hd sd i si => ?_, fun _ i n m => ?_, fun best' n m => ?_, fun ms told => ?_⟩
  · obtain ⟨k, hk, j, wj, le, le'⟩ := first i ((waits i).1 si.1)
    cases hk.symm.trans hd
    rw [o.timed.left_le_iff young r ((waits d).1 sd.1) wj] at le
    rw [Chronicle.due, Chronicle.due, stamp, c.life]
    exact sub_le_sub_later (Nat.le_trans le le') (Nat.le_trans r.le time)
  · exact absurd ((List.mem_cons.1 m).resolve_left Act.noConfusion) (noNote i n)
  · exact absurd ((List.mem_cons.1 m).resolve_left Act.noConfusion) (noAdopt best' n)
  · have is : ms = left := by
      simp only [List.mem_cons, Act.deadline.injEq, reduceCtorEq, false_or] at told
      rcases told with (is | t) | t
      · exact is
      · exact absurd t (col.no_result.1 ms)
      · exact absurd t (col.no_result.2 _)
    subst is
    rw [read, a.read]
    suffices here : v.scheduler.LeastLeft now ms from here.of_life c.life
    rcases result with ⟨empty, rfl⟩ | ⟨k, is, rfl, wk⟩
    · intro i wi
      obtain ⟨k, hk, -⟩ := first i wi
      rw [empty] at hk
      cases hk
    · refine ⟨⟨k, wk, rfl⟩, fun i wi => ?_⟩
      obtain ⟨k', hk', j, wj, le, le'⟩ := first i wi
      rw [is] at hk'
      cases hk'
      exact UInt32.le_trans le ((o.timed.left_le_iff young r wj wi).2 le')

/-- A round decides to wait for the remembered task. -/
theorem Cached.of_wait {timing : Interval} (h : v.Cached) (o : v.Orderly) (young : v.Young)
    (u : v.Undisturbed) (acts : v.acts = .reading (.cached i timing) :: rest) (noScan : ¬Scans v.acts)
    (soonest : v.scheduler.cache.soonest = some i) (early : 0 < timing.remaining v.clock)
    (time : v.past.time ≤ past'.time) (read : past'.read = v.clock) (stamp : past'.stamp = v.past.stamp) :
    TimedTasks.Cached v.scheduler past' (.deadline (some (timing.remaining v.clock)) :: rest) := by
  obtain ⟨noStart, noNote, noAdopt⟩ := o.alone acts rfl
  have col : Column (.reading (.cached i timing) :: rest) := acts ▸ o.sound.column
  obtain ⟨wi, same⟩ := u.same i timing rest acts soonest early
  have old : ∀ j, v.scheduler.arena.Waits j →
      v.past.due v.scheduler i - v.past.time ≤ v.past.due v.scheduler j - v.past.time := by
    have settled : ∀ j, v.scheduler.arena.Waits j → Settled v.scheduler v.acts j := fun j wj => by
      refine ⟨wj, ?_⟩
      rw [acts, starting_cons, not_or]
      exact ⟨(fun e => nomatch e), noStart j⟩
    refine fun j wj => h.soonest noScan (fun best n m => ?_) i soonest (settled i wi) j (settled j wj)
    rw [acts, List.mem_cons] at m
    exact m.elim Act.noConfusion (noAdopt best n)
  refine ⟨fun _ _ d hd sd j sj => ?_, fun _ j n m => ?_, fun best n m => ?_, fun ms told => ?_⟩
  · cases soonest.symm.trans hd
    rw [Chronicle.due, Chronicle.due, stamp]
    exact sub_le_sub_later (old j sj.1) time
  · exact absurd ((List.mem_cons.1 m).resolve_left Act.noConfusion) (noNote j n)
  · exact absurd ((List.mem_cons.1 m).resolve_left Act.noConfusion) (noAdopt best n)
  · have is : ms = some (timing.remaining v.clock) := by
      simp only [List.mem_cons, Act.deadline.injEq, reduceCtorEq, false_or] at told
      rcases told with (is | t) | t
      · exact is
      · exact absurd t (col.no_result.1 ms)
      · exact absurd t (col.no_result.2 _)
    subst is
    rw [read, ← same]
    exact ⟨⟨i, wi, rfl⟩, fun j wj => (o.timed.left_le_iff young o.timed.readAt wi wj).2 (old j wj)⟩

end View

end TimedTasks
