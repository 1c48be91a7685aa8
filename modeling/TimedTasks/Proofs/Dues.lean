import TimedTasks.Proofs.Deadline
import TimedTasks.Proofs.Rounds
import TimedTasks.Proofs.Tours

/-!
# A round runs what is due

A round that is asked for when a task is due runs the task, unless a handler that the round runs stops the task before, or
configures, starts or updates it. And it runs nothing else: each task that it runs was found to be due
(`Moment.round_runs_due`).

Both are said of the book of a round (`View.enter`), in which it is written down what the round finds to be due, whose handlers
it invokes, and whom these handlers start and change. That no entry is without grounds is `View.Honest`. That nothing is left
out goes by the place where the round stands: from there it comes to each task that was due when the round began and that the
book does not name (`View.Owes`), and from the end of the round it comes to none.
-/

namespace TimedTasks

instance (past : Chronicle) (σ : Scheduler) (i : Nat) : Decidable (past.Ripe σ i) :=
  inferInstanceAs (Decidable (_ ∧ _))

/-- What is written down of a round. -/
inductive Entry
  /-- The round read the clock for task `i`, which waited then and was due. -/
  | due (i : Nat)
  /-- The handler of task `i` was invoked. -/
  | fired (i : Nat)
  /-- The handler of task `j` started task `i`, by a start or an update. -/
  | started (j i : Nat)
  /-- The handler of task `j` stopped or configured task `i`, or gave it an interval. -/
  | changed (j i : Nat)
  deriving DecidableEq

namespace Act

/-- The task whose handler runs above the act. -/
def hosts : Act → Option Nat
  | settle i => some i
  | _ => none

/-- The task that the round is to run, as soon as the act goes on. -/
def carries : Act → Option Nat
  | dispatch i | reading (.renew i) | locked (.fetch i) => some i
  | _ => none

theorem carries_of_asks {r : Reading} (h : r.asks) : (reading r).carries = none := by
  cases r <;> first | rfl | cases h

theorem carries_of_op {σ : Scheduler} {self : Option Nat} {op : Op} {s : Section} (h : op.Asks σ self s) :
    (locked s).carries = none := by
  cases h <;> rfl

/-- From there the round comes to task `i`, or it is there. -/
inductive Reaches (roster : List Nat) (i : Nat) : Act → Prop
  | begins : Reaches roster i checkCache
  | remembers {j timing} : Reaches roster i (reading (.cached j timing))
  | survey {skip} : skip ≠ some i → Reaches roster i (survey skip)
  | ahead {skip k} : skip ≠ some i → roster.idxOf k ≤ roster.idxOf i → Reaches roster i (walking skip (some k))
  | looks {timing} : Reaches roster i (reading (.due i timing))
  | carried {a} : a.carries = some i → Reaches roster i a

namespace Reaches

variable {roster : List Nat} {i : Nat} {a : Act}

/-- Tasks that come to the end of the queue are behind those that are on it. -/
theorem append (h : a.Reaches roster i) (m : i ∈ roster) (more : List Nat) : a.Reaches (roster ++ more) i := by
  cases h with
  | @ahead skip k other before =>
    have here : k ∈ roster := List.idxOf_lt_length_iff.1 (Nat.lt_of_le_of_lt before (List.idxOf_lt_length_iff.2 m))
    refine .ahead other ?_
    rw [List.idxOf_append_of_mem m, List.idxOf_append_of_mem here]
    exact before
  | begins => exact .begins
  | remembers => exact .remembers
  | survey other => exact .survey other
  | looks => exact .looks
  | carried c => exact .carried c

/-- It is neither what handlers and interrupts do, nor the end of a round. -/
theorem part (h : a.Reaches roster i) : a.rests = false ∨ a.turns := by
  cases h with
  | begins | remembers => exact .inr rfl
  | survey | ahead | looks => exact .inl rfl
  | carried c =>
    refine .inl ?_
    cases a with
    | reading r => cases r <;> first | rfl | cases c
    | locked s => cases s <;> first | rfl | cases c
    | _ => first | rfl | cases c

theorem not_idle (h : a.Reaches roster i) (rests : a.rests) (turns : a.turns = false) : False := by
  rcases h.part with part | part
  · rw [rests] at part
    cases part
  · rw [turns] at part
    cases part

theorem major (h : a.Reaches roster i) : a.ends = false := by
  cases h with
  | carried c =>
    cases a with
    | locked s => cases s <;> first | rfl | cases c
    | _ => first | rfl | cases c
  | _ => rfl

end Reaches

end Act

/-- The task that an operation is about, if it is configured. -/
def Scheduler.target (σ : Scheduler) (self : Option Nat) (task : TaskRef) : Option Nat :=
  match task.resolve self with
  | .ok i => if (σ.life i).state = .uninit then none else some i
  | .error _ => none

namespace View

/-- The task whose handler is in progress on the device. -/
def handler (v : View) : Option Nat := v.acts.findSome? Act.hosts

/-- What is to be written down of an act of the device. -/
def entry (v : View) : Act → Option Entry
  | .reading (.cached i _) | .reading (.due i _) => if v.past.Ripe v.scheduler i then some (.due i) else none
  | .locked (.fetch i) => (v.scheduler.invokes (.locked (.fetch i))).map .fired
  | .reading (.start i _) => v.handler.map (.started · i)
  | .perform self (.stop task) | .perform self (.update task _) =>
    v.handler.bind fun j => (v.scheduler.target self task).map (.changed j)
  | .locked (.configure i ..) => if (v.scheduler.life i).state.inHandler then none else v.handler.map (.changed · i)
  | _ => none

/-- The book of a round, oldest entry first, once the device took its next step. -/
def enter (v : View) (book : List Entry) : List Entry := book ++ (v.acts.head?.bind v.entry).toList

variable {v v' : View} {act : Act} {rest : List Act} {book : List Entry} {i j : Nat}

theorem enter_cons (acts : v.acts = act :: rest) : v.enter book = book ++ (v.entry act).toList := by
  rw [enter, acts]
  rfl

theorem mem_enter_of_entry {e : Entry} (acts : v.acts = act :: rest) (h : v.entry act = some e) : e ∈ v.enter book := by
  rw [enter_cons acts, h]
  simp

theorem mem_enter {e : Entry} (m : e ∈ book) : e ∈ v.enter book := List.mem_append_left _ m

/-- The book tells whose handlers are invoked. -/
theorem count_entry : (v.entry act).toList.count (.fired i) = (v.scheduler.invokes act).toList.count i := by
  cases act with
  | locked s =>
    cases s with
    | fetch k =>
      rw [entry]
      cases v.scheduler.invokes (.locked (.fetch k)) with
      | none => rfl
      | some k => simp [List.count_singleton]
    | configure =>
      rw [entry]
      split
      · rfl
      · cases v.handler <;> rfl
    | _ => rfl
  | reading r =>
    cases r with
    | cached | due =>
      rw [entry]
      split <;> rfl
    | start => rw [entry]; cases v.handler <;> rfl
    | _ => rfl
  | perform self op =>
    cases op with
    | stop task | update task =>
      rw [entry]
      cases v.handler with
      | none => rfl
      | some j => cases v.scheduler.target self task <;> rfl
    | _ => rfl
  | _ => rfl

theorem settle_of_handler (h : v.handler = some j) : .settle j ∈ v.acts := by
  obtain ⟨a, m, hosts⟩ := List.exists_of_findSome?_eq_some h
  cases a <;> cases hosts
  exact m

/-- Nothing is written down of acts that are dropped, and of those that wait. -/
theorem enter_of_waits (idle : ∀ act ∈ v.acts.head?, act.waits) : v.enter book = book := by
  rw [enter]
  cases acts : v.acts with
  | nil => simp
  | cons act rest =>
    have waits : act.waits := idle act (by rw [acts]; rfl)
    cases act with
    | perform self op => cases op <;> first | cases waits; done | simp [entry]
    | _ => first | cases waits; done | simp [entry]

end View

/-! ## Whose handler it is -/

/-- Where an operation is in progress while a round is, and no call on the board is below it, there is a handler that asked for
it. -/
theorem Column.hosted {act : Act} {rest : List Act} (h : Column (act :: rest)) (lay : Layered (act :: rest))
    (asked : ∀ b, act.Sits b → b.takesAnswer) (free : ∀ b ∈ rest, b.resumes = false) (busy : .round ∈ rest) :
    ∃ j, .settle j ∈ rest := by
  match rest, h, lay, free, busy with
  | [b], h, _, _, busy =>
    cases List.mem_singleton.1 busy
    cases asked _ h.1
  | b :: c :: rest, h, lay, free, busy =>
    have answered : b.takesAnswer := asked b h.1
    have sits : b.Sits c := h.2.1
    cases b with
    | discard =>
      obtain ⟨j, rfl⟩ := sits
      exact ⟨j, by simp⟩
    | report =>
      obtain ⟨self, ops, rfl⟩ := sits
      match rest, h, lay, free, busy with
      | [], h, _, _, _ => cases h.2.2
      | e :: rest, h, lay, free, busy =>
        have sits : (Act.block self ops).Sits e := h.2.2.1
        rcases sits with ⟨call, bodies, rfl⟩ | ⟨j, k, p, rfl⟩ | rfl
        · match rest, h, free with
          | [], h, _ => cases h.2.2.2
          | g :: rest, h, free =>
            have resumes : g.resumes := h.2.2.2.1
            rw [free g (by simp)] at resumes
            cases resumes
        · match rest, h with
          | [], h => cases h.2.2.2
          | g :: rest, h =>
            have same : g = .settle j := h.2.2.2.1
            exact ⟨j, by simp [same]⟩
        · -- Below a run of rounds, no round is in progress.
          have none : .round ∉ rest := lay.2.2.2.1
          simp [none] at busy
    | _ => cases answered

/-- The next slot behind one that is before `i` is not behind `i`. -/
theorem Chain.next_of_idxOf_lt {link : Nat → Option (Option Nat)} {c next : Option Nat} {l : List Nat} {i k : Nat}
    (h : Chain link c l) (nodup : l.Nodup) (m : i ∈ l) (before : l.idxOf k < l.idxOf i) (found : link k = some next) :
    ∃ k', next = some k' ∧ l.idxOf k' ≤ l.idxOf i := by
  induction l generalizing c with
  | nil => cases m
  | cons j l ih =>
    obtain ⟨-, next', found', h⟩ := h
    obtain ⟨out, nodup⟩ := List.nodup_cons.1 nodup
    have later : j ≠ i := fun same => by simp [same] at before
    have mem : i ∈ l := (List.mem_cons.1 m).resolve_left later.symm
    rw [List.idxOf_cons_ne _ later] at before ⊢
    by_cases here : j = k
    · subst here
      cases found'.symm.trans found
      cases l with
      | nil => cases mem
      | cons k' l =>
        cases h.1
        have other : j ≠ k' := fun same => out (same ▸ List.mem_cons_self)
        refine ⟨k', rfl, ?_⟩
        rw [List.idxOf_cons_ne _ other, List.idxOf_cons_self]
        exact Nat.succ_le_succ (Nat.zero_le _)
    · rw [List.idxOf_cons_ne _ here] at before
      obtain ⟨k', rfl, le⟩ := ih h nodup mem (Nat.lt_of_succ_lt_succ before)
      refine ⟨k', rfl, ?_⟩
      by_cases same : j = k'
      · simp [same]
      · rw [List.idxOf_cons_ne _ same]
        exact Nat.succ_le_succ le

/-! ## What a round relies on -/

namespace View

/-- What a round relies on while it is in progress, if no task gets too old and interrupts ask for nothing but the end of
sessions. -/
structure Reliable (v : View) : Prop where
  orderly : v.Orderly
  cached : v.Cached
  quiet : v.Quiet
  spared : v.Spared
  young : v.Young
  ordered : v.Ordered
  busy : .round ∈ v.acts

namespace Reliable

variable {v v' : View} {w : World} {act : Act} {s : Stride} {rest : List Act} {i j : Nat}

theorem sound (h : v.Reliable) (acts : v.acts = act :: rest) : TimedTasks.Sound v.scheduler (act :: rest) :=
  acts ▸ h.orderly.sound

/-- Calls on the board wait for nothing but requests for the end of a session. -/
theorem unresumed (h : v.Reliable) (acts : v.acts = act :: rest) (major : act.ends = false) :
    ∀ b ∈ rest, b.resumes = false := fun b m => Bool.eq_false_iff.2 fun resumes => by
  rw [h.spared.ends_of_resumes h.orderly.sound acts b m resumes] at major
  cases major

/-- The round is below all that works on the device. -/
theorem below (h : v.Reliable) (acts : v.acts = act :: rest) (l : Leads w v.device act s) : .round ∈ rest := by
  have busy := h.busy
  rw [acts] at busy
  refine (List.mem_cons.1 busy).resolve_left ?_
  rintro rfl
  cases l

/-- An operation on a task was asked for by a handler. -/
theorem hosted (h : v.Reliable) (acts : v.acts = act :: rest) (l : Leads w v.device act s) (major : act.ends = false)
    (asked : ∀ b, act.Sits b → b.takesAnswer) : ∃ j, v.handler = some j := by
  have sound := h.sound acts
  obtain ⟨j, m⟩ := sound.column.hosted sound.layered asked (h.unresumed acts major) (h.below acts l)
  refine Option.isSome_iff_exists.1 (List.findSome?_isSome_iff.2 ⟨_, ?_, show (Act.hosts (.settle j)).isSome from rfl⟩)
  rw [acts]
  exact List.mem_cons_of_mem _ m

/-- The queue holds the configured tasks. -/
theorem mem_roster (h : v.Reliable) : i ∈ v.roster ↔ (v.scheduler.life i).state ≠ .uninit := by
  obtain ⟨l, holds, mem⟩ := h.orderly.linked.queue
  have same : v.roster = l := by
    rw [roster, Scheduler.queued, Queue.members_of_holds holds]
    rfl
  rw [same]
  exact mem i

theorem state_of_ripe (ripe : v.past.Ripe v.scheduler i) : (v.scheduler.life i).state = .active := ripe.1

/-- A handler that is to be invoked is there. -/
theorem entry_fetch (h : v.Reliable) (m : .locked (.fetch i) ∈ v.acts) : v.entry (.locked (.fetch i)) = some (.fired i) := by
  have busy := (h.orderly.sound.handling i).2 (h.orderly.sound.column.settle_of_fetch m)
  have handler := h.orderly.linked.handled i fun idle => by
    rw [idle] at busy
    cases busy
  rw [entry, Scheduler.invokes, if_pos handler]
  rfl

/-- A round does not wait for the task that the cache remembers while another one is due. -/
theorem remaining_of_remembered {timing : Interval} (h : v.Reliable) (acts : v.acts = .reading (.cached j timing) :: rest)
    (soonest : v.scheduler.cache.soonest = some j) (ripe : v.past.Ripe v.scheduler i) : timing.remaining v.clock = 0 := by
  have sound := h.sound acts
  have still := Sound.turns_head_of sound.column sound.layered rfl
  have none : ¬Scans v.acts := by
    rw [acts, scans_cons]
    rintro (here | below)
    · cases here
    · exact not_scans_of_no_turns still below
  have noAdopt : ∀ best now, .locked (.adopt best now) ∉ v.acts := fun best now m => by
    rw [acts] at m
    have idle := still _ ((List.mem_cons.1 m).resolve_left nofun)
    cases idle
  have noStart : ∀ k, ¬Starting v.acts k := fun k => by
    rw [acts, starting_cons]
    rintro (here | ⟨a, m, announces⟩)
    · cases here
    · have resumes := Act.resumes_of_tells (Act.tells_of_announces announces)
      rw [h.unresumed acts rfl a m] at resumes
      cases resumes
  have seen := h.quiet.looking j timing (acts ▸ List.mem_cons_self)
  refine (h.orderly.timed.remaining_eq_zero_iff h.young seen).2 ⟨seen.1, ?_⟩
  have first := h.cached.soonest none noAdopt j soonest ⟨seen.1, noStart j⟩ i ⟨ripe.1, noStart i⟩
  have due := ripe.2
  omega

/-- A task that was due stays due, or is about to run, until the book names it. -/
theorem keeps (h : v.Reliable) (acts : v.acts = act :: rest) (l : Leads w v.device act s)
    (due : v.past.Ripe v.scheduler i ∨ .locked (.fetch i) ∈ v.acts) :
    ((v.past.after v.clock act s).Ripe s.scheduler i ∨ .locked (.fetch i) ∈ s.frames ++ rest) ∨
      v.entry act = some (.fired i) ∨ ∃ j, v.entry act = some (.started j i) ∨ v.entry act = some (.changed j i) := by
  rcases due with ripe | m
  · have waits := state_of_ripe ripe
    have other : ∀ {k : Nat} {ℓ : Life}, s.scheduler.life = Function.update v.scheduler.life k ℓ → i ≠ k →
        act.stamps ≠ some i → (v.past.after v.clock act s).Ripe s.scheduler i := fun life ne =>
      ripe.after (by rw [life, Function.update_of_ne ne])
    have target : ∀ {self : Option Nat} {task : TaskRef}, task.resolve self = .ok i →
        v.scheduler.target self task = some i := fun ref => by
      rw [Scheduler.target, ref]
      exact if_neg (by simp [waits])
    have lives := l.lives
    generalize life : s.scheduler.life = after at lives
    cases lives with
    | same stamps => exact .inl (.inl (ripe.after (by rw [life]; rfl) (by simp [stamps])))
    | @relength self task ms k ref | @stop self task k ref =>
      by_cases same : i = k
      · subst same
        obtain ⟨j, host⟩ := h.hosted acts l rfl fun _ => id
        refine .inr (.inr ⟨j, .inr ?_⟩)
        rw [entry, host, target ref]
        rfl
      · exact .inl (.inl (other life same (by simp [Act.stamps])))
    | @configure k handler ms repeats idle =>
      by_cases same : i = k
      · subst same
        obtain ⟨j, host⟩ := h.hosted acts l rfl fun _ => id
        refine .inr (.inr ⟨j, .inr ?_⟩)
        change (v.scheduler.life i).state.inHandler = false at idle
        rw [entry, host, idle]
        rfl
      · exact .inl (.inl (other life same (by simp [Act.stamps])))
    | @stamp k next =>
      by_cases same : i = k
      · subst same
        obtain ⟨j, host⟩ := h.hosted acts l rfl fun _ => id
        refine .inr (.inr ⟨j, .inl ?_⟩)
        rw [entry, host]
        rfl
      · exact .inl (.inl (other life same fun e => same (Option.some.inj e).symm))
    | @renew k =>
      by_cases same : i = k
      · subst same
        refine .inl (.inr (List.mem_append_left _ ?_))
        cases l with
        | renew => simp [Stride.frames]
        | asked asks | told asks => cases asks
      · exact .inl (.inl (other life same fun e => same (Option.some.inj e).symm))
    | @dispatch k =>
      by_cases same : i = k
      · subst same
        cases l with
        | renewing | notDispatched => exact .inl (.inl (ripe.after rfl (by simp [Act.stamps])))
        | dispatched => exact .inl (.inr (by simp [Stride.frames]))
      · exact .inl (.inl (other life same (by simp [Act.stamps])))
    | @settle k =>
      by_cases same : i = k
      · subst same
        have busy := (h.orderly.sound.handling i).2 (acts ▸ List.mem_cons_self)
        rw [waits] at busy
        cases busy
      · exact .inl (.inl (other life same (by simp [Act.stamps])))
    | dismiss which =>
      have below := h.below acts l
      have lay := (h.sound acts).layered.1
      rcases which with rfl | rfl <;> exact absurd below lay
  · by_cases here : act = .locked (.fetch i)
    · subst here
      exact .inr (.inl (h.entry_fetch m))
    · rw [acts] at m
      exact .inl (.inr (List.mem_append_right _ ((List.mem_cons.1 m).resolve_left fun same => here same.symm)))

/-- Behind a slot that is not behind task `i`, the way goes on to the next one. -/
theorem onward (h : v.Reliable) (mem : i ∈ v.roster) {skip : Option Nat} {k : Nat} {t : Task} (kept : skip ≠ some i)
    (le : v.roster.idxOf k ≤ v.roster.idxOf i) (other : k ≠ i) (found : v.scheduler.arena.slot k = .ok t) :
    (Act.walking skip t.next).Reaches v.roster i := by
  have holds := h.ordered.enrolled.holds
  have here : k ∈ v.roster := List.idxOf_lt_length_iff.1 (Nat.lt_of_le_of_lt le (List.idxOf_lt_length_iff.2 mem))
  have lt : v.roster.idxOf k < v.roster.idxOf i := Nat.lt_of_le_of_ne le fun same => other ((List.idxOf_inj here).1 same)
  have link : v.scheduler.arena.link k = some t.next := by rw [Arena.link, Arena.slot_eq_ok_iff.1 found, Option.map_some]
  obtain ⟨k', next, le'⟩ := holds.chain.next_of_idxOf_lt holds.nodup mem lt link
  rw [next]
  exact .ahead kept le'

/-- From where the round stands it comes nearer to a task that is due, until it invokes the handler. -/
theorem reaches (h : v.Reliable) (acts : v.acts = act :: rest) (l : Leads w v.device act s)
    (looked : ∀ timing, .reading (.due i timing) ∈ v.acts → v.scheduler.arena.Waits i ∧ (v.scheduler.life i).timing = timing)
    (due : v.past.Ripe v.scheduler i ∨ .locked (.fetch i) ∈ v.acts) (reaches : act.Reaches v.roster i) :
    (∃ a ∈ s.frames, a.Reaches v.roster i) ∨ v.entry act = some (.fired i) := by
  by_cases here : act = .locked (.fetch i)
  · subst here
    exact .inr (h.entry_fetch (acts ▸ List.mem_cons_self))
  have ripe : v.past.Ripe v.scheduler i := due.resolve_right fun m => by
    rw [acts] at m
    have resumes := h.unresumed acts reaches.major _ ((List.mem_cons.1 m).resolve_left fun same => here same.symm)
    cases resumes
  have waits := state_of_ripe ripe
  have holds := h.ordered.enrolled.holds
  have mem : i ∈ v.roster := h.mem_roster.2 (by rw [waits]; nofun)
  have life : ∀ {k : Nat} {t : Task}, v.scheduler.arena.slot k = .ok t → v.scheduler.life k = t.life := Arena.life_of_slot
  left
  cases reaches with
  | begins =>
    cases l with
    | remembered => exact ⟨_, List.mem_cons_of_mem _ List.mem_cons_self, .remembers⟩
    | nothingRemembered => exact ⟨_, List.mem_cons_self, .survey nofun⟩
  | @remembers j timing =>
    cases l with
    | wait early soonest =>
      change 0 < timing.remaining v.clock at early
      rw [h.remaining_of_remembered acts soonest ripe] at early
      cases early
    | retarget => exact ⟨_, List.mem_cons_self, .survey nofun⟩
    | dueFirst =>
      by_cases same : j = i
      · subst same
        exact ⟨_, List.mem_cons_self, .carried rfl⟩
      · exact ⟨_, List.mem_cons_of_mem _ List.mem_cons_self, .survey fun e => same (Option.some.inj e)⟩
    | asked asks | told asks => cases asks
  | @survey skip other =>
    cases l with
    | surveyed =>
      obtain ⟨k, later, roster⟩ := List.exists_cons_of_ne_nil (List.ne_nil_of_mem mem)
      have head : v.scheduler.queue.head = some k := by rw [holds.chain.eq_head?, roster]; rfl
      refine ⟨_, List.mem_cons_self, ?_⟩
      change (Act.walking skip v.scheduler.queue.head).Reaches v.roster i
      rw [head]
      exact .ahead other (by rw [roster, List.idxOf_cons_self]; exact Nat.zero_le _)
  | @ahead skip k other le =>
    cases l with
    | looked _ found =>
      by_cases same : k = i
      · subst same
        exact ⟨_, List.mem_cons_of_mem _ List.mem_cons_self, .looks⟩
      · exact ⟨_, List.mem_cons_of_mem _ (List.mem_cons_of_mem _ List.mem_cons_self), h.onward mem other le same found⟩
    | passed pass found =>
      have same : k ≠ i := by
        rintro rfl
        rcases pass with skipped | idle
        · exact other skipped
        · rw [life found] at waits
          exact idle waits
      exact ⟨_, List.mem_cons_self, h.onward mem other le same found⟩
  | @looks timing =>
    cases l with
    | due => exact ⟨_, List.mem_cons_self, .carried rfl⟩
    | notDue early =>
      have expired := (h.orderly.timed.expired_iff h.young (looked timing (acts ▸ List.mem_cons_self))).2 ripe
      change timing.expired v.clock = false at early
      rw [expired] at early
      cases early
    | asked asks | told asks => cases asks
  | carried carries =>
    cases l with
    | renewing | dispatched | renew => exact ⟨_, List.mem_cons_of_mem _ List.mem_cons_self, .carried carries⟩
    | @notDispatched k t found idle =>
      cases carries
      rw [life found] at waits
      exact absurd waits idle
    | fetched | unhandled =>
      cases carries
      exact absurd rfl here
    | asked asks | told asks =>
      rw [Act.carries_of_asks asks] at carries
      cases carries
    | refused refuses => cases ‹Section› <;> first | cases refuses; done | cases carries
    | _ => cases carries

end Reliable

end View

/-! ## Nothing else -/

/-- What an entry relies on: what was written down before it, and the slots as the round found them. -/
def Entry.Grounds (found : Arena) (before : List Entry) : Entry → Prop
  | due _ => True
  | fired i => .due i ∈ before ∧ (found.Waits i ∨ ∃ j, .started j i ∈ before)
  | started j _ | changed j _ => .fired j ∈ before

theorem Entry.Grounds.mono {found : Arena} {before later : List Entry} {e : Entry} (h : e.Grounds found before)
    (sub : ∀ e ∈ before, e ∈ later) : e.Grounds found later := by
  cases e with
  | due => trivial
  | fired i => exact ⟨sub _ h.1, h.2.imp_right fun ⟨j, m⟩ => ⟨j, sub _ m⟩⟩
  | started | changed => exact sub _ h

/-- A round is to run a task when it was to run it before, or when it finds its interval to be over. -/
theorem Leads.carries {w : World} {δ : Device} {act a : Act} {s : Stride} {i : Nat} (l : Leads w δ act s) (m : a ∈ s.frames)
    (carries : a.carries = some i) : act.carries = some i ∨
      (∃ timing, act = .reading (.cached i timing) ∧ timing.remaining δ.board.clock = 0) ∨
      ∃ timing, act = .reading (.due i timing) ∧ timing.expired δ.board.clock = true := by
  have idle : (∀ a ∈ s.frames, a.carries = none) → act.carries = some i ∨
      (∃ timing, act = .reading (.cached i timing) ∧ timing.remaining δ.board.clock = 0) ∨
      ∃ timing, act = .reading (.due i timing) ∧ timing.expired δ.board.clock = true := fun idle => by
    rw [idle a m] at carries
    cases carries
  cases l with
  | ask ask => exact idle (by simp [Stride.frames, Act.carries_of_op ask]; rfl)
  | asked _ asks | lengthAsked asks => exact idle (by simp [Stride.frames, Act.carries_of_asks asks]; rfl)
  | dueFirst elapsed =>
    simp only [Stride.frames, List.mem_cons, List.not_mem_nil, or_false] at m
    rcases m with rfl | rfl <;> cases carries
    exact .inr (.inl ⟨_, rfl, elapsed⟩)
  | due expired =>
    cases List.mem_singleton.1 m
    cases carries
    exact .inr (.inr ⟨_, rfl, expired⟩)
  | renewing | dispatched | renew =>
    simp only [Stride.frames, List.mem_cons, List.not_mem_nil, or_false] at m
    rcases m with rfl | rfl | rfl <;> first | exact .inl carries | cases carries
  | _ => exact idle (by simp [Stride.frames, Act.carries])

namespace View

/-- The book of a round tells the truth, and so does the state in which the device is. When the round began, the slots were as
in `found`. -/
structure Honest (found : Arena) (v : View) (book : List Entry) : Prop where
  looked : ∀ i timing, .reading (.due i timing) ∈ v.acts →
    v.scheduler.arena.Waits i ∧ (v.scheduler.life i).timing = timing
  carried : ∀ a ∈ v.acts, ∀ i, a.carries = some i → Entry.Grounds found book (.fired i)
  counts : ∀ i, (v.scheduler.life i).state.counts → found.Waits i ∨ ∃ j, .started j i ∈ book
  hosts : ∀ j, .settle j ∈ v.acts → .locked (.fetch j) ∈ v.acts ∨ .fired j ∈ book
  grounded : ∀ before e, before ++ [e] <+: book → e.Grounds found before

namespace Honest

variable {found : Arena} {v v' : View} {w : World} {act : Act} {s : Stride} {rest : List Act} {book : List Entry} {i j : Nat}

/-- The handler that is in progress was invoked. -/
theorem fired_of_handler (h : v.Honest found book) (r : v.Reliable) (acts : v.acts = act :: rest) (major : act.ends = false)
    (other : ∀ i, act ≠ .locked (.fetch i)) (host : v.handler = some j) : .fired j ∈ book := by
  refine (h.hosts j (settle_of_handler host)).resolve_left fun m => ?_
  rw [acts] at m
  have resumes := r.unresumed acts major _ ((List.mem_cons.1 m).resolve_left fun same => other j same.symm)
  cases resumes

/-- Each new entry has its grounds. -/
theorem grounds_entry (h : v.Honest found book) (r : v.Reliable) (acts : v.acts = act :: rest) {e : Entry}
    (entered : v.entry act = some e) : e.Grounds found book := by
  have told : ∀ {op : Nat → Nat → Entry}, (∀ j i, (op j i).Grounds found book ↔ .fired j ∈ book) → act.ends = false →
      (∀ i, act ≠ .locked (.fetch i)) → (∃ j i, v.handler = some j ∧ e = op j i) → e.Grounds found book := by
    rintro op grounds major other ⟨j, i, host, rfl⟩
    exact (grounds j i).2 (h.fired_of_handler r acts major other host)
  cases act with
  | reading q =>
    cases q with
    | cached | due =>
      rw [entry] at entered
      split at entered <;> cases entered
      trivial
    | start i next =>
      obtain ⟨j, host, rfl⟩ := Option.map_eq_some_iff.1 entered
      exact told (fun _ _ => Iff.rfl) rfl nofun ⟨j, i, host, rfl⟩
    | _ => cases entered
  | locked q =>
    cases q with
    | fetch i =>
      obtain ⟨k, invokes, rfl⟩ := Option.map_eq_some_iff.1 entered
      obtain ⟨-, same⟩ := Option.ite_none_right_eq_some.1 invokes
      cases same
      exact h.carried _ (acts ▸ List.mem_cons_self) i rfl
    | configure i =>
      obtain ⟨-, entered⟩ := Option.ite_none_left_eq_some.1 entered
      obtain ⟨j, host, rfl⟩ := Option.map_eq_some_iff.1 entered
      exact told (fun _ _ => Iff.rfl) rfl nofun ⟨j, i, host, rfl⟩
    | _ => cases entered
  | perform self op =>
    cases op with
    | stop | update =>
      obtain ⟨j, host, entered⟩ := Option.bind_eq_some_iff.1 entered
      obtain ⟨i, -, rfl⟩ := Option.map_eq_some_iff.1 entered
      exact told (fun _ _ => Iff.rfl) rfl nofun ⟨j, i, host, rfl⟩
    | _ => cases entered
  | _ => cases entered

/-- A task whose interval is in progress waited when the round began, or was started since. -/
theorem counts_leads (h : v.Honest found book) (r : v.Reliable) (acts : v.acts = act :: rest) (l : Leads w v.device act s) :
    ∀ i, (s.scheduler.life i).state.counts → found.Waits i ∨ ∃ j, .started j i ∈ v.enter book := by
  have old : ∀ i, (v.scheduler.life i).state.counts → found.Waits i ∨ ∃ j, .started j i ∈ v.enter book := fun i counts =>
    (h.counts i counts).imp_right fun ⟨j, m⟩ => ⟨j, mem_enter m⟩
  have one : ∀ {k : Nat} {ℓ : Life}, (ℓ.state.counts → found.Waits k ∨ ∃ j, .started j k ∈ v.enter book) →
      ∀ i, (Function.update v.scheduler.life k ℓ i).state.counts → found.Waits i ∨ ∃ j, .started j i ∈ v.enter book :=
    fun new => forall_update (p := fun i ℓ => ℓ.state.counts → found.Waits i ∨ ∃ j, .started j i ∈ v.enter book) old new
  have lives := l.lives
  generalize s.scheduler.life = after at lives
  cases lives with
  | same => exact old
  | relength => exact one fun counts => old _ counts
  | @stop _ _ i =>
    refine one fun counts => old i ?_
    change (v.scheduler.life i).stop.state.counts at counts
    generalize v.scheduler.life i = ℓ at counts ⊢
    rcases ℓ with ⟨state, timing, repeats, handler⟩
    cases state <;> first | rfl | cases counts
  | configure => exact one fun counts => nomatch counts
  | @stamp i next =>
    obtain ⟨j, host⟩ := r.hosted acts l rfl fun _ => id
    refine one fun _ => .inr ⟨j, mem_enter_of_entry acts ?_⟩
    rw [entry, host]
    rfl
  | @renew i =>
    exact one fun _ => (h.carried _ (acts ▸ List.mem_cons_self) i rfl).2.imp_right fun ⟨j, m⟩ => ⟨j, mem_enter m⟩
  | @dispatch i active =>
    refine one fun _ => old i ?_
    change (v.scheduler.life i).state = .active at active
    rw [active]
    rfl
  | @settle i =>
    refine one fun counts => old i ?_
    change (v.scheduler.life i).settle.state.counts at counts
    generalize v.scheduler.life i = ℓ at counts ⊢
    rcases ℓ with ⟨state, timing, repeats, handler⟩
    cases state <;> first | rfl | cases counts
  | dismiss which =>
    have below := r.below acts l
    have lay := (r.sound acts).layered.1
    rcases which with rfl | rfl <;> exact absurd below lay

/-- A task that a round is to run was found to be due. -/
theorem grounds_carried (h : v.Honest found book) (r : v.Reliable) (acts : v.acts = act :: rest) (l : Leads w v.device act s)
    {a : Act} (m : a ∈ s.frames) (carries : a.carries = some i) : Entry.Grounds found (v.enter book) (.fired i) := by
  have seen : v.past.Ripe v.scheduler i → v.entry act = some (.due i) → Entry.Grounds found (v.enter book) (.fired i) := by
    intro ripe entered
    refine ⟨mem_enter_of_entry acts entered, (h.counts i ?_).imp_right fun ⟨j, m⟩ => ⟨j, mem_enter m⟩⟩
    rw [Reliable.state_of_ripe ripe]
    rfl
  rcases l.carries m carries with carried | ⟨timing, rfl, elapsed⟩ | ⟨timing, rfl, expired⟩
  · exact (h.carried act (acts ▸ List.mem_cons_self) i carried).mono fun _ => mem_enter
  · have ripe := (r.orderly.timed.remaining_eq_zero_iff r.young (r.quiet.looking i timing (acts ▸ List.mem_cons_self))).1 elapsed
    exact seen ripe (if_pos ripe)
  · have ripe := (r.orderly.timed.expired_iff r.young (h.looked i timing (acts ▸ List.mem_cons_self))).1 expired
    exact seen ripe (if_pos ripe)

/-- A dispatch begins with fetching the handler, and this ends in its invocation. -/
theorem hosts_leads (h : v.Honest found book) (r : v.Reliable) (acts : v.acts = act :: rest) (l : Leads w v.device act s)
    (m : .settle j ∈ s.frames ++ rest) : .locked (.fetch j) ∈ s.frames ++ rest ∨ .fired j ∈ v.enter book := by
  rcases List.mem_append.1 m with m | m
  · refine .inl (List.mem_append_left _ ?_)
    cases l with
    | renew | dispatched =>
      simp only [Stride.frames, List.mem_cons, Act.settle.injEq, List.not_mem_nil, or_false, reduceCtorEq, false_or] at m
      subst m
      simp [Stride.frames]
    | _ => simp [Stride.frames] at m
  · rcases h.hosts j (acts ▸ List.mem_cons_of_mem _ m) with fetch | fired
    · have head := fetch
      rw [acts] at head
      rcases List.mem_cons.1 head with rfl | below
      · exact .inr (mem_enter_of_entry acts (r.entry_fetch fetch))
      · exact .inl (List.mem_append_right _ below)
    · exact .inr (mem_enter fired)

/-- As long as a round is in progress, its book tells the truth. -/
theorem turn (h : v.Honest found book) (r : v.Reliable) (t : Turn v v') : v'.Honest found (v.enter book) := by
  have carried : ∀ a ∈ v.acts, ∀ i, a.carries = some i → Entry.Grounds found (v.enter book) (.fired i) := fun a m i c =>
    (h.carried a m i c).mono fun _ => mem_enter
  cases t with
  | @works w act s _ rest acts l =>
    refine ⟨fun i timing m => ?_, fun a m i c => ?_, ?_, fun j m => h.hosts_leads r acts l m, fun before e initial => ?_⟩
    · show (Stride.device s).scheduler.arena.Waits i ∧ ((Stride.device s).scheduler.life i).timing = timing
      rw [Stride.scheduler_device]
      rcases List.mem_append.1 m with m | m
      · exact l.looked_at m
      · have life : s.scheduler.life = v.scheduler.life :=
          l.lives.of_ends (r.spared.ends_of_resumes r.orderly.sound acts _ m rfl)
        rw [life]
        obtain ⟨waits, same⟩ := h.looked i timing (acts ▸ List.mem_cons_of_mem _ m)
        exact ⟨(waits_of_life life i).2 waits, same⟩
    · rcases List.mem_append.1 m with m | m
      · exact h.grounds_carried r acts l m c
      · exact carried a (acts ▸ List.mem_cons_of_mem _ m) i c
    · have counts := h.counts_leads r acts l
      rwa [← Stride.scheduler_device s] at counts
    · rw [enter_cons acts] at initial
      cases entered : v.entry act with
      | none =>
        rw [entered, Option.toList_none, List.append_nil] at initial
        exact h.grounded before e initial
      | some e' =>
        rw [entered, Option.toList_some] at initial
        rcases List.prefix_concat_iff.1 initial with same | earlier
        · obtain ⟨rfl, last⟩ := List.append_inj' same rfl
          cases List.singleton_inj.1 last
          exact h.grounds_entry r acts entered
        · exact h.grounded before e earlier
  | @delivers ms act s _ rest acts l =>
    have silent : v.enter book = book := by
      rw [enter_cons acts]
      exact List.append_nil book
    have below : ∀ a ∈ rest, a ∈ v.acts := fun a m => acts ▸ List.mem_cons_of_mem _ (List.mem_cons_of_mem _ m)
    have life : s.device.scheduler.life = v.scheduler.life := by
      rw [Stride.scheduler_device]
      cases l <;> rfl
    have idle : ∀ a ∈ s.frames, a.apart ∧ a.carries = none ∧ a.hosts = none := by
      cases l <;> simp [Stride.frames, Act.apart, Act.carries, Act.hosts]
    have part : ∀ a ∈ s.frames ++ rest, a.apart = false ∨ a.carries ≠ none ∨ a.hosts ≠ none → a ∈ v.acts := fun a m kind =>
      below a ((List.mem_append.1 m).resolve_left fun m => by
        obtain ⟨apart, carries, hosts⟩ := idle a m
        rw [apart, carries, hosts] at kind
        simp at kind)
    rw [silent]
    refine ⟨fun i timing m => ?_, fun a m i c => h.carried a (part a m (.inr (.inl (by simp [c])))) i c, ?_, fun j m => ?_,
      h.grounded⟩
    · obtain ⟨waits, same⟩ := h.looked i timing (part _ m (.inl rfl))
      refine ⟨(waits_of_life life i).2 waits, ?_⟩
      show (s.device.scheduler.life i).timing = timing
      rw [life]
      exact same
    · show ∀ i, (s.device.scheduler.life i).state.counts → _
      rw [life]
      exact h.counts
    · refine (h.hosts j (part _ m (.inr (.inr (by simp [Act.hosts]))))).imp_left fun fetch => List.mem_append_right _ ?_
      rw [acts] at fetch
      have fetch := (List.mem_cons.1 fetch).resolve_left (by simp)
      refine (List.mem_cons.1 fetch).resolve_left ?_
      rintro rfl
      cases l

theorem shift (h : v.Honest found book) (t : Shift v v') : v'.Honest found book := by
  cases t with
  | @drops act _ rest acts drops =>
    have below : ∀ a ∈ rest, a ∈ v.acts := fun a m => acts ▸ List.mem_cons_of_mem _ m
    refine ⟨fun i timing m => h.looked i timing (below _ m), fun a m => h.carried a (below a m), h.counts, fun j m => ?_,
      h.grounded⟩
    refine (h.hosts j (below _ m)).imp_left fun fetch => ?_
    rw [acts] at fetch
    refine (List.mem_cons.1 fetch).resolve_left ?_
    rintro rfl
    cases drops
  | arrives self op =>
    have old : ∀ a ∈ Act.perform self op :: v.acts, a ≠ .perform self op → a ∈ v.acts := fun a m other =>
      (List.mem_cons.1 m).resolve_left other
    refine ⟨fun i timing m => h.looked i timing (old _ m nofun), fun a m i c => ?_, h.counts, fun j m => ?_, h.grounded⟩
    · exact h.carried a (old a m (by rintro rfl; cases c)) i c
    · exact (h.hosts j (old _ m nofun)).imp_left (List.mem_cons_of_mem _)

/-- When a round begins, nothing of it is in progress, and nothing is written down. -/
theorem begin (r : v.Reliable) (acts : v.acts = .checkCache :: rest) : v.Honest v.scheduler.arena [] := by
  have sound := r.sound acts
  have rests := sound.column.rests_of_turns sound.layered rfl
  have still := Sound.turns_head_of sound.column sound.layered rfl
  have nowhere : ∀ a ∈ rest, ∀ i, ¬a.Reaches [] i := fun a m i reaches => reaches.not_idle (rests a m) (still a m)
  have idle : ∀ j, .settle j ∉ v.acts := fun j m => by
    rw [acts] at m
    obtain ⟨below, rfl, free⟩ := sound.column.round_of_turns sound.layered rfl
    have m := (List.mem_cons.1 ((List.mem_cons.1 m).resolve_left nofun)).resolve_left nofun
    exact free (sound.column.tail.tail.round_of_settle m)
  refine ⟨fun i timing m => ?_, fun a m i c => ?_, fun i counts => .inl ?_, fun j m => absurd m (idle j), fun before e m => ?_⟩
  · rw [acts] at m
    exact absurd .looks (nowhere _ ((List.mem_cons.1 m).resolve_left nofun) i)
  · rw [acts] at m
    refine absurd (.carried c) (nowhere a ((List.mem_cons.1 m).resolve_left ?_) i)
    rintro rfl
    cases c
  · show (v.scheduler.life i).state = .active
    have free : (v.scheduler.life i).state.inHandler = false := Bool.eq_false_iff.2 fun busy =>
      idle i ((r.orderly.sound.handling i).1 busy)
    cases state : (v.scheduler.life i).state <;> rw [state] at counts free <;> first | rfl | cases counts; done | cases free
  · exact absurd (List.prefix_nil.1 m) (by simp)

end Honest

/-! ## Nothing is left out -/

/-- The round comes to task `i`, which is due or about to run. -/
def Owes (v : View) (i : Nat) : Prop :=
  (v.past.Ripe v.scheduler i ∨ .locked (.fetch i) ∈ v.acts) ∧ ∃ a ∈ v.acts, a.Reaches v.roster i

end View

/-- The handler of the task was invoked, or a handler changed the task or started it. -/
def Names (book : List Entry) (i : Nat) : Prop :=
  .fired i ∈ book ∨ ∃ j, .started j i ∈ book ∨ .changed j i ∈ book

theorem Names.mono {book later : List Entry} {i : Nat} (h : Names book i) (sub : ∀ e ∈ book, e ∈ later) : Names later i :=
  h.imp (sub _) fun ⟨j, m⟩ => ⟨j, m.imp (sub _) (sub _)⟩

namespace View.Owes

variable {found : Arena} {v v' : View} {rest : List Act} {book : List Entry} {i : Nat}

theorem mem_roster (h : v.Owes i) (r : v.Reliable) : i ∈ v.roster := by
  refine r.mem_roster.2 fun idle => ?_
  rcases h.1 with ripe | m
  · rw [Reliable.state_of_ripe ripe] at idle
    cases idle
  · have busy := (r.orderly.sound.handling i).2 (r.orderly.sound.column.settle_of_fetch m)
    rw [idle] at busy
    cases busy

/-- A round goes on to owe what it owes until the book names it. -/
theorem turn (h : v.Owes i) (honest : v.Honest found book) (r : v.Reliable) (t : Turn v v') :
    Names (v.enter book) i ∨ v'.Owes i := by
  obtain ⟨more, grows⟩ := r.ordered.roster_grows r.orderly.sound r.busy t
  have mem := h.mem_roster r
  obtain ⟨due, a, m, reaches⟩ := h
  cases t with
  | @works w act s _ rest acts l =>
    rcases r.keeps acts l due with due' | named
    · rw [acts] at m
      have onward : (∃ a ∈ s.frames ++ rest, a.Reaches v.roster i) ∨ v.entry act = some (.fired i) := by
        rcases List.mem_cons.1 m with rfl | m
        · refine (r.reaches acts l (honest.looked i) due reaches).imp_left ?_
          exact fun ⟨a, m, reaches⟩ => ⟨a, List.mem_append_left _ m, reaches⟩
        · exact .inl ⟨a, List.mem_append_right _ m, reaches⟩
      rcases onward with ⟨a, m, reaches⟩ | fired
      · refine .inr ⟨?_, a, m, grows ▸ reaches.append mem more⟩
        show _ ∨ _
        rwa [← Stride.scheduler_device s] at due'
      · exact .inl (.inl (mem_enter_of_entry acts fired))
    · refine .inl (named.imp (mem_enter_of_entry acts) ?_)
      exact fun ⟨j, entered⟩ => ⟨j, entered.imp (mem_enter_of_entry acts) (mem_enter_of_entry acts)⟩
  | @delivers ms act s _ rest acts l =>
    have life : s.device.scheduler.life = v.scheduler.life := by
      rw [Stride.scheduler_device]
      cases l <;> rfl
    have waits : act.rests ∧ act.turns = false ∧ act ≠ .locked (.fetch i) := by cases l <;> exact ⟨rfl, rfl, nofun⟩
    have below : ∀ b ∈ v.acts, b ≠ .deadline ms → b ≠ act → b ∈ s.frames ++ rest := fun b m first second => by
      rw [acts] at m
      exact List.mem_append_right _ ((List.mem_cons.1 ((List.mem_cons.1 m).resolve_left first)).resolve_left second)
    refine .inr ⟨due.imp (fun ripe => ?_) fun m => below _ m nofun waits.2.2.symm, a, below a m ?_ ?_, ?_⟩
    · refine ⟨(waits_of_life life i).2 ripe.1, ?_⟩
      show v.past.stamp i + (s.device.scheduler.life i).timing.length.toNat ≤ v.past.time
      rw [life]
      exact ripe.2
    · rintro rfl
      exact reaches.not_idle rfl rfl
    · rintro rfl
      exact reaches.not_idle waits.1 waits.2.1
    · exact grows ▸ reaches.append mem more

theorem shift (h : v.Owes i) (t : Shift v v') : v'.Owes i := by
  have same : v'.roster = v.roster := by cases t <;> rfl
  obtain ⟨due, a, m, reaches⟩ := h
  cases t with
  | @drops act _ rest acts drops =>
    have below : ∀ b ∈ v.acts, b ≠ act → b ∈ rest := fun b m other => by
      rw [acts] at m
      exact (List.mem_cons.1 m).resolve_left other
    refine ⟨due.imp_right fun m => below _ m ?_, a, below a m ?_, same ▸ reaches⟩
    · rintro rfl
      cases drops
    · rintro rfl
      cases a <;> first | cases drops; done | exact reaches.not_idle rfl rfl
  | arrives self op =>
    exact ⟨due.imp_right (List.mem_cons_of_mem _), a, List.mem_cons_of_mem _ m, same ▸ reaches⟩

/-- When a round is over, it owes nothing. -/
theorem not_of_deadline {ms : Option UInt32} (sound : v.Sound) (acts : v.acts = .deadline ms :: .round :: rest) : ¬v.Owes i := by
  rintro ⟨-, a, m, reaches⟩
  have column : Column (.round :: rest) := Column.tail (acts ▸ sound.column : Column (.deadline ms :: .round :: rest))
  have layered : Layered (.deadline ms :: .round :: rest) := acts ▸ sound.layered
  have free := column.alone layered.2
  have idle : a.rests ∧ a.turns = false := by
    rw [acts] at m
    rcases List.mem_cons.1 m with rfl | m
    · exact ⟨rfl, rfl⟩
    rcases List.mem_cons.1 m with rfl | m
    · exact ⟨rfl, rfl⟩
    · exact ⟨column.tail.rests_of_no_round free a m, column.tail.no_turns free a m⟩
  exact reaches.not_idle idle.1 idle.2

end View.Owes

/-! ## The book of a round -/

namespace Moment

variable {P Q : Moment → Prop} {s : Setup} {x y z : Moment} {d : Nat} {below rest : List Frame} {v v' : View}
  {book : List Entry}

/-- In a run in which no task gets too old and interrupts ask for nothing but the end of sessions, a round is reliable. -/
theorem reliable (r : Run P (initial s) y) (ends : ∀ z, P z → Confined Op.ends z.machine.stack)
    (young : ∀ z v, P z → z.view d = some v → v.Young) (h : y.view d = some v) (busy : .round ∈ v.acts) : v.Reliable := by
  obtain ⟨orderly, cached, quiet⟩ := quiet r ends young h
  exact ⟨orderly, cached, quiet, guarded r tame_ends ends h, young y v r.last h, ordered r h, busy⟩

/-- The book of a round that began at `x`. -/
theorem book_of_round (r : Run P (initial s) x) (ends : ∀ z, P z → Confined Op.ends z.machine.stack)
    (young : ∀ z v, P z → z.view d = some v → v.Young)
    (top : x.machine.stack = ⟨d, .checkCache⟩ :: ⟨d, .round⟩ :: rest) (h : x.view d = some v)
    (booked : Traced (fun z => P z ∧ z.Within (⟨d, .round⟩ :: rest)) (recording d View.enter) [] x y book)
    (h' : y.view d = some v') :
    v'.Honest v.scheduler.arena book ∧ ∀ i, v.past.Ripe v.scheduler i → Names book i ∨ v'.Owes i := by
  have known := booked.also fun z run => r.trans (run.mono fun _ p => p.1)
  have busy : ∀ (z : Moment) u, z.Within (⟨d, .round⟩ :: rest) → z.view d = some u → .round ∈ u.acts := by
    rintro z u ⟨above, f, stack⟩ hu
    rw [(view_eq_some hu).2.1]
    exact mem_pending.2 (by rw [stack]; simp)
  refine view_of_record_from (Q := View.Reliable) (I := fun u b => u.Honest v.scheduler.arena b ∧
      ∀ i, v.past.Ripe v.scheduler i → Names b i ∨ u.Owes i) known (stacked_of_run r)
    (fun z u p hu => reliable p.2 ends young hu (busy z u p.1.2 hu)) (fun u b idle => View.enter_of_waits idle)
    (fun u hu => ?_) (fun u u' b held reliable turn _ => ?_) (fun u u' b held shift => ?_) h'
  · cases h.symm.trans hu
    have acts : v.acts = .checkCache :: .round :: pending d rest := by
      rw [(view_eq_some h).2.1, top, pending_same, pending_same]
    have reliable := reliable r ends young h (by rw [acts]; simp)
    exact ⟨.begin reliable acts, fun i ripe => .inr ⟨.inl ripe, .checkCache, acts ▸ List.mem_cons_self, .begins⟩⟩
  · obtain ⟨honest, left⟩ := held
    refine ⟨honest.turn reliable turn, fun i ripe => ?_⟩
    rcases left i ripe with named | owes
    · exact .inl (named.mono fun _ => View.mem_enter)
    · exact owes.turn honest reliable turn
  · exact ⟨held.1.shift shift, fun i ripe => (held.2 i ripe).imp_right fun owes => owes.shift shift⟩

/-- The handlers ran as often as the book says. -/
theorem invocations_of_book (r : Run P (initial s) x) (h : x.view d = some v)
    (booked : Traced Q (recording d View.enter) [] x y book) (i : Nat) :
    y.machine.world.invocations d i = x.machine.world.invocations d i + book.count (.fired i) := by
  have r' : Run (fun _ => True) (initial s) y := (r.mono fun _ _ => trivial).trans (booked.run.mono fun _ _ => trivial)
  have bound : d < s.devices.length := by
    rw [← (furnishing r).1]
    exact (Array.getElem?_eq_some_iff.1 (view_eq_some h).1).1
  obtain ⟨δ, found⟩ := device_of_lt r' bound
  have counted := view_of_record_from (Q := fun _ => True)
    (I := fun u b => (u.past.fired i).length = x.machine.world.invocations d i + b.count (.fired i)) booked (stacked_of_run r)
    (fun _ _ _ _ => trivial) (fun u b idle => View.enter_of_waits idle) (fun u hu => ?_) (fun u u' b held _ turn _ => ?_)
    (fun u u' b held shift => ?_) (view_of_device found)
  · exact (length_fired r' i).symm.trans counted
  · rw [(view_eq_some hu).2.2]
    exact length_fired r i
  · cases turn with
    | @works w act s _ rest acts l =>
      show ((u.past.after u.clock act s).fired i).length = _
      rw [View.length_fired_after l, held, View.enter_cons acts, List.count_append, View.count_entry, Nat.add_assoc]
    | @delivers ms act s _ rest acts l =>
      show (u.past.fired i).length = _
      rw [held, View.enter_cons acts]
      exact congrArg (_ + List.count _ ·) (List.append_nil b).symm
  · cases shift <;> exact held

/-! ## The round of a tick -/

/-- A round does not come to the top of the stack before its deadline lies on it. -/
theorem Next.top_ne_round (next : y.Next z) (stacked : Stacked y.machine.stack) : z.machine.stack ≠ ⟨d, .round⟩ :: rest := by
  intro top
  cases next.machine.turn with
  | works e act rest' δ t top' _ l takes =>
    rw [takes.stack] at top
    rw [top'] at stacked
    cases l with
    | blockEnd | interruptsEnd | notDue | unhandled | woken | notDispatched | handled | settled =>
      obtain rfl : rest' = ⟨d, .round⟩ :: rest := top
      have sits := stacked.1.1
      simp [Act.Sits, Act.walks, Act.resumes] at sits
    | _ => cases top
  | delivers e e' ms act rest' δ t top' _ l takes =>
    rw [takes.stack] at top
    cases l <;> cases top
  | redirects e e' self op rest' top' _ left => cases top.symm.trans left
  | answers e e' a act rest' top' takes _ left =>
    rw [top', ← left, top] at stacked
    have sits : act.Sits .round := stacked.2.1.1
    cases act <;> first | cases takes; done | simp [Act.Sits] at sits
  | finishes e a top' _ left => cases top.symm.trans left
  | calls e op top' _ left => cases top.symm.trans left

/-- How far the tick is that is called at `x`. Nothing is written down before its round begins, and after the round is over. -/
inductive Ticks (P : Moment → Prop) (d : Nat) (below : List Frame) (x y : Moment) (book : List Entry) : Prop
  | called : y = x → book = [] → Ticks P d below x y book
  | refused {e} : y.machine.stack = ⟨d, .answered (.failed e)⟩ :: below → book = [] → Ticks P d below x y book
  | round {x₁} : x.Next x₁ → x₁.machine.stack = ⟨d, .checkCache⟩ :: ⟨d, .round⟩ :: ⟨d, .ticking⟩ :: below →
      Traced (fun z => P z ∧ z.Within (⟨d, .round⟩ :: ⟨d, .ticking⟩ :: below)) (recording d View.enter) [] x₁ y book →
      Ticks P d below x y book
  | finished {x₁ w ms} : x.Next x₁ → x₁.machine.stack = ⟨d, .checkCache⟩ :: ⟨d, .round⟩ :: ⟨d, .ticking⟩ :: below →
      Traced (fun z => P z ∧ z.Within (⟨d, .round⟩ :: ⟨d, .ticking⟩ :: below)) (recording d View.enter) [] x₁ w book →
      w.machine.stack = ⟨d, .deadline ms⟩ :: ⟨d, .round⟩ :: ⟨d, .ticking⟩ :: below →
      y.machine.stack = ⟨d, .deadline ms⟩ :: ⟨d, .ticking⟩ :: below ∨ y.machine.stack = ⟨d, .answered (.deadline ms)⟩ :: below →
      Ticks P d below x y book

/-- Nothing is written down of a deadline, and of the call of a tick. -/
theorem recording_enter {act : Act} (top : y.machine.stack = ⟨d, act⟩ :: rest) (silent : ∀ v : View, v.entry act = none) :
    recording d View.enter y book = book := by
  unfold recording
  split
  · rename_i v hv
    have acts : v.acts = act :: pending d rest := by rw [(view_eq_some hv).2.1, top, pending_same]
    rw [View.enter_cons acts, silent v]
    exact List.append_nil book
  · rfl

/-- A tick is refused, or asks for a round. -/
theorem Next.tick {self : Option Nat} (next : x.Next y) (call : x.machine.stack = ⟨d, .perform self .tick⟩ :: below)
    (h : x.view d = some v) : (∃ e, y.machine.stack = ⟨d, .answered (.failed e)⟩ :: below) ∨
      y.machine.stack = ⟨d, .checkCache⟩ :: ⟨d, .round⟩ :: ⟨d, .ticking⟩ :: below ∧
        ∃ v', y.view d = some v' ∧ v'.scheduler.arena = v.scheduler.arena ∧
          ∀ i, v'.past.Ripe v'.scheduler i ↔ v.past.Ripe v.scheduler i := by
  obtain ⟨δ, t, found, l, takes⟩ := next.leads_of_top call rfl
  cases (view_eq_some h).1.symm.trans found
  have past : y.past d = (v.past.after v.clock (.perform self .tick) t) := by
    rw [next.past d, Chronicle.next_works call found takes, (view_eq_some h).2.2]
    rfl
  cases l with
  | answer _ answers =>
    left
    rcases answers with ⟨-, rfl⟩ | ⟨-, -, rfl⟩
    · exact ⟨_, takes.stack⟩
    · exact ⟨_, takes.stack⟩
  | ask ask => cases ask
  | tick =>
    refine .inr ⟨takes.stack, _, view_of_device (takes.device_same found), rfl, fun i => ?_⟩
    rw [past]
    exact Chronicle.ripe_after rfl nofun rfl

theorem ticks_of_traced {self : Option Nat} (stacked : Stacked x.machine.stack)
    (call : x.machine.stack = ⟨d, .perform self .tick⟩ :: below) (h : x.view d = some v)
    (booked : Traced (fun z => P z ∧ z.Within below) (recording d View.enter) [] x y book) : Ticks P d below x y book := by
  induction booked with
  | here => exact .called rfl rfl
  | @more y z book booked next p ih =>
    have stackedY : Stacked y.machine.stack :=
      booked.run.invariant stacked fun _ _ h _ next _ => next.machine.turn.stacked h
    cases ih with
    | called same none =>
      subst same none
      rw [recording_enter call fun _ => rfl]
      rcases next.tick call h with ⟨e, refused⟩ | ⟨begins, -⟩
      · exact .refused refused rfl
      · exact .round next begins (.here ⟨p.1, [], _, begins⟩)
    | refused refused => exact absurd p.2 (next.not_within refused)
    | round first begins round =>
      rcases round.run.last.2.next_of_round next with within | done | ⟨e, ms, top⟩
      · exact .round first begins (round.more next ⟨p.1, within⟩)
      · exact absurd done (next.top_ne_round stackedY)
      · rw [top] at stackedY
        obtain rfl : d = e := Stacked.device_of_deadline stackedY
        rw [recording_enter top fun _ => rfl]
        exact .finished first begins round top (.inl (next.stack_of_deadline top))
    | @finished x₁ w ms first begins round ended told =>
      rcases told with waits | answered
      · rw [recording_enter waits fun _ => rfl]
        refine .finished first begins round ended (.inr ?_)
        obtain ⟨_, _, _, δ, t, same, -, l, takes⟩ := next.delivers_of_top waits
        cases same
        cases l
        exact takes.stack
      · exact absurd p.2 (next.not_within answered)

/-- Whenever a tick is called and not refused, its round runs what is due, and nothing else. No task is too old, and interrupts
ask for nothing but the end of sessions; handlers do as they like. Each task that waited and was due when the tick was called
has its handler invoked in this round, or a handler of this round stopped, configured, started or updated it before. The other
way round, each task whose handler is invoked waited and was due at the reading of the clock that the round made for it; and it
waited when the tick was called, or a handler of this round started it. -/
theorem round_runs_due {self : Option Nat} (r : Run P (initial s) x) (ends : ∀ z, P z → Confined Op.ends z.machine.stack)
    (young : ∀ z v, P z → z.view d = some v → v.Young) (call : x.machine.stack = ⟨d, .perform self .tick⟩ :: below)
    (h : x.view d = some v) (booked : Traced (fun z => P z ∧ z.Within below) (recording d View.enter) [] x y book) :
    (∀ i, y.machine.world.invocations d i = x.machine.world.invocations d i + book.count (.fired i)) ∧
    (∀ ms, y.machine.stack = ⟨d, .answered (.deadline ms)⟩ :: below → ∀ i, v.past.Ripe v.scheduler i →
      .fired i ∈ book ∨ ∃ j, .started j i ∈ book ∨ .changed j i ∈ book) ∧
    (∀ before i, before ++ [.fired i] <+: book →
      .due i ∈ before ∧ (v.scheduler.arena.Waits i ∨ ∃ j, .started j i ∈ before)) ∧
    ∀ before i j, before ++ [.started j i] <+: book ∨ before ++ [.changed j i] <+: book → .fired j ∈ before := by
  have stacked := stacked_of_run r
  refine ⟨invocations_of_book r h booked, ?_⟩
  -- The book of the round, from the moment at which it began.
  have known : ∀ {x₁ w : Moment}, x.Next x₁ →
      x₁.machine.stack = ⟨d, .checkCache⟩ :: ⟨d, .round⟩ :: ⟨d, .ticking⟩ :: below →
      Traced (fun z => P z ∧ z.Within (⟨d, .round⟩ :: ⟨d, .ticking⟩ :: below)) (recording d View.enter) [] x₁ w book →
      ∃ u, w.view d = some u ∧ u.Honest v.scheduler.arena book ∧ ∀ i, v.past.Ripe v.scheduler i → Names book i ∨ u.Owes i := by
    intro x₁ w first begins round
    have r₁ : Run P (initial s) x₁ := r.more first round.run.first.1
    obtain ⟨v₁, h₁, arena, ripe⟩ : ∃ v₁, x₁.view d = some v₁ ∧ v₁.scheduler.arena = v.scheduler.arena ∧
        ∀ i, v₁.past.Ripe v₁.scheduler i ↔ v.past.Ripe v.scheduler i := by
      rcases first.tick call h with ⟨e, refused⟩ | ⟨-, round⟩
      · cases refused.symm.trans begins
      · exact round
    obtain ⟨u, hu⟩ := view_within r₁ (view_eq_some h₁).1 (round.run.mono fun _ p => p.2)
    have told := book_of_round r₁ ends young begins h₁ round hu
    rw [arena] at told
    exact ⟨u, hu, told.1, fun i due => told.2 i ((ripe i).2 due)⟩
  have grounded : (∀ before e, before ++ [e] <+: book → e.Grounds v.scheduler.arena before) →
      (∀ before i, before ++ [.fired i] <+: book →
        .due i ∈ before ∧ (v.scheduler.arena.Waits i ∨ ∃ j, .started j i ∈ before)) ∧
      ∀ before i j, before ++ [.started j i] <+: book ∨ before ++ [.changed j i] <+: book → .fired j ∈ before := by
    intro grounded
    exact ⟨fun before i initial => grounded before _ initial, fun before i j initial =>
      initial.elim (grounded before _) (grounded before _)⟩
  have empty : book = [] → ∀ before e, before ++ [e] <+: book → e.Grounds v.scheduler.arena before := by
    rintro rfl before e initial
    exact absurd (List.prefix_nil.1 initial) (by simp)
  cases ticks_of_traced stacked call h booked with
  | called same none =>
    refine ⟨fun ms told => ?_, grounded (empty none)⟩
    rw [same] at told
    cases call.symm.trans told
  | refused refused none =>
    refine ⟨fun ms told => ?_, grounded (empty none)⟩
    cases refused.symm.trans told
  | round first begins round =>
    obtain ⟨u, -, honest, -⟩ := known first begins round
    refine ⟨fun ms told => ?_, grounded honest.grounded⟩
    obtain ⟨above, f, stack⟩ := round.run.last.2
    have length := congrArg List.length (told.symm.trans stack)
    simp only [List.length_cons, List.length_append] at length
    omega
  | @finished x₁ w ms first begins round ended =>
    obtain ⟨u, hu, honest, left⟩ := known first begins round
    have before : Run P (initial s) w := (r.more first round.run.first.1).trans (round.run.mono fun _ p => p.1)
    have acts : u.acts = .deadline ms :: .round :: pending d (⟨d, .ticking⟩ :: below) := by
      rw [(view_eq_some hu).2.1, ended, pending_same, pending_same]
    refine ⟨fun _ _ i due => ?_, grounded honest.grounded⟩
    exact (left i due).resolve_right (View.Owes.not_of_deadline (sound before hu) acts)

/-- The handler of the first task stops the third one. -/
def overrunning : Setup :=
  ⟨[⟨4, 0, [1], []⟩], false, [], [[[]], [[.stop (.slot 2)]]], 9, false⟩

/-- All tasks are due at once, and the second one always is. -/
def overrunningCalls : List (Nat × Op) :=
  [(0, .declare), (0, .declare), (0, .declare), (0, .declare), (0, .init), (0, .configure (.slot 0) 1 10 false),
    (0, .configure (.slot 1) 0 0 true), (0, .configure (.slot 2) 0 10 false), (0, .configure (.slot 3) 0 10 false),
    (0, .start (.slot 0)), (0, .start (.slot 1)), (0, .start (.slot 2)), (0, .start (.slot 3)), (0, .tick), (0, .advance 10),
    (0, .tick)]

/-- A task that is always due goes first, and the round runs the others that are due, too, except for the one that is
stopped. -/
theorem round_runs_due_of_overrun : ∃ (x y : Moment) (v : View) (book : List Entry),
    Traced (fun z => (Confined Op.ends z.machine.stack ∧ ∀ v ∈ z.view 0, v.Young) ∧ z.Within []) (recording 0 View.enter) []
      x y book ∧
    x.machine.stack = [⟨0, .perform none .tick⟩] ∧ x.view 0 = some v ∧ v.scheduler.cache.soonest = some 1 ∧
    (∀ i, v.past.Ripe v.scheduler i ↔ i < 4) ∧
    book = [.due 1, .fired 1, .due 0, .fired 0, .changed 0 2, .due 3, .fired 3] ∧
    y.machine.stack = [⟨0, .answered (.deadline (some 0))⟩] ∧
    (∀ i, y.machine.world.invocations 0 i = x.machine.world.invocations 0 i + book.count (.fired i)) ∧
    (∀ i < 4, .fired i ∈ book ∨ ∃ j, .started j i ∈ book ∨ .changed j i ∈ book) ∧
    (∀ before i, before ++ [.fired i] <+: book →
      .due i ∈ before ∧ (v.scheduler.arena.Waits i ∨ ∃ j, .started j i ∈ before)) ∧
    ∀ before i j, before ++ [.started j i] <+: book ∨ before ++ [.changed j i] <+: book → .fired j ∈ before := by
  let at' := fun n => ((initial overrunning).steps n overrunningCalls).1
  have first : Run (fun z => Confined Op.ends z.machine.stack ∧ ∀ v ∈ z.view 0, v.Young) (initial overrunning) (at' 111) :=
    run_steps (by decide +kernel)
  have call : (at' 111).machine.stack = ⟨0, .perform none .tick⟩ :: [] := by rfl
  have last : (at' 156).machine.stack = ⟨0, .answered (.deadline (some 0))⟩ :: [] := by rfl
  have found : (((at' 111).view 0).any fun v => v.scheduler.cache.soonest = some 1 ∧ v.scheduler.arena.size = 4 ∧
      ∀ i < 4, v.past.Ripe v.scheduler i) = true := by decide +kernel
  obtain ⟨v, h, here⟩ := (Option.any_eq_true _ _).1 found
  obtain ⟨soonest, size, all⟩ := of_decide_eq_true here
  have ripe : ∀ i, v.past.Ripe v.scheduler i ↔ i < 4 := fun i => ⟨fun due => size ▸ due.1.lt_size, all i⟩
  have booked : Traced (fun z => (Confined Op.ends z.machine.stack ∧ ∀ v ∈ z.view 0, v.Young) ∧ z.machine.stack ≠ [])
      (recording 0 View.enter) [] (at' 111) (at' (111 + 45)) _ :=
    traced_steps_add (by decide +kernel) (by decide +kernel)
  have inside : Traced (fun z => (Confined Op.ends z.machine.stack ∧ ∀ v ∈ z.view 0, v.Young) ∧ z.Within [])
      (recording 0 View.enter) [] (at' 111) (at' 156) _ := booked.mono fun z p => by
    obtain empty | ⟨above, f, stack⟩ := List.eq_nil_or_concat z.machine.stack
    · exact absurd empty p.2
    · exact ⟨p.1, above, f, stack.trans List.concat_eq_append⟩
  obtain ⟨counts, complete, sound⟩ := round_runs_due first (fun _ p => p.1) (fun _ v p hv => p.2 v hv) call h inside
  exact ⟨_, _, v, _, inside, call, h, soonest, ripe, by decide +kernel, last, counts,
    fun i lt => complete _ last i ((ripe i).2 lt), sound⟩

end Moment

end TimedTasks
