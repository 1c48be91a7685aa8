import TimedTasks.Proofs.Cache
import TimedTasks.Proofs.Linked

/-!
# What the cache stands for

A scheduler that is not in the middle of a walk along its queue relies on its cache: no waiting task is due before the
one that the cache remembers. `Cached` is that statement with all that it takes to keep it through every step: what a
start in progress still has to tell the cache, what a scan has found before it is adopted, and what a round says when it
is over.

Times are true times. A task is due at its last stamp and its length together (`Chronicle.due`), and of two tasks the one
that is due first has less time left at every later moment, so the comparisons of different moments agree.
-/

namespace TimedTasks

namespace Act

/-- The act is part of a walk along the queue, up to its scan. -/
def scans : Act → Bool
  | survey _ | walking .. | reading .scan => true
  | _ => false

/-- The task whose start is in progress. -/
def announces : Act → Option Nat
  | reading (.start i _) | locked (.noteArmed i _) => some i
  | _ => none

/-- The act neither walks along the queue, nor is it the word of a start or a scan to the cache, nor the result of a
round. -/
def calm : Act → Bool
  | survey _ | walking .. | reading .scan | locked (.noteArmed ..) | locked (.adopt ..) | deadline _
  | answered (.deadline _) => false
  | _ => true

/-- The act is calm, and neither a start's nor a round's reading of the clock. -/
def neutral : Act → Bool
  | reading (.start ..) | reading (.cached ..) | reading (.due ..) | reading (.renew _) => false
  | a => a.calm

@[simp] theorem calm_interrupts {call : BoardCall} {bodies : List (List Op)} : (interrupts call bodies).calm := rfl

/-- The readings of queries are no part of a walk and no word to the cache. -/
theorem calm_of_asks {r : Reading} (h : r.asks) : (reading r).calm := by
  cases r <;> first | rfl | cases h

/-- Nor are they readings of a start or of a round. -/
theorem neutral_of_asks {r : Reading} (h : r.asks) : (reading r).neutral := by
  cases r <;> first | rfl | cases h

/-- The sections with which operations on tasks and pools begin are neutral too. -/
theorem neutral_of_refuses {s : Section} (h : s.refuses) : (locked s).neutral := by
  cases s <;> first | rfl | cases h

/-- An operation that begins under the lock works in no section of a round. -/
theorem calm_of_op {σ : Scheduler} {self : Option Nat} {op : Op} {s : Section} (h : op.Asks σ self s) :
    (locked s).calm := by
  cases h <;> rfl

/-- An answer is none of a round's, unless it is a deadline. -/
theorem calm_answered {a : Answer} (h : ∀ ms, a ≠ .deadline ms) : (answered a).calm := by
  cases a <;> first | rfl | exact absurd rfl (h _)

/-- A neutral act neither looks at the cache, nor stamps a slot, nor announces a start. -/
theorem neutral_spec {a : Act} (h : a.neutral) :
    a.calm ∧ a.announces = none ∧ a.stamps = none ∧ a.consults = false := by
  cases a with
  | reading r => cases r <;> first | cases h; done | exact ⟨rfl, rfl, rfl, rfl⟩
  | locked s => cases s <;> first | cases h; done | exact ⟨rfl, rfl, rfl, rfl⟩
  | answered a => exact ⟨h, rfl, rfl, rfl⟩
  | _ => first | cases h; done | exact ⟨rfl, rfl, rfl, rfl⟩

/-- A calm act is none of those that scan, tell the cache or end a round. -/
theorem calm_spec {a : Act} (h : a.calm) :
    a.scans = false ∧ (∀ i n, a ≠ locked (.noteArmed i n)) ∧ (∀ b n, a ≠ locked (.adopt b n)) ∧
      ∀ ms, a ≠ deadline ms ∧ a ≠ answered (.deadline ms) := by
  refine ⟨?_, ?_, ?_, ?_⟩
  · cases a with
    | reading r => cases r <;> first | rfl | cases h
    | _ => first | rfl | cases h
  · rintro i n rfl; cases h
  · rintro b n rfl; cases h
  · intro ms
    constructor <;> (rintro rfl; cases h)

end Act

/-- A round walks along the queue. -/
def Scans (acts : List Act) : Prop := ∃ a ∈ acts, a.scans

/-- A start of task `i` is in progress: the cache is still to be told of it. -/
def Starting (acts : List Act) (i : Nat) : Prop := ∃ a ∈ acts, a.announces = some i

/-- The task waits, and the cache was told of its start. -/
def Settled (σ : Scheduler) (acts : List Act) (i : Nat) : Prop := σ.arena.Waits i ∧ ¬Starting acts i

/-- The slots from which an adoption chooses. -/
def DueCache.Member (c : DueCache) (best : Option Nat) (i : Nat) : Prop :=
  best = some i ∨ c.soonest = some i ∨ c.latecomer = some i

/-- The true time at which a task is due. -/
def Chronicle.due (past : Chronicle) (σ : Scheduler) (i : Nat) : Nat :=
  past.stamp i + (σ.life i).timing.length.toNat

/-- The time that is left at a clock reading until a waiting task is due, or `none` if no task waits. -/
def Scheduler.LeastLeft (σ : Scheduler) (now : UInt32) : Option UInt32 → Prop
  | none => ∀ i, ¬σ.arena.Waits i
  | some ms => (∃ i, σ.arena.Waits i ∧ σ.arena.left now i = ms) ∧ ∀ i, σ.arena.Waits i → ms ≤ σ.arena.left now i

/-- `now` is the clock reading of a moment `then'` at which all tasks had their stamps already. -/
structure Chronicle.ReadAt (past : Chronicle) (now : UInt32) (then' : Nat) : Prop where
  le : then' ≤ past.time
  clock : now = UInt32.ofNat then'
  stamped : ∀ i, past.stamp i ≤ then'

/-- What is known of a scan that is to be adopted. -/
structure Adopting (σ : Scheduler) (past : Chronicle) (acts : List Act) (best : Option Nat) (now : UInt32) : Prop where
  /-- A round read the clock for the scan, and has not read it since. -/
  read : past.read = now
  found : ∀ b, best = some b → σ.arena.Waits b
  /-- Whatever waits, one of the slots from which the adoption chooses is due no later. -/
  covered : ∃ then', past.ReadAt now then' ∧
    ∀ i, Settled σ acts i → ∃ j, σ.cache.Member best j ∧ σ.arena.Waits j ∧ past.due σ j - then' ≤ past.due σ i - then'
  noted : ∀ i n, .locked (.noteArmed i n) ∈ acts → n = now

/-- What the cache of a scheduler stands for. -/
structure Cached (σ : Scheduler) (past : Chronicle) (acts : List Act) : Prop where
  soonest : ¬Scans acts → (∀ best now, .locked (.adopt best now) ∉ acts) → ∀ c, σ.cache.soonest = some c →
    Settled σ acts c → ∀ i, Settled σ acts i → past.due σ c - past.time ≤ past.due σ i - past.time
  noted : ¬Scans acts → ∀ i now, .locked (.noteArmed i now) ∈ acts → ∃ then', past.ReadAt now then'
  adopting : ∀ best now, .locked (.adopt best now) ∈ acts → Adopting σ past acts best now
  told : ∀ ms, .deadline ms ∈ acts ∨ .answered (.deadline ms) ∈ acts → σ.LeastLeft past.read ms

/-- The cache of the device stands for what it should. -/
def View.Cached (v : View) : Prop := TimedTasks.Cached v.scheduler v.past v.acts

/-- No interval of a waiting task is older than the clock can tell. -/
def View.Young (v : View) : Prop := ∀ i, v.scheduler.arena.Waits i → v.past.time < v.past.stamp i + 2 ^ 32

instance (v : View) : Decidable v.Young :=
  decidable_of_iff (∀ i < v.scheduler.arena.size, v.scheduler.arena.Waits i → v.past.time < v.past.stamp i + 2 ^ 32)
    ⟨fun h i w => h i w.lt_size w, fun h i _ w => h i w⟩

/-- The act changes task `i` or what the cache remembers of it. -/
def Act.Touches (i : Nat) : Act → Prop
  | perform self (.update task _) | perform self (.stop task) => task.resolve self = .ok i
  | reading (.start j _) | locked (.forget j) | locked (.configure j ..) => j = i
  | _ => False

/-- The word that starts and scans are to give to the cache is not overtaken by what interrupts do meanwhile. This is enough
for deadlines to be right (`Moment.deadline_least_undisturbed`); nothing is said of runs in which it does not hold. -/
structure View.Undisturbed (v : View) : Prop where
  /-- While a start or a scan waits for the lock, another task is started at its reading of the clock only. -/
  current : ∀ i next rest now, v.acts = .reading (.start i next) :: rest → ¬Scans v.acts →
    (∃ j, .locked (.noteArmed j now) ∈ rest) ∨ (∃ best, .locked (.adopt best now) ∈ rest) → now = v.clock
  /-- A started task does not take the place of a remembered one whose own start is in progress. -/
  patient : ∀ i now rest c, v.acts = .locked (.noteArmed i now) :: rest → ¬Scans v.acts →
    (∀ best n, .locked (.adopt best n) ∉ rest) → v.scheduler.cache.soonest = some c → c ≠ i →
    v.scheduler.arena.Waits c → Starting rest c → ¬v.scheduler.arena.left now i < v.scheduler.arena.left now c
  /-- While a scan waits for the lock, the tasks from which it is to choose are left alone. -/
  spared : ∀ act rest best now i, v.acts = act :: rest → .locked (.adopt best now) ∈ rest → act.Touches i →
    v.scheduler.arena.Waits i → ¬v.scheduler.cache.Member best i
  /-- While a scan waits for the lock, a started task is not stopped before the cache is told of it. -/
  present : ∀ i n rest best now, v.acts = .locked (.noteArmed i n) :: rest → .locked (.adopt best now) ∈ rest →
    v.scheduler.arena.Waits i
  /-- A remembered task that a round decides to wait for is as it was when the round asked for the clock. -/
  same : ∀ i timing rest, v.acts = .reading (.cached i timing) :: rest → v.scheduler.cache.soonest = some i →
    0 < timing.remaining v.clock → v.scheduler.arena.Waits i ∧ (v.scheduler.life i).timing = timing

/-! ## Acts -/

section acts

variable {act : Act} {acts rest : List Act}

/-- There is a scan in a stack when there is one in a part of it. -/
theorem scans_append : Scans (acts ++ rest) ↔ Scans acts ∨ Scans rest := by
  simp only [Scans, List.mem_append, or_and_right, exists_or]

theorem scans_cons : Scans (act :: rest) ↔ act.scans ∨ Scans rest := by
  simp only [Scans, List.mem_cons, or_and_right, exists_or, exists_eq_left]

/-- And a start in progress likewise. -/
theorem starting_append {i : Nat} : Starting (acts ++ rest) i ↔ Starting acts i ∨ Starting rest i := by
  simp only [Starting, List.mem_append, or_and_right, exists_or]

theorem starting_cons {i : Nat} : Starting (act :: rest) i ↔ act.announces = some i ∨ Starting rest i := by
  simp only [Starting, List.mem_cons, or_and_right, exists_or, exists_eq_left]

/-- There is no scan among calm acts. -/
theorem not_scans_of_calm (h : acts.all Act.calm) : ¬Scans acts := by
  rintro ⟨a, m, scans⟩
  rw [(Act.calm_spec (List.all_eq_true.1 h a m)).1] at scans
  cases scans

/-- What is not calm lies below the calm acts. -/
theorem mem_of_calm {a : Act} (h : acts.all Act.calm) (m : a ∈ acts ++ rest) (not : a.calm = false) : a ∈ rest := by
  refine (List.mem_append.1 m).resolve_left fun m => ?_
  rw [List.all_eq_true.1 h a m] at not
  cases not

/-- A deadline lies on top of its column: there is none below, nor among calm acts that are put there. -/
theorem Column.no_deadline (h : Column (act :: rest)) (p : acts.all Act.calm) (ms : Option UInt32) :
    ¬(.deadline ms ∈ acts ++ rest ∨ .answered (.deadline ms) ∈ acts ++ rest) := by
  rintro (m | m)
  · exact h.no_result.1 ms (mem_of_calm p m rfl)
  · exact h.no_result.2 _ (mem_of_calm p m rfl)

/-- The act lies on a walk along the queue. -/
def Act.walked : Act → Bool
  | dispatch _ | settle _ | reading (.due ..) | reading (.renew _) => true
  | _ => false

/-- Below a step along the queue lies the scan that it leads to. -/
theorem Column.scans_of_walked (h : Column (act :: rest)) (w : act.walked) : Scans rest := by
  cases rest with
  | nil =>
    cases act with
    | reading r => cases r <;> first | cases w; done | cases h
    | _ => first | cases w; done | cases h
  | cons b rest =>
    have walks : b.walks := by
      cases act with
      | reading r => cases r <;> first | cases w; done | exact h.1
      | _ => first | cases w; done | exact h.1
    refine ⟨b, List.mem_cons_self, ?_⟩
    cases b <;> first | cases walks; done | rfl

/-- What lies on a walk along the queue has it below. -/
theorem Column.scans_of_mem {a : Act} (h : Column acts) (m : a ∈ acts) (w : a.walked) : Scans acts := by
  induction acts with
  | nil => cases m
  | cons b acts ih =>
    rcases List.mem_cons.1 m with rfl | m
    · exact scans_cons.2 (.inr (h.scans_of_walked w))
    · exact scans_cons.2 (.inr (ih h.tail m))

theorem Act.turns_of_scans {a : Act} (h : a.scans) : a.turns := by
  cases a with
  | reading r => cases r <;> first | cases h; done | rfl
  | _ => first | cases h; done | rfl

theorem not_scans_of_no_turns (h : ∀ a ∈ acts, a.turns = false) : ¬Scans acts := by
  rintro ⟨a, m, scans⟩
  have turns := Act.turns_of_scans scans
  rw [h a m] at turns
  cases turns

end acts

/-- Outside of walks along the queue no handler is in progress, so what is armed waits. -/
theorem Sound.waits_of_armed {σ : Scheduler} {acts : List Act} {i : Nat} (h : Sound σ acts) (no : ¬Scans acts)
    (armed : (σ.arena.life i).state.armed) : σ.arena.Waits i := by
  have idle : (σ.arena.life i).state.inHandler ≠ true := fun busy =>
    no (h.column.scans_of_mem ((h.handling i).1 busy) rfl)
  exact Arena.waits_of_armed armed (Bool.eq_false_iff.2 idle)

/-! ## Steps that the cache need not hear of -/

/-- Whether a slot waits is a matter of its life. -/
theorem waits_of_life {σ σ' : Scheduler} (life : σ'.life = σ.life) (i : Nat) :
    σ'.arena.Waits i ↔ σ.arena.Waits i := by
  show (σ'.life i).state = _ ↔ (σ.life i).state = _
  rw [life]

/-- And so is which one has least time left. -/
theorem Scheduler.LeastLeft.of_life {σ σ' : Scheduler} {now : UInt32} {ms : Option UInt32} (h : σ.LeastLeft now ms)
    (life : σ'.life = σ.life) : σ'.LeastLeft now ms := by
  have same : ∀ i, σ'.arena.life i = σ.arena.life i := fun i => congrFun life i
  cases ms with
  | none => exact fun i w => h i (by rw [Arena.Waits, ← same i]; exact w)
  | some ms =>
    obtain ⟨⟨i, w, e⟩, least⟩ := h
    refine ⟨⟨i, by rw [Arena.Waits, same i]; exact w, by rw [Arena.left, same i]; exact e⟩, fun j wj => ?_⟩
    rw [Arena.left, same j]
    exact least j (by rw [Arena.Waits, ← same j]; exact wj)

namespace Cached

variable {σ σ' : Scheduler} {past past' : Chronicle} {act : Act} {acts rest : List Act}

/-- During a walk along the queue, nothing is asked of the cache. -/
theorem of_scans (sound : Sound σ acts) (scans : Scans acts)
    (none : ∀ ms, ¬(.deadline ms ∈ acts ∨ .answered (.deadline ms) ∈ acts)) : Cached σ past acts := by
  refine ⟨fun no => absurd scans no, fun no => absurd scans no, fun best now m => ?_, fun ms told => absurd told (none ms)⟩
  obtain ⟨a, ma, ha⟩ := scans
  cases sound.turns_unique ma m (Act.turns_of_scans ha) rfl
  cases ha

/-- The step of a neutral act to calm ones. Whatever waits and is settled afterwards was so before, and is due at the same
time; nothing new is remembered; and if a scan waits to be adopted, the waiting tasks from which the adoption chooses stay
what they are. -/
theorem keep (h : Cached σ past (act :: rest)) (col : Column (act :: rest)) (pa : act.neutral) (pf : acts.all Act.calm)
    (time : past.time ≤ past'.time) (stamp : past'.stamp = past.stamp) (read : past'.read = past.read)
    (settled : ∀ i, σ'.arena.Waits i → ¬Starting acts i →
      σ.arena.Waits i ∧ (σ'.life i).timing.length = (σ.life i).timing.length)
    (soonest : ∀ c, σ'.cache.soonest = some c → σ.cache.soonest = some c)
    (members : ∀ best now, .locked (.adopt best now) ∈ rest → ∀ i, σ.cache.Member best i → σ.arena.Waits i →
      σ'.cache.Member best i ∧ σ'.arena.Waits i ∧ (σ'.life i).timing.length = (σ.life i).timing.length) :
    Cached σ' past' (acts ++ rest) := by
  obtain ⟨calm, announces, -, -⟩ := Act.neutral_spec pa
  have scans : Scans (act :: rest) ↔ Scans (acts ++ rest) := by
    rw [scans_cons, scans_append, (Act.calm_spec calm).1]
    simp [not_scans_of_calm pf]
  have before : ∀ {a : Act}, a ∈ acts ++ rest → a.calm = false → a ∈ act :: rest :=
    fun m c => List.mem_cons_of_mem _ (mem_of_calm pf m c)
  have after : ∀ {a : Act}, a ∈ act :: rest → a.calm = false → a ∈ acts ++ rest := fun m c => by
    rcases List.mem_cons.1 m with rfl | m
    · rw [calm] at c; cases c
    · exact List.mem_append_right _ m
  have was : ∀ i, Settled σ' (acts ++ rest) i →
      Settled σ (act :: rest) i ∧ past'.due σ' i = past.due σ i := by
    rintro i ⟨waits, quiet⟩
    rw [starting_append, not_or] at quiet
    obtain ⟨waited, length⟩ := settled i waits quiet.1
    refine ⟨⟨waited, ?_⟩, by rw [Chronicle.due, Chronicle.due, stamp, length]⟩
    rw [starting_cons, announces]
    simpa using quiet.2
  have readAt : ∀ {now then'}, past.ReadAt now then' → past'.ReadAt now then' :=
    fun r => ⟨Nat.le_trans r.le time, r.clock, stamp ▸ r.stamped⟩
  refine ⟨?_, ?_, ?_, fun ms told => absurd told (col.no_deadline pf ms)⟩
  · intro noScan noAdopt c hc sc i si
    have old := h.soonest (fun s => noScan (scans.1 s)) (fun b n m => noAdopt b n (after m rfl)) c (soonest c hc)
      (was c sc).1 i (was i si).1
    rw [(was c sc).2, (was i si).2]
    omega
  · intro noScan i now m
    obtain ⟨then', r⟩ := h.noted (fun s => noScan (scans.1 s)) i now (before m rfl)
    exact ⟨then', readAt r⟩
  · intro best now m
    have a := h.adopting best now (before m rfl)
    obtain ⟨then', r, covered⟩ := a.covered
    have kept := members best now (mem_of_calm pf m rfl)
    refine ⟨read.trans a.read, fun b e => (kept b (.inl e) (a.found b e)).2.1, ⟨then', readAt r, fun i si => ?_⟩,
      fun i n mn => a.noted i n (before mn rfl)⟩
    obtain ⟨j, mj, wj, le⟩ := covered i (was i si).1
    obtain ⟨mj', wj', length⟩ := kept j mj wj
    refine ⟨j, mj', wj', ?_⟩
    rw [(was i si).2, show past'.due σ' j = past.due σ j by rw [Chronicle.due, Chronicle.due, stamp, length]]
    exact le

/-- A neutral step that changes neither a life nor the cache. -/
theorem idle (h : Cached σ past (act :: rest)) (col : Column (act :: rest)) (pa : act.neutral) (pf : acts.all Act.calm)
    (time : past.time ≤ past'.time) (stamp : past'.stamp = past.stamp) (read : past'.read = past.read)
    (life : σ'.life = σ.life) (cache : σ'.cache = σ.cache) : Cached σ' past' (acts ++ rest) := by
  have waits := waits_of_life life
  refine h.keep col pa pf time stamp read (fun i w _ => ⟨(waits i).1 w, by rw [life]⟩) (fun c e => cache ▸ e)
    fun best now _ i m w => ⟨cache ▸ m, (waits i).2 w, by rw [life]⟩

/-- Acts with the same share in the cache, and no other result of a round. -/
theorem congr {acts' : List Act} (h : Cached σ past acts) (life : σ'.life = σ.life) (cache : σ'.cache = σ.cache)
    (scans : Scans acts' ↔ Scans acts) (starting : ∀ i, Starting acts' i ↔ Starting acts i)
    (noted : ∀ i n, .locked (.noteArmed i n) ∈ acts' ↔ .locked (.noteArmed i n) ∈ acts)
    (adopt : ∀ b n, .locked (.adopt b n) ∈ acts' ↔ .locked (.adopt b n) ∈ acts)
    (told : ∀ ms, .deadline ms ∈ acts' ∨ .answered (.deadline ms) ∈ acts' → σ.LeastLeft past.read ms) :
    Cached σ' past acts' := by
  have waits : ∀ i, σ'.arena.Waits i ↔ σ.arena.Waits i := waits_of_life life
  have settled : ∀ i, Settled σ' acts' i ↔ Settled σ acts i := fun i => by rw [Settled, Settled, starting i, waits i]
  have due : ∀ i, past.due σ' i = past.due σ i := fun i => by rw [Chronicle.due, Chronicle.due, life]
  refine ⟨fun noScan noAdopt c hc sc i si => ?_, fun noScan i n m => ?_, fun b n m => ?_, fun ms m => ?_⟩
  · rw [due c, due i]
    exact h.soonest (fun s => noScan (scans.2 s)) (fun b n m => noAdopt b n ((adopt b n).2 m)) c (cache ▸ hc)
      ((settled c).1 sc) i ((settled i).1 si)
  · exact h.noted (fun s => noScan (scans.2 s)) i n ((noted i n).1 m)
  · have a := h.adopting b n ((adopt b n).1 m)
    obtain ⟨then', r, covered⟩ := a.covered
    refine ⟨a.read, fun b e => (waits b).2 (a.found b e), ⟨then', r, fun i si => ?_⟩,
      fun i n m => a.noted i n ((noted i n).1 m)⟩
    obtain ⟨j, mj, wj, le⟩ := covered i ((settled i).1 si)
    exact ⟨j, cache ▸ mj, (waits j).2 wj, by rw [due j, due i]; exact le⟩
  · exact (told ms m).of_life life

end Cached

/-! ## Comparisons of true times -/

namespace View

variable {v : View} {now : UInt32} {then' i j : Nat}

/-- The clock reads the true time. -/
theorem Timed.readAt (t : v.Timed) : v.past.ReadAt v.clock v.past.time := ⟨Nat.le_refl _, t.clock, t.stamp_le⟩

/-- The time that is left for a waiting task at a reading is the true time until it is due. -/
theorem Timed.toNat_left (t : v.Timed) (young : v.Young) (r : v.past.ReadAt now then')
    (w : v.scheduler.arena.Waits i) :
    (v.scheduler.arena.left now i).toNat = v.past.due v.scheduler i - then' := by
  have counts : (v.scheduler.life i).state.counts := by
    change (v.scheduler.life i).state = .active at w
    rw [w]
    rfl
  have le := r.le
  have age := young i w
  rw [Arena.left, r.clock]
  exact Interval.toNat_remaining (t.start i counts) (r.stamped i) (by omega)

/-- Of two waiting tasks the one that is due first, in true time, has less time left. -/
theorem Timed.left_lt_iff (t : v.Timed) (young : v.Young) (r : v.past.ReadAt now then')
    (wi : v.scheduler.arena.Waits i) (wj : v.scheduler.arena.Waits j) :
    v.scheduler.arena.left now i < v.scheduler.arena.left now j ↔
      v.past.due v.scheduler i - then' < v.past.due v.scheduler j - then' := by
  rw [UInt32.lt_iff_toNat_lt, t.toNat_left young r wi, t.toNat_left young r wj]

/-- The same with ties. -/
theorem Timed.left_le_iff (t : v.Timed) (young : v.Young) (r : v.past.ReadAt now then')
    (wi : v.scheduler.arena.Waits i) (wj : v.scheduler.arena.Waits j) :
    v.scheduler.arena.left now i ≤ v.scheduler.arena.left now j ↔
      v.past.due v.scheduler i - then' ≤ v.past.due v.scheduler j - then' := by
  rw [UInt32.le_iff_toNat_le, t.toNat_left young r wi, t.toNat_left young r wj]

/-- Below an act that calm operations do not come to, no start is in progress, and no scan waits to be adopted. -/
theorem Orderly.alone {act : Act} {rest : List Act} (o : v.Orderly) (acts : v.acts = act :: rest)
    (major : act.minor = false) :
    (∀ i, ¬Starting rest i) ∧ (∀ i n, .locked (.noteArmed i n) ∉ rest) ∧ ∀ b n, .locked (.adopt b n) ∉ rest := by
  have col : Column (act :: rest) := acts ▸ o.sound.column
  have g : Guarded Act.minor (act :: rest) := acts ▸ o.guarded
  have free := col.unresumed tame_calm g major
  refine ⟨?_, fun i n m => ?_, fun b n m => ?_⟩
  · rintro i ⟨a, m, announces⟩
    have still := free a m
    cases a with
    | reading r => cases still
    | locked s => cases still
    | _ => cases announces
  · cases free _ m
  · cases free _ m

end View

end TimedTasks
