import TimedTasks.Proofs.Payloads

/-!
# Bytes are what they are said to be

The operations that give bytes and ask for their number take the lock once, and what they answer is about the contents at
that moment (`Run.attached`, `Run.written`, `Run.measured`). With that, all that is observed of the bytes of slots agrees
with their contents (`Moment.payloads_kept`).
-/

namespace TimedTasks

/-! ## Calls that give bytes -/

section

variable {P : Moment → Prop} {x y z : Moment} {d i : Nat} {self : Option Nat} {ref : TaskRef} {a : Answer}
  {below : List Frame} {c : Contents}

namespace Moment

theorem refer_of_attach {data : List UInt8} (next : x.Next y) (top : x.machine.stack = ⟨d, .locked (.attach i data)⟩ :: below)
    (answered : y.machine.stack = ⟨d, .answered .done⟩ :: below) : x.refer c = c.alter d [i] (·.fill data) := by
  have answers := next.answers top
  rw [Machine.answer, answered] at answers
  simp only [refer, top, answers]

theorem refer_of_write {data : List UInt8} {kept : Nat} (next : x.Next y)
    (top : x.machine.stack = ⟨d, .locked (.write i data)⟩ :: below)
    (answered : y.machine.stack = ⟨d, .answered (.kept kept)⟩ :: below) : x.refer c = c.alter d [i] (·.fill data) := by
  have answers := next.answers top
  rw [Machine.answer, answered] at answers
  simp only [refer, top, answers]

/-- Work under the lock on a task is refused at once, or waits for the lock. -/
theorem Next.lockedOn {op : Op} {s : Section} {above : List Frame} {g : Frame} (next : x.Next z)
    (top : x.machine.stack = ⟨d, .perform self op⟩ :: below) (stack : z.machine.stack = above ++ g :: below)
    (on : ∀ δ, x.machine.world.perform d δ self op = x.machine.world.lockedOn d δ i s) :
    g = ⟨d, .locked s⟩ ∨ ∃ e, g = ⟨d, .answered (.failed e)⟩ := by
  obtain ⟨δ, move, -, began, eq⟩ := next.performs top
  rw [on] at began
  have frames := World.lockedOn_eq_ok began
  rw [eq] at stack
  have last := getLast?_eq_of_append stack
  split at frames
  · rw [frames] at last
    exact .inl (Option.some.inj last).symm
  · rw [frames] at last
    exact .inr ⟨_, (Option.some.inj last).symm⟩

end Moment

/-- A call that works under the lock on a task is refused at once, or is answered with what comes of that work. -/
theorem Run.worked {op : Op} {s : Section} {A : Moment → Answer → Prop} (r : Run (fun z => P z ∧ z.Within below) x y)
    (stacked : Stacked x.machine.stack) (top : x.machine.stack = ⟨d, .perform self op⟩ :: below)
    (answered : y.machine.stack = ⟨d, .answered a⟩ :: below) (calls : (Act.locked s).calls)
    (on : ∀ δ, x.machine.world.perform d δ self op = x.machine.world.lockedOn d δ i s)
    (ends : ∀ w z : Moment, w.Next z → w.machine.stack = ⟨d, .locked s⟩ :: below →
      ∃ a, z.machine.stack = ⟨d, .answered a⟩ :: below ∧ A w a) :
    (∃ e, a = .failed e) ∨ ∃ w, Run (fun z => P z ∧ z.Within below) x w ∧ w.Next y ∧
      w.machine.stack = ⟨d, .locked s⟩ :: below ∧ A w a := by
  have asked := r.asked stacked top answered calls
    (fun z g above next stack => (next.lockedOn top stack on).imp_right fun refused => by
      obtain ⟨e, same⟩ := refused
      exact ⟨_, same⟩)
    fun w z g above next locked stack => by
      obtain ⟨a, told, -⟩ := ends w z next locked
      rw [told] at stack
      exact ⟨a, lowest_of_cons stack⟩
  rcases asked with next | ⟨w, before, locked, next⟩
  · rcases next.lockedOn top (show y.machine.stack = [] ++ _ :: below from answered) on with same | ⟨e, same⟩
    · cases same
    · cases same
      exact .inl ⟨e, rfl⟩
  · obtain ⟨b, told, holds⟩ := ends w y next locked
    cases told.symm.trans answered
    exact .inr ⟨w, before, next, locked, holds⟩

/-- A call that attaches bytes is refused, or does so with the lock. -/
theorem Run.attached {data : Option (List UInt8)} (r : Run (fun z => P z ∧ z.Within below) x y)
    (stacked : Stacked x.machine.stack) (top : x.machine.stack = ⟨d, .perform self (.attach ref data)⟩ :: below)
    (meant : ref.resolve self = .ok i) (answered : y.machine.stack = ⟨d, .answered a⟩ :: below) :
    (∃ e, a = .failed e) ∨ ∃ w, Run (fun z => P z ∧ z.Within below) x w ∧ w.Next y ∧
      w.machine.stack = ⟨d, .locked (.attach i (data.getD []))⟩ :: below ∧ a = .done := by
  have told := r.worked (i := i) (s := .attach i (data.getD [])) (A := fun _ a => a = .done ∨ ∃ e, a = .failed e) stacked top
    answered rfl (fun δ => by rw [World.perform, meant]; rfl) fun w z next locked => by
      obtain ⟨δ, -, found, -⟩ := next.does locked
      obtain ⟨t, -, after⟩ := next.attaches locked found
      split at after
      · obtain ⟨p, ps, σ, -, -, after⟩ := after
        exact ⟨_, by rw [after], .inl rfl⟩
      · exact ⟨_, by rw [after], .inr ⟨_, rfl⟩⟩
  rcases told with refused | ⟨w, before, next, locked, done | refused⟩
  · exact .inl refused
  · exact .inr ⟨w, before, next, locked, done⟩
  · exact .inl refused

/-- A call that writes bytes is refused, or does so with the lock, and says how many there was room for. -/
theorem Run.written {data : List UInt8} (r : Run (fun z => P z ∧ z.Within below) x y)
    (stacked : Stacked x.machine.stack) (top : x.machine.stack = ⟨d, .perform self (.write ref data)⟩ :: below)
    (meant : ref.resolve self = .ok i) (answered : y.machine.stack = ⟨d, .answered a⟩ :: below) :
    (∃ e, a = .failed e) ∨ ∃ w, Run (fun z => P z ∧ z.Within below) x w ∧ w.Next y ∧
      w.machine.stack = ⟨d, .locked (.write i data)⟩ :: below ∧ ∃ δ t segment, w.machine.world.devices[d]? = some δ ∧
        δ.scheduler.arena[i]? = some t ∧ t.payload.segment? = some segment ∧ a = .kept (min data.length segment.size) := by
  have told := r.worked (i := i) (s := .write i data) (A := fun w a => (∃ e, a = .failed e) ∨ ∃ δ t segment,
      w.machine.world.devices[d]? = some δ ∧ δ.scheduler.arena[i]? = some t ∧ t.payload.segment? = some segment ∧
        a = .kept (min data.length segment.size)) stacked top answered rfl (fun δ => by rw [World.perform, meant]; rfl)
    fun w z next locked => by
      obtain ⟨δ, -, found, -⟩ := next.does locked
      obtain ⟨t, slot, after⟩ := next.writes locked found
      split at after
      · split at after
        · exact ⟨_, by rw [after], .inl ⟨_, rfl⟩⟩
        · rename_i segment length payload
          obtain ⟨kept, ps, σ, copied, -, after⟩ := after
          obtain ⟨rfl, -⟩ := Pools.copy_eq_ok copied
          exact ⟨_, by rw [after], .inr ⟨δ, t, segment, found, slot, by rw [payload]; rfl, by
            rw [List.length_take, Nat.min_comm]⟩⟩
      · exact ⟨_, by rw [after], .inl ⟨_, rfl⟩⟩
  rcases told with refused | ⟨w, before, next, locked, refused | done⟩
  · exact .inl refused
  · exact .inl refused
  · exact .inr ⟨w, before, next, locked, done⟩

end

/-! ## Calls that ask for the number of bytes -/

namespace Act

/-- The row that a query has filled in so far, once it knows the number of bytes. -/
def row? : Act → Option TaskRow
  | reading (.elapsed _ _ row) | reading (.remaining _ _ row) | reading (.expired _ _ row) | answered (.query row) => some row
  | _ => none

/-- A query has found so many bytes. -/
def Counts (a : Act) (n : Nat) : Prop := ∃ row, a.row? = some row ∧ row.dataLength = n

theorem Counts.straight {a : Act} {n : Nat} (h : a.Counts n) : a.straight := by
  obtain ⟨row, told, -⟩ := h
  cases a with
  | reading r => cases r <;> first | rfl | cases told
  | answered b => rfl
  | _ => cases told

end Act

namespace World

variable {w : World} {d i : Nat} {δ : Device} {row : TaskRow} {move : Move} {f : Frame}

/-- What a query still asks does not change the number of bytes that it found. -/
theorem askExpired_counts (h : w.askExpired d δ i row = .ok move) (last : move.frames.getLast? = some f) :
    f.device = d ∧ f.act.Counts row.dataLength := by
  obtain ⟨found, -, h⟩ := bind_eq_ok.1 h
  cases found with
  | none => cases h; cases last; exact ⟨rfl, _, rfl, rfl⟩
  | some t =>
    dsimp only at h
    split at h <;> cases h <;> cases last <;> exact ⟨rfl, _, rfl, rfl⟩

theorem askRemaining_counts (h : w.askRemaining d δ i row = .ok move) (last : move.frames.getLast? = some f) :
    f.device = d ∧ f.act.Counts row.dataLength := by
  obtain ⟨found, -, h⟩ := bind_eq_ok.1 h
  cases found with
  | none => exact askExpired_counts h last
  | some t =>
    dsimp only at h
    split at h
    · cases h; cases last; exact ⟨rfl, _, rfl, rfl⟩
    · exact askExpired_counts h last

theorem askElapsed_counts (h : w.askElapsed d δ i row = .ok move) (last : move.frames.getLast? = some f) :
    f.device = d ∧ f.act.Counts row.dataLength := by
  obtain ⟨found, -, h⟩ := bind_eq_ok.1 h
  cases found with
  | none => exact askRemaining_counts h last
  | some t =>
    dsimp only at h
    split at h
    · exact askRemaining_counts h last
    · cases h; cases last; exact ⟨rfl, _, rfl, rfl⟩

theorem resume_counts {now : UInt32} {r : Reading} {n : Nat} (h : w.resume d δ now r = .ok move)
    (counts : (Act.reading r).Counts n) (last : move.frames.getLast? = some f) : f.device = d ∧ f.act.Counts n := by
  obtain ⟨row, told, rfl⟩ := counts
  cases r with
  | elapsed i timing _ =>
    cases told
    have asked : w.askRemaining d δ i { row with elapsed := timing.elapsed now } = .ok move := h
    have counts := askRemaining_counts asked last
    exact counts
  | remaining i timing _ =>
    cases told
    have asked : w.askExpired d δ i { row with remaining := timing.remaining now } = .ok move := h
    have counts := askExpired_counts asked last
    exact counts
  | expired => cases told; cases h; cases last; exact ⟨rfl, _, rfl, rfl⟩
  | _ => cases told

end World

/-- What a query has come to: it knows that the slot was never handed out, it waits for the lock, or it had it at some
moment and found the bytes of the slot then. -/
inductive Measures (P : Moment → Prop) (d i : Nat) (below : List Frame) (x : Moment) : Moment → Frame → Prop
  | absent {z δ} : x.machine.world.devices[d]? = some δ → δ.scheduler.declared ≤ i →
      Measures P d i below x z ⟨d, .answered (.query (.untimed none))⟩
  | waits {z row} : Measures P d i below x z ⟨d, .locked (.dataLength i row)⟩
  | found {w z row δ t act} : Run (fun z => P z ∧ z.Within below) x w →
      w.machine.stack = ⟨d, .locked (.dataLength i row)⟩ :: below → w.machine.world.devices[d]? = some δ →
      δ.scheduler.arena[i]? = some t → act.Counts t.payload.length → Measures P d i below x z ⟨d, act⟩

/-- A query tells the number of bytes that its slot has at the moment when it has the lock. Of a slot that was never
handed out, it says that there are none. -/
theorem Run.measured {P : Moment → Prop} {x y : Moment} {d i : Nat} {self : Option Nat} {ref : TaskRef} {row : TaskRow}
    {below : List Frame} (r : Run (fun z => P z ∧ z.Within below) x y) (stacked : Stacked x.machine.stack)
    (top : x.machine.stack = ⟨d, .perform self (.query ref)⟩ :: below) (meant : ref.resolve self = .ok i)
    (answered : y.machine.stack = ⟨d, .answered (.query row)⟩ :: below) :
    (∃ δ, x.machine.world.devices[d]? = some δ ∧ δ.scheduler.declared ≤ i ∧ row.dataLength = 0) ∨
      ∃ w row' δ t, Run (fun z => P z ∧ z.Within below) x w ∧
        w.machine.stack = ⟨d, .locked (.dataLength i row')⟩ :: below ∧ w.machine.world.devices[d]? = some δ ∧
        δ.scheduler.arena[i]? = some t ∧ row.dataLength = t.payload.length := by
  have staged : ∃ above g, y.machine.stack = above ++ g :: below ∧
      ((y = x ∧ g = ⟨d, .perform self (.query ref)⟩) ∨ Measures P d i below x y g) := by
    refine r.stages stacked top rfl (fun z g above next _ stack => ?_) (fun z g h => ?_) (fun z z' g h _ _ _ _ => ?_)
      fun z z' g g' above h before next p stack stack' => ?_
    · -- The first step looks the slot up.
      obtain ⟨δ, move, found, began, eq⟩ := next.performs top
      rw [World.perform, meant] at began
      obtain ⟨looked, lookup, began⟩ := bind_eq_ok.1 (show x.machine.world.query d δ i = .ok move from began)
      rw [eq] at stack
      have last := getLast?_eq_of_append stack
      cases looked with
      | none =>
        cases began
        cases last
        refine .absent found ?_
        unfold Scheduler.lookup at lookup
        split at lookup
        · obtain ⟨t, -, same⟩ := map_eq_ok.1 lookup
          cases same
        · omega
      | some t =>
        cases began
        cases last
        exact .waits
    · cases h with
      | absent | waits => rfl
      | found _ _ _ _ counts => exact counts.straight
    · cases h with
      | absent found beyond => exact .absent found beyond
      | waits => exact .waits
      | found before locked found slot counts => exact .found before locked found slot counts
    · cases h with
      | absent => exact absurd ⟨above, g', stack'⟩ (next.not_within stack)
      | waits =>
        obtain ⟨δ, move, found, done, eq⟩ := next.does stack
        obtain ⟨t, slot, done⟩ := bind_eq_ok.1 done
        rw [eq] at stack'
        obtain ⟨device, counts⟩ := World.askElapsed_counts done (getLast?_eq_of_append stack')
        rcases g' with ⟨e, act⟩
        cases device
        exact .found before stack found (Arena.slot_eq_ok_iff.1 slot) counts
      | @found w _ row' δ t act before' locked found slot counts =>
        obtain ⟨row, told, counted⟩ := counts
        cases act with
        | reading r =>
          obtain ⟨ε, move, found', done, eq⟩ := next.machine.moves stack (fun _ => Act.noConfusion) fun _ => Act.noConfusion
          rw [eq] at stack'
          obtain ⟨device, counts⟩ := World.resume_counts done ⟨row, told, counted⟩ (getLast?_eq_of_append stack')
          rcases g' with ⟨e, act⟩
          cases device
          exact .found before' locked found slot counts
        | answered b => exact absurd ⟨above, g', stack'⟩ (next.not_within stack)
        | _ => cases told
  obtain ⟨above, g, stack, stage⟩ := staged
  have lowest : g = ⟨d, .answered (.query row)⟩ := lowest_of_cons (answered.symm.trans stack)
  subst lowest
  rcases stage with ⟨-, same⟩ | stage
  · cases same
  · cases stage with
    | absent found beyond => exact .inl ⟨_, found, beyond, rfl⟩
    | found before locked found slot counts =>
      obtain ⟨row', told, counted⟩ := counts
      cases told
      exact .inr ⟨_, _, _, _, before, locked, found, slot, counted⟩

/-! ## All that is observed of bytes -/

namespace Moment

variable {P Q : Moment → Prop} {s : Setup} {x y : Moment} {r : Register}

/-- In every run, what is noted of bytes is just what the slots have and what the record says that handlers were given. -/
theorem noted_bytes (t : Traced P registers .blank (initial s) x r) : x.machine.world.Holds r.contents ∧
    (∀ (d : Nat) (δ : Device), x.machine.world.devices[d]? = some δ → ∀ i, δ.scheduler.declared ≤ i →
      (r.contents d i).bytes = []) ∧ x.machine.world.given = r.given := by
  induction t with
  | here => exact ⟨holds_initial, fun _ _ _ _ _ => rfl, rfl⟩
  | @more y z q t next _ ih =>
    obtain ⟨holds, unused, given⟩ := ih
    refine ⟨next.holds t.run holds, next.unused t.run unused, ?_⟩
    rw [next.given holds, given]
    rfl

/-- A call in progress is part of the run. -/
theorem noted_within {w : Moment} (t : Traced P registers .blank (initial s) x r) (before : Run (fun z => P z ∧ Q z) x w) :
    ∃ q, Traced (fun z => P z ∧ Q z) registers r x w q ∧ w.machine.world.Holds q.contents := by
  obtain ⟨q, later⟩ := before.traced registers r
  exact ⟨q, later, (noted_bytes (t.trans (later.mono fun z p => p.1))).1⟩

/-- Two slots, the first of them in a pool with two bytes for it. The handler gives bytes to its own task, which is
refused, and to the other slot. -/
def parcels : Setup :=
  ⟨[⟨2, 0, [], []⟩], false, [(1, 2)], [[[.attach .self (some [9]), .attach (.slot 1) (some [7, 8, 9])]]], 9, false⟩

def parcelCalls : List (Nat × Op) :=
  [(0, .alloc 0), (0, .declare), (0, .init), (0, .configure (.slot 0) 0 10 false), (0, .configure (.slot 1) 0 10 false),
    (0, .write (.slot 0) [1, 2, 3]), (0, .start (.slot 0)), (0, .advance 10), (0, .tick)]

/-- The handler of the first slot runs with the bytes of its segment. -/
def unpacks (f : Frame) : Bool :=
  match f with
  | ⟨d, .handling i k p⟩ => (d, i, k, p) = (0, 0, 0, .copied ⟨0, 0, 2⟩ 2)
  | _ => false

theorem mem_of_unpacks (h : x.machine.stack.any unpacks) : ⟨0, .handling 0 0 (.copied ⟨0, 0, 2⟩ 2)⟩ ∈ x.machine.stack := by
  obtain ⟨f, m, same⟩ := List.any_eq_true.1 h
  unfold unpacks at same
  split at same
  · cases of_decide_eq_true same
    exact m
  · cases same

/-- A pool of one slot, which it wipes when it hands it out. The handler calls for a slot. -/
def reclaimed : Setup := ⟨[⟨1, 0, [], []⟩], false, [(1, 2)], [[[.alloc 0]]], 9, true⟩

/-- The task is stopped, so its slot is given back, and started again all the same. -/
def reclaimedCalls : List (Nat × Op) :=
  [(0, .init), (0, .alloc 0), (0, .configure (.slot 0) 0 10 false), (0, .write (.slot 0) [1, 2]), (0, .start (.slot 0)),
    (0, .stop (.slot 0)), (0, .start (.slot 0)), (0, .advance 10), (0, .tick)]

/-- The handler is handed the slot that it runs for, and finds zeros where it was given two bytes. -/
example : let at' := fun n => ((initial reclaimed).steps n reclaimedCalls).1
    (at' 61).takes = some (0, 0) ∧ (at' 62).machine.stack.any unpacks ∧ (at' 62).machine.world.given = [(0, 0, [1, 2])] ∧
      (Payload.bytes (at' 62).machine.world.pools (.copied ⟨0, 0, 2⟩ 2)).toOption = some [0, 0] := by
  decide +kernel

end Moment

end TimedTasks
