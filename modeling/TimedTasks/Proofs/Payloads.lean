import TimedTasks.Proofs.Contents

/-!
# The bytes that handlers are given

What a handler is given is fetched under the lock, just before it runs. Beside the contents of slots, the bytes of all
invocations are noted (`Register`), and the record of the run tells of just these (`Moment.Next.given`). The handler goes
on to read where the bytes lie: its slot takes no others meanwhile, and no other slot lies there
(`Moment.Next.keeps_lent`). Where pools wipe the slots that they hand out, this slot is no exception: a call for a slot
that finds it free meanwhile puts zeros where the handler reads (`Run.lent`).
-/

namespace TimedTasks

/-- What is noted of bytes: those of all slots, and those that handlers were given, with device and slot. -/
structure Register where
  contents : Contents
  given : List (Nat × Nat × List UInt8)

namespace Moment

/-- What the next step gives to a handler: the bytes of the slot that is fetched, if it has a handler. -/
def gives (x : Moment) (c : Contents) : List (Nat × Nat × List UInt8) :=
  match x.machine.stack with
  | ⟨d, .locked (.fetch i)⟩ :: _ =>
    match (x.machine.world.devices[d]?.bind fun δ => δ.scheduler.arena[i]?).bind Task.handler with
    | some _ => [(d, i, (c d i).bytes)]
    | none => []
  | _ => []

/-- What is noted of bytes after the next step. -/
def registers (x : Moment) (r : Register) : Register := ⟨x.refer r.contents, r.given ++ x.gives r.contents⟩

end Moment

/-- Nothing is noted: all slots are empty, and no handler was invoked. -/
def Register.blank : Register := ⟨fun _ _ => ⟨none, []⟩, []⟩

/-! ## Invocations -/

/-- The bytes that the event says a handler was given. -/
def Event.given : Event → Option (Nat × Nat × List UInt8)
  | .ran d id _ _ data => some (d, id.index, data)
  | _ => none

namespace World

variable {w w' : World} {d e : Nat} {δ : Device} {act : Act} {move : Move}

/-- The bytes that handlers were given, as the record tells. -/
def given (w : World) : List (Nat × Nat × List UInt8) := w.trace.toList.filterMap Event.given

/-- An event adds the bytes that it tells of. -/
@[simp] theorem given_emit {event : Event} : (w.emit event).given = w.given ++ event.given.toList := by
  cases told : event.given <;> simp [given, emit, told]

@[simp] theorem given_leaving {acts : List Act} : (w.leaving d δ acts).world.given = w.given := rfl

@[simp] theorem given_answering {a : Answer} : (w.answering d δ a).world.given = w.given := rfl

@[simp] theorem given_calling {call : BoardCall} {acts : List Act} : (w.calling d δ call acts).world.given = w.given := rfl

@[simp] theorem given_log {message : Log} : (w.log message).given = w.given := by
  simp [log, Event.given]

@[simp] theorem given_invoke {k : Nat} : (w.invoke k).2.given = w.given := by
  unfold invoke
  split <;> rfl

theorem given_of_trace (h : w'.trace = w.trace) : w'.given = w.given := by rw [given, h, given]

/-- No other step gives anything to a handler. -/
theorem step_given (h : w.step d δ act = .ok move) (no : ∀ i, act ≠ .locked (.fetch i)) : move.world.given = w.given := by
  cases silent : act.silent with
  | true => exact given_of_trace (step_leaves_beside silent h).2
  | false =>
    cases act with
    | perform self op =>
      cases op with
      | init =>
        cases h
        unfold openSession
        split
        · cases δ.board.serves .init <;> simp [Event.given]
        · simp
      | run =>
        cases h
        unfold World.run
        split
        · rfl
        · split
          · rfl
          · simp
      | alloc k | pool k =>
        obtain ⟨p, -, h⟩ := bind_eq_ok.1 h
        split at h <;> cases h <;> rfl
      | _ => cases silent
    | interrupts call bodies =>
      cases bodies with
      | nil => cases silent
      | cons body bodies => cases h; simp [Event.given]
    | locked s =>
      cases s with
      | attach i data =>
        obtain ⟨r, -, h⟩ := bind_eq_ok.1 h
        rcases r with _ | ⟨σ, ps⟩ <;> cases h <;> rfl
      | write i data =>
        obtain ⟨r, -, h⟩ := bind_eq_ok.1 h
        rcases r with _ | ⟨kept, σ, ps⟩ <;> cases h <;> rfl
      | beginSession =>
        obtain ⟨σ, -, h⟩ := bind_eq_ok.1 h
        cases h
        simp
      | fetch i => exact absurd rfl (no i)
      | endSession =>
        obtain ⟨⟨count, σ⟩, -, h⟩ := bind_eq_ok.1 h
        cases h
        unfold closeSession
        cases serves : (δ.withScheduler σ).board.serves .deinit <;> simp [Event.given]
      | sessionOver count => cases h; simp
      | enroll k =>
        obtain ⟨p, -, h⟩ := bind_eq_ok.1 h
        obtain ⟨r, -, h⟩ := bind_eq_ok.1 h
        rcases r with _ | ⟨first, σ, ps⟩
        · cases h; simp
        · cases h; rfl
      | claim i left =>
        obtain ⟨t, -, ⟨-, rfl⟩ | ⟨-, σ, ps, -, -, rfl⟩⟩ := claim_eq_ok h <;> rfl
      | _ => cases silent
    | _ => cases silent

/-- No deadline gives bytes to a handler. -/
theorem takeDeadline_given {ms : Option UInt32} (h : w.takeDeadline d δ ms act = .ok move) : move.world.given = w.given := by
  cases act with
  | round | ticking => cases h; rfl
  | running =>
    simp only [takeDeadline] at h
    split at h
    · cases h
      unfold sleep
      split <;> simp [Event.given]
    · cases h
      rfl
  | _ => cases h

/-- Nor does an answer. -/
theorem takeAnswer_given {a : Answer} (h : w.takeAnswer d δ a act = .ok move) : move.world.given = w.given := by
  cases act with
  | report op => cases h; simp [Event.given]
  | discard => cases h; rfl
  | _ => cases h

end World

namespace Moment

variable {P : Moment → Prop} {s : Setup} {x y z : Moment} {d i : Nat} {c : Contents} {below : List Frame} {δ : Device}

/-- When a task is fetched, its handler is invoked with the bytes that the task has. -/
theorem Next.fetches (next : x.Next y) (top : x.machine.stack = ⟨d, .locked (.fetch i)⟩ :: below)
    (found : x.machine.world.devices[d]? = some δ) : ∃ t, δ.scheduler.arena[i]? = some t ∧
      match t.handler with
      | none => y.machine = ⟨x.machine.world.log (.dispatch ⟨i⟩), below⟩
      | some k => ∃ bytes ops, t.payload.bytes x.machine.world.pools = .ok bytes ∧
          y.machine.stack = ⟨d, .block (some i) ops⟩ :: ⟨d, .handling i k t.payload⟩ :: below ∧
          y.machine.world.given = x.machine.world.given ++ [(d, i, bytes)] := by
  obtain ⟨δ', move, found', done, eq⟩ := next.does top
  cases found.symm.trans found'
  rw [eq]
  obtain ⟨t, slot, done⟩ := bind_eq_ok.1 (show x.machine.world.callHandler d δ i = .ok move from done)
  refine ⟨t, Arena.slot_eq_ok_iff.1 slot, ?_⟩
  cases own : t.handler with
  | none =>
    simp only [own] at done
    cases done
    rw [World.leaving, World.put_self (w := x.machine.world.log _) found]
    rfl
  | some k =>
    simp only [own] at done
    obtain ⟨bytes, read, done⟩ := bind_eq_ok.1 done
    refine ⟨bytes, _, read, by rw [← Except.ok.inj done]; rfl, ?_⟩
    rw [← Except.ok.inj done]
    show (World.invoke _ k).2.given = _
    rw [World.given_invoke, World.given_emit, World.given_log]
    rfl

/-- The record tells of what the next step gives to a handler. -/
theorem Next.given (next : x.Next y) (holds : x.machine.world.Holds c) :
    y.machine.world.given = x.machine.world.given ++ x.gives c := by
  have idle : (∀ d i below, x.machine.stack ≠ ⟨d, .locked (.fetch i)⟩ :: below) → x.gives c = [] := by
    intro no
    unfold gives
    split
    · rename_i top
      exact absurd top (no _ _ _)
    · rfl
  have given : ∀ {f : Frame} {rest}, x.machine.stack = f :: rest → (∀ i, f.act ≠ .locked (.fetch i)) → x.gives c = [] := by
    intro f rest top other
    refine idle fun d i below fetch => ?_
    cases top.symm.trans fetch
    exact other i rfl
  cases next.machine.goes with
  | calls e op none eq =>
    have nothing : x.gives c = [] := idle fun d i below top => by
      rw [none] at top
      cases top
    rw [nothing, eq, List.append_nil, Machine.call]
  | finishes e a top eq => rw [given top fun _ => Act.noConfusion, eq, List.append_nil]
  | answers e a e' act rest δ move top _ takes eq =>
    rw [given top fun _ => Act.noConfusion, eq, List.append_nil, World.takeAnswer_given takes]
  | delivers e ms e' act rest δ move top _ takes eq =>
    rw [given top fun _ => Act.noConfusion, eq, List.append_nil, World.takeDeadline_given takes]
  | works d act rest δ move top found step eq =>
    by_cases fetch : ∃ i, act = .locked (.fetch i)
    · obtain ⟨i, rfl⟩ := fetch
      obtain ⟨t, slot, after⟩ := next.fetches top found
      have handler : (x.machine.world.devices[d]?.bind fun δ => δ.scheduler.arena[i]?).bind Task.handler = t.handler := by
        rw [found, Option.bind_some, slot, Option.bind_some]
      cases own : t.handler with
      | none =>
        rw [own] at after handler
        rw [after]
        simp only [gives, top, handler, List.append_nil, World.given_log]
      | some k =>
        rw [own] at after handler
        obtain ⟨bytes, ops, read, -, told⟩ := after
        cases ((holds d δ i t found slot).bytes.symm.trans read)
        rw [told]
        simp only [gives, top, handler]
    · rw [given top fun i same => fetch ⟨i, same⟩, eq, List.append_nil]
      exact World.step_given step fun i same => fetch ⟨i, same⟩

end Moment

/-! ## Slots that were not handed out -/

/-- Only the operations that give bytes lead to where they are given. -/
theorem Leads.fills {w : World} {δ : Device} {act : Act} {s : Stride} (l : Leads w δ act s) :
    ∀ a ∈ s.frames, a.fills = true → ∃ (self : Option Nat) (op : Op) (t : Section),
      a = .locked t ∧ op.Asks δ.scheduler self t := by
  cases l with
  | ask ask =>
    intro a m fills
    simp only [Stride.frames, List.mem_cons, List.not_mem_nil, or_false] at m
    rcases m with rfl | rfl
    · cases fills
    · exact ⟨_, _, _, rfl, ask⟩
  | _ => simp [Stride.frames, Act.fills]

namespace View

variable {v v' : View}

/-- Bytes are about to be given only to slots that were handed out. -/
def Granted (v : View) : Prop := ∀ a ∈ v.acts, a.fills → ∀ i, a.names = some i → i < v.scheduler.declared

/-- A step is about to give bytes only to a slot that it found handed out, and that stays so. -/
theorem Granted.turn (h : v.Granted) (t : Turn v v') : v'.Granted := by
  cases t with
  | @works w act s _ rest acts l =>
    intro a m fills i named
    rw [take, scheduler, Stride.scheduler_device]
    refine Nat.lt_of_lt_of_le ?_ l.declared_le
    rcases List.mem_append.1 (show a ∈ s.frames ++ rest from m) with m | m
    · obtain ⟨self, op, t, rfl, ask⟩ := l.fills a m fills
      exact Act.names_of_op ask i named
    · exact h a (acts ▸ List.mem_cons_of_mem _ m) fills i named
  | @delivers ms act s _ rest acts l =>
    intro a m fills i named
    have same : s.scheduler.declared = v.device.scheduler.declared := by cases l <;> rfl
    rw [take, scheduler, Stride.scheduler_device, same]
    rcases List.mem_append.1 (show a ∈ s.frames ++ rest from m) with m | m
    · cases l <;> simp [Stride.frames] at m <;> rcases m with rfl | rfl | rfl <;> cases fills
    · exact h a (acts ▸ List.mem_cons_of_mem _ (List.mem_cons_of_mem _ m)) fills i named

/-- So does what happens between the steps of a device. -/
theorem Granted.shift (h : v.Granted) (t : Shift v v') : v'.Granted := by
  cases t with
  | drops acts => exact fun a m => h a (acts ▸ List.mem_cons_of_mem _ m)
  | arrives self op =>
    intro a m fills
    rcases List.mem_cons.1 m with rfl | m
    · cases fills
    · exact h a m fills

end View

namespace Moment

variable {P : Moment → Prop} {s : Setup} {x y z : Moment} {d i k : Nat} {c : Contents} {δ : Device} {below : List Frame}

/-- So it is in every run. -/
theorem granted {v : View} (r : Run P (initial s) x) (h : x.view d = some v) : v.Granted :=
  view_of_run r (fun _ _ _ _ => trivial) (fun v f a m => by rw [f.acts] at m; cases m)
    (fun _ _ h (_ : True) t _ => h.turn t) (fun _ _ h t => h.shift t) h

/-- Only a slot that was handed out comes to have bytes. -/
theorem Next.unused (next : x.Next y) (r : Run P (initial s) x)
    (h : ∀ (d : Nat) (δ : Device), x.machine.world.devices[d]? = some δ → ∀ i, δ.scheduler.declared ≤ i → (c d i).bytes = []) :
    ∀ (d : Nat) (δ : Device), y.machine.world.devices[d]? = some δ → ∀ i, δ.scheduler.declared ≤ i →
      (x.refer c d i).bytes = [] := by
  intro e ε' found' j beyond
  obtain ⟨ε, found⟩ := next.machine.turn.device_before found'
  obtain ⟨ε'', found'', grows, -⟩ := next.machine.turn.declared_le found
  cases found'.symm.trans found''
  have old : (c e j).bytes = [] := h e ε found j (Nat.le_trans grows beyond)
  have shown : x.view e = some ⟨ε, pending e x.machine.stack, x.past e⟩ := by rw [view, found]; rfl
  have cleared : ∀ {d l f}, (∀ c, (f c : Content).bytes = []) → (c.alter d l f e j).bytes = [] := by
    intro d l f clear
    by_cases here : e = d ∧ j ∈ l
    · rw [Contents.alter, if_pos here]
      exact clear _
    · rw [Contents.alter_other here]
      exact old
  have stores : Stores x y c (x.refer c) := next.stores
  generalize x.refer c = c' at stores ⊢
  cases stores with
  | nothing => exact old
  | clears | wipes | enrolls => exact cleared fun _ => rfl
  | @takes d i work data below _ t p ps σ top gives =>
    by_cases here : e = d ∧ j ∈ [i]
    · -- A slot that is given bytes was handed out.
      obtain ⟨rfl, m⟩ := here
      cases List.mem_singleton.1 m
      have mem : Act.locked work ∈ pending e x.machine.stack := by rw [top, pending_same]; exact List.mem_cons_self
      have bound : j < ε.scheduler.declared :=
        granted r shown _ mem (by rcases gives with rfl | rfl <;> rfl) j (by rcases gives with rfl | rfl <;> rfl)
      omega
    · rw [Contents.alter_other here]
      exact old

/-! ## While a handler runs -/

/-- A slot with a segment was handed out. -/
theorem lt_declared_of_segment {t : Task} (r : Run P (initial s) x) (found : x.machine.world.devices[d]? = some δ)
    (slot : δ.scheduler.arena[i]? = some t) (place : t.payload.segment?.isSome) : i < δ.scheduler.declared := by
  obtain ⟨l, traced⟩ := r.traced handing []
  obtain ⟨segment, place⟩ := Option.isSome_iff_exists.1 place
  obtain ⟨h, m, -, -, device, has, -⟩ := (placed traced).owner d δ i t segment found slot place
  exact ((ledger traced).tiles d δ found).1.has_iff.1 ⟨h, List.mem_filter.2 ⟨m, by simpa using device⟩, has⟩

/-- A slot keeps its segment. -/
theorem Next.keeps_segment {t : Task} {segment : Segment} (next : x.Next y) (r : Run P (initial s) x)
    (found : x.machine.world.devices[d]? = some δ) (slot : δ.scheduler.arena[i]? = some t)
    (place : t.payload.segment? = some segment) : ∃ δ' t', y.machine.world.devices[d]? = some δ' ∧
      δ'.scheduler.arena[i]? = some t' ∧ t'.payload.segment? = some segment := by
  obtain ⟨δ', found', act, slots⟩ := next.machine.turn.slots found
  have becomes := slots i
  rw [slot] at becomes
  generalize new : δ'.scheduler.arena[i]? = o at becomes
  cases becomes with
  | @some _ t' becomes =>
    refine ⟨δ', t', found', new, ?_⟩
    by_cases enrolls : ∃ k, act = .locked (.enroll k)
    · obtain ⟨k, rfl⟩ := enrolls
      cases becomes with
      | same => exact place
      | enroll _ _ low =>
        have bound := lt_declared_of_segment r found slot (by rw [place]; rfl)
        omega
      | copy filled => rcases filled with filled | filled <;> cases filled
    · exact (becomes.samePlace fun k same => enrolls ⟨k, same⟩).1.trans place

/-- What a handler in progress was given lies in the segment of its slot, if it has one. -/
def Lends (x : Moment) : Prop := ∀ d i k segment length, ⟨d, .handling i k (.copied segment length)⟩ ∈ x.machine.stack →
  ∃ (δ : Device) (t : Task), x.machine.world.devices[d]? = some δ ∧ δ.scheduler.arena[i]? = some t ∧
    t.payload.segment? = some segment ∧ length ≤ segment.size

/-- No other step puts a handler on the stack. -/
theorem Next.handling_before {d i k : Nat} {p : Payload} (next : x.Next y) (m : ⟨d, .handling i k p⟩ ∈ y.machine.stack) :
    ⟨d, .handling i k p⟩ ∈ x.machine.stack ∨ ∃ δ t below, x.machine.stack = ⟨d, .locked (.fetch i)⟩ :: below ∧
      x.machine.world.devices[d]? = some δ ∧ δ.scheduler.arena[i]? = some t ∧ t.payload = p := by
  cases next.machine.turn with
  | works e act rest δ s top found l takes =>
    rw [takes.stack] at m
    rcases List.mem_append.1 m with m | m
    · obtain ⟨a, ma, same⟩ := List.mem_map.1 m
      cases same
      cases l with
      | fetched slot =>
        simp only [Stride.frames, List.mem_cons, List.not_mem_nil, or_false] at ma
        rcases ma with ma | ma
        · cases ma
        · cases ma
          exact .inr ⟨δ, _, rest, top, found, Arena.slot_eq_ok_iff.1 slot, rfl⟩
      | _ => simp [Stride.frames] at ma
    · exact .inl (top ▸ List.mem_cons_of_mem _ m)
  | delivers e e' ms act rest δ s top found l takes =>
    rw [takes.stack] at m
    rcases List.mem_append.1 m with m | m
    · obtain ⟨a, ma, same⟩ := List.mem_map.1 m
      cases same
      cases l <;> simp [Stride.frames] at ma
    · exact .inl (top ▸ List.mem_cons_of_mem _ (List.mem_cons_of_mem _ m))
  | redirects e e' self op rest top world top' =>
    rw [top'] at m
    rcases List.mem_cons.1 m with same | m
    · cases same
    · exact .inl (top ▸ List.mem_cons_of_mem _ m)
  | answers e e' a act rest top takes alike top' =>
    rw [top'] at m
    exact .inl (top ▸ List.mem_cons_of_mem _ (List.mem_cons_of_mem _ m))
  | finishes e a top world top' => rw [top'] at m; cases m
  | calls e op top world top' =>
    rw [top'] at m
    cases List.mem_singleton.1 m

/-- A step keeps what handlers were given in the segments of their slots: a segment is never moved. -/
theorem Next.lends (next : x.Next y) (r : Run P (initial s) x) (h : x.Lends) : y.Lends := by
  intro d i k segment length m
  have before : ∃ (δ : Device) (t : Task), x.machine.world.devices[d]? = some δ ∧ δ.scheduler.arena[i]? = some t ∧
      t.payload.segment? = some segment ∧ length ≤ segment.size := by
    rcases next.handling_before m with old | ⟨δ, t, below, top, found, slot, payload⟩
    · exact h d i k segment length old
    · exact ⟨δ, t, found, slot, by rw [payload]; rfl, (Moment.stored r d δ i t segment length found slot payload).1⟩
  obtain ⟨δ, t, found, slot, place, short⟩ := before
  obtain ⟨δ', t', found', slot', place'⟩ := next.keeps_segment r found slot place
  exact ⟨δ', t', found', slot', place', short⟩

/-- So it is in every run. -/
theorem lends (r : Run P (initial s) x) : x.Lends := by
  refine (r.also fun z r => r).invariant (I := Lends) (fun d i k segment length m => nomatch m) ?_
  exact fun z z' h p next _ => next.lends p.2 h

/-- The bytes in the segment of a slot are overwritten only while its task is stopped, or when the slot is wiped. -/
theorem Next.keeps_bytes {t : Task} {segment : Segment} {length : Nat} (next : x.Next y) (r : Run P (initial s) x)
    (found : x.machine.world.devices[d]? = some δ) (slot : δ.scheduler.arena[i]? = some t)
    (place : t.payload.segment? = some segment) (short : length ≤ segment.size) (busy : t.state ≠ .stopped)
    (kept : x.machine.world.wipes = true → x.takes ≠ some (d, i)) :
    (Payload.copied segment length).bytes y.machine.world.pools =
      (Payload.copied segment length).bytes x.machine.world.pools := by
  have stores : Stores x y _ (x.refer fun _ _ => ⟨none, []⟩) := next.stores
  generalize x.refer _ = c' at stores
  cases stores with
  | nothing pools | clears pools => rw [pools]
  | @wipes e j ε u ps wipes took there slot' wiped pools =>
    obtain ⟨data, p, takes, -⟩ := Payload.takes_of_wipe wiped
    rw [pools]
    refine takes.bytes_eq (fun a b place' same => ?_) fun a same => by cases same; exact short
    cases same
    refine Moment.apart r e d j i ε δ u t a segment there slot' place' found slot place fun same => ?_
    obtain ⟨rfl, rfl⟩ := same
    exact kept wipes took
  | @enrolls e j ε q a there pool made after =>
    rw [after]
    refine Payload.bytes_of_storage fun j' => ?_
    rw [World.handOver, World.put, Array.getElem?_setIfInBounds]
    by_cases here : j = j'
    · subst here
      rw [if_pos rfl, if_pos (Array.getElem?_eq_some_iff.1 pool).1, pool]
      rfl
    · rw [if_neg here]
  | @takes e j work data below ε u q ps σ _ _ there slot' stopped takes altered after =>
    rw [after]
    refine takes.bytes_eq (fun a b place' same => ?_) fun a same => by cases same; exact short
    cases same
    refine Moment.apart r e d j i ε δ u t a segment there slot' place' found slot place fun same => ?_
    obtain ⟨rfl, rfl⟩ := same
    cases found.symm.trans there
    cases slot.symm.trans slot'
    exact busy stopped

/-- What a handler was given is not overwritten while it runs, unless its slot is wiped. -/
theorem Next.keeps_lent {p : Payload} (next : x.Next y) (r : Run P (initial s) x)
    (m : ⟨d, .handling i k p⟩ ∈ x.machine.stack) (kept : x.machine.world.wipes = true → x.takes ≠ some (d, i)) : p.bytes y.machine.world.pools = p.bytes x.machine.world.pools := by
  cases p with
  | attached bytes => rfl
  | copied segment length =>
    obtain ⟨δ, t, found, slot, place, short⟩ := Moment.lends r d i k segment length m
    refine next.keeps_bytes r found slot place short (fun stopped => ?_) kept
    -- The task of a handler in progress is not stopped.
    have sound := sound r (view_of_device found)
    have busy := (sound.handling i).2 (sound.column.settle_of_handling (mem_pending.2 m))
    rw [View.scheduler, Scheduler.life, Arena.life_of_slot (Arena.slot_eq_ok_iff.2 slot), Task.life, stopped] at busy
    cases busy

/-- When a slot is wiped while its handler runs, the handler finds zeros where it was given bytes of the slot. -/
theorem Next.wipes_lent {p : Payload} (next : x.Next y) (r : Run P (initial s) x)
    (m : ⟨d, .handling i k p⟩ ∈ x.machine.stack) (wipes : x.machine.world.wipes = true) (took : x.takes = some (d, i)) :
    p.bytes y.machine.world.pools = p.bytes x.machine.world.pools ∨
      p.bytes y.machine.world.pools = .ok (List.replicate p.length 0) := by
  cases p with
  | attached bytes => exact .inl rfl
  | copied segment length =>
    obtain ⟨δ, t, found, slot, place, short⟩ := Moment.lends r d i k segment length m
    obtain ⟨j, left, below, top, given⟩ := takes_eq_some_iff.1 took
    obtain ⟨u, slot', after⟩ := next.takes_slot top found
    rw [next.answers top] at given
    split at after
    · rw [after] at given
      cases given
    · obtain ⟨σ, ps, -, wiped, after⟩ := after
      rw [after] at given ⊢
      cases given
      cases slot.symm.trans slot'
      obtain ⟨keeps, -⟩ | ⟨-, wiped⟩ := World.wiped_eq_ok wiped
      · rw [wipes] at keeps
        cases keeps
      · cases payload : t.payload with
        | attached bytes => rw [payload] at place; cases place
        | copied segment' old =>
          rw [payload] at place wiped
          cases place
          exact .inr (Payload.bytes_of_wipe wiped short)

/-- Whether pools wipe is settled by the setup. -/
theorem wipes_of_run (r : Run P (initial s) x) : x.machine.world.wipes = s.wipes :=
  r.invariant (I := fun z => z.machine.world.wipes = s.wipes) rfl fun _ _ h _ next _ => next.machine.turn.wipes_eq.trans h

/-- A slot is handed out in the course of the run. -/
def TakenBetween (P : Moment → Prop) (d i : Nat) (x y : Moment) : Prop :=
  ∃ w z, Run P x w ∧ w.takes = some (d, i) ∧ w.Next z ∧ Run P z y

end Moment

/-- While a handler runs, it finds what it was given as it was given. Only in a build that wipes slots it can come to find
zeros instead, when its own slot was handed out meanwhile. -/
theorem Run.lent {P : Moment → Prop} {s : Setup} {x y : Moment} {d i k : Nat} {p : Payload} {bytes : List UInt8}
    (r : Run (fun z => ⟨d, .handling i k p⟩ ∈ z.machine.stack) x y) (before : Run P (.initial s) x)
    (given : p.bytes x.machine.world.pools = .ok bytes) :
    p.bytes y.machine.world.pools = .ok bytes ∨
      s.wipes ∧ Moment.TakenBetween (fun z => ⟨d, .handling i k p⟩ ∈ z.machine.stack) d i x y ∧
        p.bytes y.machine.world.pools = .ok (List.replicate bytes.length 0) := by
  induction r with
  | here => exact .inl given
  | @more v z r next holds ih =>
    have reached : Run (fun _ => True) (.initial s) v :=
      (before.mono fun _ _ => trivial).trans (r.mono fun _ _ => trivial)
    have same (kept : p.bytes z.machine.world.pools = p.bytes v.machine.world.pools) :
        p.bytes z.machine.world.pools = .ok bytes ∨
          s.wipes ∧ Moment.TakenBetween (fun z => ⟨d, .handling i k p⟩ ∈ z.machine.stack) d i x z ∧
            p.bytes z.machine.world.pools = .ok (List.replicate bytes.length 0) := by
      rw [kept]
      refine ih.imp_right fun ⟨wipes, ⟨w, w', first, took, goes, later⟩, zeros⟩ => ⟨wipes, ?_, zeros⟩
      exact ⟨w, w', first, took, goes, later.more next holds⟩
    by_cases took : v.machine.world.wipes = true ∧ v.takes = some (d, i)
    · obtain ⟨wipes, took⟩ := took
      rcases next.wipes_lent reached r.last wipes took with kept | zeros
      · exact same kept
      · rw [Moment.wipes_of_run reached] at wipes
        refine .inr ⟨wipes, ⟨v, z, r, took, next, .here holds⟩, ?_⟩
        rw [zeros, Payload.length_of_bytes given]
    · exact same (next.keeps_lent reached r.last fun wipes takes => took ⟨wipes, takes⟩)

end TimedTasks
