import TimedTasks.Proofs.Taken

/-!
# What the bytes of slots are to be

Beside a run, each slot is kept as an own list of bytes, with a room of its own (`Content`): operations fill it and clear it
by what they are asked and how they are answered (`Moment.refer`), and nothing is known there of segments, lengths and
stores. `World.Holds` says that the slots themselves show just these bytes, and every step keeps it so
(`Moment.Next.holds`).

What a step does to bytes at all is listed in `Moment.Stores`.
-/

namespace TimedTasks

/-- The bytes that a slot is to have, and how many it has room for. A slot of no pool takes any number of them. -/
structure Content where
  room : Option Nat
  bytes : List UInt8
  deriving DecidableEq, Repr

namespace Content

/-- As many of the bytes as there is room for. -/
def fill (c : Content) (data : List UInt8) : Content :=
  { c with bytes := match c.room with | none => data | some size => data.take size }

def clear (c : Content) : Content := { c with bytes := [] }

end Content

/-- The contents of all slots, by device and index. -/
abbrev Contents := Nat → Nat → Content

/-- Other contents for some slots of a device. -/
def Contents.alter (c : Contents) (d : Nat) (slots : List Nat) (f : Content → Content) : Contents :=
  fun e i => if e = d ∧ i ∈ slots then f (c e i) else c e i

/-! ## The reference -/

namespace Moment

/-- How many bytes each slot of a pool has room for. -/
def slotSize (x : Moment) (k : Nat) : Nat := (x.machine.world.pools[k]?.map Pool.slotSize).getD 0

/-- The contents after the next step: bytes that are attached or written fill a slot, unless they are refused. A slot that
is handed out is cleared, and so are all queued slots at the beginning and at the end of a session. The slots that a pool
comes to are empty, with the room that the pool has. -/
def refer (x : Moment) (c : Contents) : Contents :=
  match x.machine.stack with
  | ⟨d, .locked (.attach i data)⟩ :: _ =>
    match x.answers with
    | some .done => c.alter d [i] (·.fill data)
    | _ => c
  | ⟨d, .locked (.write i data)⟩ :: _ =>
    match x.answers with
    | some (.kept _) => c.alter d [i] (·.fill data)
    | _ => c
  | ⟨d, .locked (.claim _ _)⟩ :: _ =>
    match x.answers with
    | some (.slot (some id)) => c.alter d [id.index] .clear
    | _ => c
  | ⟨d, .locked .beginSession⟩ :: _ | ⟨d, .locked .endSession⟩ :: _ => c.alter d (x.queued d) .clear
  | ⟨d, .locked (.enroll k)⟩ :: _ =>
    match x.handsOut with
    | some h => c.alter d (List.range' h.first h.count) fun _ => ⟨some (x.slotSize k), []⟩
    | none => c
  | _ => c

end Moment

/-- The act can change the bytes of slots. -/
def Act.stores : Act → Bool
  | locked (.attach ..) | locked (.write ..) | locked (.claim ..) | locked .beginSession | locked .endSession
  | locked (.enroll _) => true
  | _ => false

namespace Moment

variable {x y : Moment} {c : Contents}

theorem refer_eq_self (no : ∀ f ∈ x.machine.stack.head?, f.act.stores = false) : x.refer c = c := by
  have never : ∀ {d act below}, x.machine.stack = ⟨d, act⟩ :: below → act.stores = true → False := by
    intro d act below top stores
    have none := no ⟨d, act⟩ (by rw [top]; rfl)
    rw [stores] at none
    cases none
  unfold refer
  split
  all_goals first | rfl | (rename_i top; exact (never top rfl).elim)

end Moment

/-! ## What a step does to bytes -/

/-- No other step changes the payload of a slot. -/
theorem Becomes.payload_eq {ps : Pools} {σ : Scheduler} {now : UInt32} {i : Nat} {act : Act} {t t' : Task}
    (b : Becomes ps σ now i act t t') (no : act.stores = false) : t'.payload = t.payload := by
  cases b with
  | same | relength | stamp | renew | dispatch | configure | link => rfl
  | stop => exact t.payload_stop
  | settle => exact t.payload_settle
  | copy filled => rcases filled with rfl | rfl <;> cases no
  | attach | handOut | enroll | begin | finish => cases no

namespace Moment

/-- The slots of all devices show what they showed before, as `f` changes it. -/
def Shows (x y : Moment) (f : Nat → Nat → Payload → Payload) : Prop :=
  ∀ (d : Nat) (δ' : Device), y.machine.world.devices[d]? = some δ' → ∃ δ, x.machine.world.devices[d]? = some δ ∧
    ∀ i : Nat, Option.Rel (fun t t' : Task => t'.payload = f d i t.payload) δ.scheduler.arena[i]? δ'.scheduler.arena[i]?

/-- What a step does to the bytes of slots, and what becomes of the reference then. -/
inductive Stores (x y : Moment) (c : Contents) : Contents → Prop
  | nothing : y.machine.world.pools = x.machine.world.pools → Shows x y (fun _ _ p => p) → Stores x y c c
  /-- A stopped slot takes bytes. -/
  | takes {d i work data below δ t p ps σ} : x.machine.stack = ⟨d, .locked work⟩ :: below →
      work = .attach i data ∨ work = .write i data → x.machine.world.devices[d]? = some δ →
      δ.scheduler.arena[i]? = some t → t.state = .stopped → t.payload.Takes x.machine.world.pools data p ps →
      (δ.scheduler.alter i fun t => { t with payload := p }) = .ok σ →
      y.machine.world = World.put { x.machine.world with pools := ps } d (δ.withScheduler σ) →
      Stores x y c (c.alter d [i] (·.fill data))
  | clears {d l} : y.machine.world.pools = x.machine.world.pools →
      Shows x y (fun e i p => if e = d ∧ i ∈ l then p.emptied else p) → Stores x y c (c.alter d l .clear)
  /-- A slot is handed out in a build that wipes slots. -/
  | wipes {d i δ t ps} : x.machine.world.wipes = true → x.takes = some (d, i) → x.machine.world.devices[d]? = some δ →
      δ.scheduler.arena[i]? = some t → x.machine.world.pools.wipe t.payload = .ok ps → y.machine.world.pools = ps →
      Shows x y (fun e j p => if e = d ∧ j ∈ [i] then p.emptied else p) → Stores x y c (c.alter d [i] .clear)
  /-- A pool comes to its slots. -/
  | enrolls {d k δ p a} : x.machine.world.devices[d]? = some δ → x.machine.world.pools[k]? = some p →
      Scheduler.enrollSlots δ.scheduler.arena k p.slotSize δ.scheduler.declared p.slots = .ok a →
      y.machine.world = x.machine.world.handOver d δ k p a →
      Stores x y c (c.alter d (List.range' δ.scheduler.declared p.slots) fun _ => ⟨some p.slotSize, []⟩)

section

variable {x y : Moment} {c : Contents} {f : Nat → Nat → Payload → Payload}

theorem Shows.same (devices : y.machine.world.devices = x.machine.world.devices) : Shows x y fun _ _ p => p :=
  fun _ δ found => ⟨δ, devices ▸ found, fun _ => rel_self fun _ _ => rfl⟩

/-- One device is put in place. -/
theorem Shows.put {d : Nat} {δ δ' : Device} (found : x.machine.world.devices[d]? = some δ)
    (devices : y.machine.world.devices = x.machine.world.devices.setIfInBounds d δ')
    (slots : ∀ i : Nat, Option.Rel (fun t t' : Task => t'.payload = f d i t.payload) δ.scheduler.arena[i]?
      δ'.scheduler.arena[i]?) (other : ∀ e i p, e ≠ d → f e i p = p) : Shows x y f := by
  intro e ε found'
  rw [devices, Array.getElem?_setIfInBounds] at found'
  by_cases here : d = e
  · subst here
    rw [if_pos rfl, if_pos (Array.getElem?_eq_some_iff.1 found).1] at found'
    cases found'
    exact ⟨δ, found, slots⟩
  · rw [if_neg here] at found'
    exact ⟨ε, found', fun i => rel_self fun t _ => (other e i _ (Ne.symm here)).symm⟩

theorem Next.shows_of_no_stores (next : x.Next y) (no : ∀ f ∈ x.machine.stack.head?, f.act.stores = false) :
    Shows x y fun _ _ p => p := by
  intro d δ' found'
  obtain ⟨δ, found⟩ := next.machine.turn.device_before found'
  refine ⟨δ, found, ?_⟩
  have same : ∀ (σ : Scheduler) (i : Nat), Option.Rel (fun t t' : Task => t'.payload = t.payload) σ.arena[i]? σ.arena[i]? :=
    fun σ i => rel_self fun _ _ => rfl
  have works : ∀ act rest t, x.machine.stack = ⟨d, act⟩ :: rest → Leads x.machine.world δ act t → ∀ i : Nat,
      Option.Rel (fun t t' : Task => t'.payload = t.payload) δ.scheduler.arena[i]? t.scheduler.arena[i]? := by
    intro act rest t top l i
    have own : act.stores = false := no ⟨d, act⟩ (by rw [top]; rfl)
    have slot := l.slots i
    generalize δ.scheduler.arena[i]? = o at slot ⊢
    generalize t.scheduler.arena[i]? = o' at slot ⊢
    cases slot with
    | none => exact .none
    | some b => exact .some (b.payload_eq own)
  obtain ⟨δ'', found'', slots⟩ := next.machine.turn.scheduler
    (R := fun σ σ' => ∀ i : Nat, Option.Rel (fun t t' : Task => t'.payload = t.payload) σ.arena[i]? σ'.arena[i]?) found
    (same _) works fun ms act s l => by cases l <;> exact same _
  cases found'.symm.trans found''
  exact slots

theorem Next.pools_of_no_stores (next : x.Next y) (no : ∀ f ∈ x.machine.stack.head?, f.act.stores = false) :
    y.machine.world.pools = x.machine.world.pools := by
  cases next.machine.goes with
  | calls d op idle eq => rw [eq, Machine.call]
  | finishes d a top eq => rw [eq]
  | answers e a d act rest δ move top found takes eq => rw [eq]; exact World.takeAnswer_pools takes
  | delivers e ms d act rest δ move top found takes eq => rw [eq]; exact World.takeDeadline_pools takes
  | works d act rest δ move top found step eq =>
    rw [eq]
    have own : act.stores = false := no ⟨d, act⟩ (by rw [top]; rfl)
    refine World.step_keeps_pools step ?_
    cases act with
    | locked s => cases s <;> first | rfl | cases own
    | _ => rfl

/-- A session begins or ends on a device. -/
theorem Stores.dismisses {d : Nat} {δ δ' : Device} {l : List Nat} {back : Nat → Bool}
    (found : x.machine.world.devices[d]? = some δ)
    (devices : y.machine.world.devices = x.machine.world.devices.setIfInBounds d δ')
    (pools : y.machine.world.pools = x.machine.world.pools)
    (slots : ∀ i : Nat, δ'.scheduler.arena[i]? = δ.scheduler.arena[i]?.map (·.retire (i ∈ l) (back i))) :
    Stores x y c (c.alter d l .clear) := by
  refine .clears pools (.put found devices (fun i => ?_) fun e i p other => by rw [if_neg fun here => other here.1])
  rw [slots i]
  refine rel_map fun t _ => ?_
  rw [Task.payload_retire]
  by_cases queued : i ∈ l <;> simp [queued]

theorem Next.stores (next : x.Next y) : Stores x y c (x.refer c) := by
  by_cases idle : ∀ f ∈ x.machine.stack.head?, f.act.stores = false
  · rw [refer_eq_self idle]
    exact .nothing (next.pools_of_no_stores idle) (next.shows_of_no_stores idle)
  obtain ⟨⟨d, act⟩, below, top, stores⟩ : ∃ f below, x.machine.stack = f :: below ∧ f.act.stores = true := by
    cases stack : x.machine.stack with
    | nil => simp [stack] at idle
    | cons f below => exact ⟨f, below, rfl, by simpa [stack] using idle⟩
  cases act with
  | locked s =>
    have answers := next.answers top
    obtain ⟨δ, move, found, done, eq⟩ := next.does top
    have refused : ∀ {e}, y.machine = ⟨x.machine.world, ⟨d, .answered (.failed e)⟩ :: below⟩ → x.refer c = c →
        Stores x y c (x.refer c) := fun after same => by
      rw [same]
      exact .nothing (by rw [after]) (.same (by rw [after]))
    cases s with
    | attach i data =>
      obtain ⟨t, slot, after⟩ := next.attaches top found
      split at after
      · rename_i stopped
        obtain ⟨p, ps, σ, takes, altered, after⟩ := after
        rw [after] at answers
        simp only [refer, top, answers, Machine.answer]
        exact .takes top (.inl rfl) found slot stopped takes altered (by rw [after])
      · refine refused after ?_
        rw [after] at answers
        simp only [refer, top, answers, Machine.answer]
    | write i data =>
      obtain ⟨t, slot, after⟩ := next.writes top found
      split at after
      · rename_i stopped
        split at after
        · refine refused after ?_
          rw [after] at answers
          simp only [refer, top, answers, Machine.answer]
        · rename_i segment length payload
          obtain ⟨kept, ps, σ, copied, altered, after⟩ := after
          rw [after] at answers
          simp only [refer, top, answers, Machine.answer]
          exact .takes top (.inr rfl) found slot stopped (by rw [payload]; exact .copies copied) altered (by rw [after])
      · refine refused after ?_
        rw [after] at answers
        simp only [refer, top, answers, Machine.answer]
    | claim i left =>
      obtain ⟨t, slot, after⟩ := next.takes_slot top found
      split at after
      · have same : x.refer c = c := by
          rw [after] at answers
          simp only [refer, top, answers, Machine.answer]
        rw [same]
        exact .nothing (by rw [after]) (.same (by rw [after]))
      · obtain ⟨σ, ps, altered, wiped, after⟩ := after
        have took : x.takes = some (d, i) := (next.takes_iff top).2 (by rw [after]; rfl)
        rw [after] at answers
        simp only [refer, top, answers, Machine.answer]
        have shows : Shows x y fun e j p => if e = d ∧ j ∈ [i] then p.emptied else p := by
          refine .put found (by rw [after]; rfl) ?_ fun e i p other => by rw [if_neg fun here => other here.1]
          refine Scheduler.rel_alter altered (fun t _ => ?_) fun j t other => ?_
          · rw [if_pos ⟨rfl, List.mem_singleton.2 rfl⟩]
            rfl
          · rw [if_neg fun here => other (List.mem_singleton.1 here.2).symm]
        obtain ⟨-, same⟩ | ⟨wipes, wiped⟩ := World.wiped_eq_ok wiped
        · exact .clears (by rw [after, same]; rfl) shows
        · exact .wipes wipes took found slot wiped (by rw [after]; rfl) shows
    | beginSession =>
      obtain ⟨σ, begun, done⟩ := bind_eq_ok.1 done
      cases done
      obtain ⟨l, queued, slots⟩ := Scheduler.beginSession_slots begun
      simp only [refer, top, queued_eq found queued]
      exact .dismisses found (by rw [eq]; rfl) (by rw [eq]; rfl) slots
    | endSession =>
      obtain ⟨⟨n, σ⟩, ended, done⟩ := bind_eq_ok.1 done
      obtain ⟨l, queued, -, slots⟩ := Scheduler.endSession_slots ended
      have world : ∃ δ', y.machine.world.devices = x.machine.world.devices.setIfInBounds d δ' ∧ δ'.scheduler = σ ∧
          y.machine.world.pools = x.machine.world.pools := by
        cases done
        rw [eq, World.closeSession]
        split <;> exact ⟨_, rfl, rfl, rfl⟩
      obtain ⟨δ', devices, same, pools⟩ := world
      simp only [refer, top, queued_eq found queued]
      subst same
      exact .dismisses found devices pools slots
    | enroll k =>
      obtain ⟨δ, p, found, pool, enrolls⟩ := next.cases_of_enroll top
      have size : x.slotSize k = p.slotSize := by rw [Moment.slotSize, pool]; rfl
      simp only [refer, top, next.handsOut_of_enroll top found pool, size]
      cases enrolls with
      | bound first after =>
        rw [if_neg (by simp [first])]
        exact .nothing (by rw [after]) (.same (by rw [after]))
      | fits first room made after =>
        rw [if_pos ⟨first, room⟩]
        exact .enrolls found pool made (by rw [after])
      | full _ full after =>
        rw [if_neg fun room => full room.2]
        exact .nothing (by rw [after]; rfl) (.same (by rw [after]; rfl))
    | _ => cases stores
  | _ => cases stores

end

end Moment

/-! ## What was stored is read back -/

/-- What is read of a segment is what the store of its pool has there. -/
theorem Pools.read_eq_ok_iff {ps : Pools} {segment : Segment} {length : Nat} {bytes : List UInt8} :
    ps.read segment length = .ok bytes ↔
      ∃ p, ps[segment.pool]? = some p ∧ p.read? segment.offset length = some bytes := by
  constructor
  · intro h
    obtain ⟨p, hp, h⟩ := bind_eq_ok.1 h
    refine ⟨p, pool_eq_ok hp, ?_⟩
    split at h
    · rename_i found
      cases h
      exact found
    · cases h
  · rintro ⟨p, found, read⟩
    exact bind_eq_ok.2 ⟨p, by rw [pool, found], by rw [read]⟩

theorem Pool.length_of_read? {p : Pool} {offset length : Nat} {bytes : List UInt8}
    (h : p.read? offset length = some bytes) : offset + length ≤ p.storage.length ∧ bytes.length = length := by
  unfold read? at h
  split at h
  · rename_i room
    cases h
    exact ⟨room, by simp; omega⟩
  · cases h

/-- From the same place, fewer bytes are the first ones of more. -/
theorem Pool.read?_of_le {p : Pool} {offset length fewer : Nat} {bytes : List UInt8}
    (h : p.read? offset length = some bytes) (le : fewer ≤ length) : p.read? offset fewer = some (bytes.take fewer) := by
  unfold read? at h ⊢
  split at h
  · cases h
    rw [if_pos (by omega), List.take_take, Nat.min_eq_left le]
  · cases h

/-- Bytes that are copied to one segment change nothing in another one. -/
theorem Pools.read_of_copy {ps ps' : Pools} {s s' : Segment} {data : List UInt8} {kept length : Nat}
    (copied : ps.copy s data = .ok (kept, ps')) (apart : s.Apart s') (short : length ≤ s'.size) :
    ps'.read s' length = ps.read s' length := by
  obtain ⟨rfl, p, q, found, written, rfl⟩ := copy_eq_ok copied
  have there : (ps.setIfInBounds s.pool q)[s'.pool]? = if s.pool = s'.pool then some q else ps[s'.pool]? := by
    rw [Array.getElem?_setIfInBounds, if_pos (Array.getElem?_eq_some_iff.1 found).1]
  by_cases same : s.pool = s'.pool
  · rw [if_pos same] at there
    rw [same] at found
    have alike : q.read? s'.offset length = p.read? s'.offset length := by
      refine (Pool.alike_of_write? written).read? fun pos low high => ?_
      have kept := List.length_take_le s.size data
      rw [Pool.getElem?_write? written, if_neg]
      rcases apart with other | before | before
      · exact absurd same other
      · omega
      · omega
    simp only [read, pool, there, found, bind, Except.bind, alike]
  · rw [if_neg same] at there
    simp only [read, pool, there]

namespace Payload

variable {ps ps' : Pools} {p p' q : Payload} {c : Content} {data bytes : List UInt8}

theorem length_of_bytes (h : p.bytes ps = .ok bytes) : p.length = bytes.length := by
  cases p with
  | attached own => cases h; rfl
  | copied segment length =>
    obtain ⟨store, -, read⟩ := Pools.read_eq_ok_iff.1 (show ps.read segment length = .ok bytes from h)
    exact (Pool.length_of_read? read).2.symm

/-- The bytes of a payload depend on the stores of the pools only. -/
theorem bytes_of_storage (same : ∀ k : Nat, ps'[k]?.map Pool.storage = ps[k]?.map Pool.storage) : p.bytes ps' = p.bytes ps := by
  cases p with
  | attached own => rfl
  | copied segment length =>
    have same := same segment.pool
    show ps'.read segment length = ps.read segment length
    simp only [Pools.read, Pools.pool]
    cases old : ps[segment.pool]? with
    | none =>
      rw [old, Option.map_none, Option.map_eq_none_iff] at same
      rw [same]
    | some store =>
      rw [old, Option.map_some, Option.map_eq_some_iff] at same
      obtain ⟨store', new, storage⟩ := same
      rw [new]
      simp only [bind, Except.bind, Pool.read?, storage]

/-- The payload shows the bytes of a content, and has its room. -/
structure Holds (p : Payload) (ps : Pools) (c : Content) : Prop where
  bytes : p.bytes ps = .ok c.bytes
  room : p.segment?.map Segment.size = c.room

namespace Holds

theorem length (h : p.Holds ps c) : p.length = c.bytes.length := length_of_bytes h.bytes

/-- What a payload takes is what fills it. -/
theorem takes (h : p.Holds ps c) (t : p.Takes ps data p' ps') : p'.Holds ps' (c.fill data) := by
  have room := h.room
  rcases c with ⟨size, bytes⟩
  cases t with
  | refers =>
    cases room
    exact ⟨rfl, rfl⟩
  | @copies segment length kept ps' copied =>
    cases room
    obtain ⟨rfl, store, store', found, written, rfl⟩ := Pools.copy_eq_ok copied
    refine ⟨Pools.read_eq_ok_iff.2 ⟨store', ?_, Pool.read?_of_write? written⟩, rfl⟩
    rw [Array.getElem?_setIfInBounds, if_pos rfl, if_pos (Array.getElem?_eq_some_iff.1 found).1]

theorem emptied (h : p.Holds ps c) : p.emptied.Holds ps c.clear := by
  refine ⟨?_, by rw [segment?_emptied]; exact h.room⟩
  cases p with
  | attached own => rfl
  | copied segment length =>
    obtain ⟨store, found, read⟩ := Pools.read_eq_ok_iff.1 (show ps.read segment length = .ok c.bytes from h.bytes)
    obtain ⟨reach, -⟩ := Pool.length_of_read? read
    exact Pools.read_eq_ok_iff.2 ⟨store, found, by rw [Pool.read?, if_pos (by omega)]; rfl⟩

end Holds

/-- To wipe a segment is to give it zeros. -/
theorem takes_of_wipe (h : ps.wipe p = .ok ps') : ∃ data p', p.Takes ps data p' ps' ∧ p'.emptied = p.emptied := by
  obtain ⟨⟨bytes, rfl⟩, rfl⟩ | ⟨segment, length, kept, rfl, copied⟩ := Pools.wipe_eq_ok h
  · exact ⟨[], _, .refers, rfl⟩
  · exact ⟨_, _, .copies copied, rfl⟩

/-- In a segment that was wiped, zeros are read. -/
theorem bytes_of_wipe {segment : Segment} {old length : Nat} (h : ps.wipe (.copied segment old) = .ok ps')
    (short : length ≤ segment.size) : (copied segment length).bytes ps' = .ok (List.replicate length 0) := by
  obtain ⟨⟨_, same⟩, -⟩ | ⟨_, _, kept, same, copied⟩ := Pools.wipe_eq_ok h
  · cases same
  · cases same
    obtain ⟨-, store, store', found, written, rfl⟩ := Pools.copy_eq_ok copied
    have read := Pool.read?_of_le (Pool.read?_of_write? written) (by simpa using short)
    refine Pools.read_eq_ok_iff.2 ⟨store', ?_, by simpa [short] using read⟩
    rw [Array.getElem?_setIfInBounds, if_pos rfl, if_pos (Array.getElem?_eq_some_iff.1 found).1]

/-- What one payload takes leaves the bytes of another one as they are. -/
theorem Takes.bytes_eq (t : p.Takes ps data p' ps') (apart : ∀ s s', p.segment? = some s → q.segment? = some s' → s.Apart s')
    (short : ∀ s, q.segment? = some s → q.length ≤ s.size) : q.bytes ps' = q.bytes ps := by
  cases t with
  | refers => rfl
  | copies copied =>
    cases q with
    | attached own => rfl
    | copied segment length => exact Pools.read_of_copy copied (apart _ _ rfl rfl) (short _ rfl)

end Payload

/-! ## Slots show what they are to -/

namespace World

/-- The slots show the bytes that they are to have. -/
def Holds (w : World) (c : Contents) : Prop := ∀ (d : Nat) (δ : Device) (i : Nat) (t : Task), w.devices[d]? = some δ →
  δ.scheduler.arena[i]? = some t → t.payload.Holds w.pools (c d i)

/-- The segments of different slots have no byte in common. -/
def Apart (w : World) : Prop := ∀ (d e i j : Nat) (δ ε : Device) (t u : Task) (s s' : Segment), w.devices[d]? = some δ →
  δ.scheduler.arena[i]? = some t → t.payload.segment? = some s → w.devices[e]? = some ε → ε.scheduler.arena[j]? = some u →
  u.payload.segment? = some s' → ¬(d = e ∧ i = j) → s.Apart s'

/-- The bytes of a slot lie within its segment. -/
theorem Stored.short {w : World} (h : w.Stored) {d i : Nat} {δ : Device} {t : Task} {s : Segment}
    (found : w.devices[d]? = some δ) (slot : δ.scheduler.arena[i]? = some t) (place : t.payload.segment? = some s) :
    t.payload.length ≤ s.size := by
  cases payload : t.payload with
  | attached own => rw [payload] at place; cases place
  | copied segment length =>
    rw [payload] at place
    cases place
    exact (h d δ i t s length found slot payload).1

end World

namespace Contents

variable {c : Contents} {d e i : Nat} {slots : List Nat} {f : Content → Content}

theorem alter_same (m : i ∈ slots) : c.alter d slots f d i = f (c d i) := if_pos ⟨rfl, m⟩

theorem alter_other (h : ¬(e = d ∧ i ∈ slots)) : c.alter d slots f e i = c e i := if_neg h

end Contents

namespace Moment

variable {P : Moment → Prop} {s : Setup} {x y : Moment} {c c' : Contents}

theorem Stores.holds (h : Stores x y c c') (holds : x.machine.world.Holds c) (apart : x.machine.world.Apart)
    (stored : x.machine.world.Stored)
    (full : ∀ (k : Nat) (p : Pool), x.machine.world.pools[k]? = some p → p.storage.length = p.slots * p.slotSize) :
    y.machine.world.Holds c' := by
  intro e ε j u found' slot'
  -- What the slot showed before, where the payloads of the device changed by a function.
  have before : ∀ {f}, Shows x y f → ∃ δ t, x.machine.world.devices[e]? = some δ ∧ δ.scheduler.arena[j]? = some t ∧
      u.payload = f e j t.payload := by
    intro f shows
    obtain ⟨δ, found, slots⟩ := shows e ε found'
    have slot := slots j
    rw [slot'] at slot
    generalize old : δ.scheduler.arena[j]? = o at slot
    cases slot with
    | some same => exact ⟨δ, _, found, old, same⟩
  cases h with
  | nothing pools shows =>
    obtain ⟨δ, t, found, slot, same⟩ := before shows
    rw [same, pools]
    exact holds e δ j t found slot
  | @clears d l pools shows =>
    obtain ⟨δ, t, found, slot, same⟩ := before shows
    rw [same, pools]
    by_cases here : e = d ∧ j ∈ l
    · rw [if_pos here, Contents.alter, if_pos here]
      exact (holds e δ j t found slot).emptied
    · rw [if_neg here, Contents.alter_other here]
      exact holds e δ j t found slot
  | @wipes d i δ t ps _ _ found slot wiped pools shows =>
    obtain ⟨δ', v, found'', slot'', same⟩ := before shows
    obtain ⟨data, p, takes, empty⟩ := Payload.takes_of_wipe wiped
    rw [same, pools]
    by_cases here : e = d ∧ j ∈ [i]
    · rw [if_pos here, Contents.alter, if_pos here]
      obtain ⟨rfl, m⟩ := here
      cases List.mem_singleton.1 m
      cases found.symm.trans found''
      cases slot.symm.trans slot''
      exact empty ▸ ((holds e δ j t found slot).takes takes).emptied
    · rw [if_neg here, Contents.alter_other here]
      obtain ⟨bytes, room⟩ := holds e δ' j v found'' slot''
      refine ⟨(takes.bytes_eq (fun s s' place place' => ?_) fun s place => ?_).trans bytes, room⟩
      · exact apart d e i j δ δ' t v s s' found slot place found'' slot'' place' fun same =>
          here ⟨same.1.symm, List.mem_singleton.2 same.2.symm⟩
      · exact stored.short found'' slot'' place
  | @takes d i work data below δ t p ps σ _ _ found slot stopped takes altered after =>
    rw [after] at found' ⊢
    rw [World.devices_put] at found'
    -- Another slot keeps its bytes.
    have other : ∀ {δ' : Device}, x.machine.world.devices[e]? = some δ' → δ'.scheduler.arena[j]? = some u → ¬(d = e ∧ i = j) →
        u.payload.Holds ps (c.alter d [i] (·.fill data) e j) := by
      intro δ' found'' slot'' other
      obtain ⟨bytes, room⟩ := holds e δ' j u found'' slot''
      rw [Contents.alter_other fun here => other ⟨here.1.symm, (List.mem_singleton.1 here.2).symm⟩]
      refine ⟨(takes.bytes_eq (fun s s' place place' => ?_) fun s place => ?_).trans bytes, room⟩
      · exact apart d e i j δ δ' t u s s' found slot place found'' slot'' place' other
      · exact stored.short found'' slot'' place
    by_cases here : d = e
    · subst here
      rw [if_pos rfl, show ({ x.machine.world with pools := ps } : World).devices[d]? = some δ from found] at found'
      cases found'
      obtain ⟨a, made, rfl⟩ := Scheduler.alter_eq_ok altered
      rw [show (δ.withScheduler { δ.scheduler with arena := a }).scheduler.arena[j]? = a[j]? from rfl,
        Arena.getElem?_alter made] at slot'
      by_cases own : i = j
      · subst own
        rw [if_pos rfl, slot] at slot'
        cases slot'
        rw [Contents.alter_same List.mem_cons_self]
        exact (holds d δ i t found slot).takes takes
      · rw [if_neg own] at slot'
        exact other found slot' fun same => own same.2
    · rw [if_neg here] at found'
      exact other found' slot' fun same => here same.1
  | @enrolls d k δ p a found pool made after =>
    rw [after] at found' ⊢
    have bound := (Array.getElem?_eq_some_iff.1 pool).1
    have storage : ∀ j : Nat, (x.machine.world.pools.setIfInBounds k { p with first := some δ.scheduler.declared })[j]?.map
        Pool.storage = x.machine.world.pools[j]?.map Pool.storage := by
      intro j
      rw [Array.getElem?_setIfInBounds]
      by_cases here : k = j
      · subst here
        rw [if_pos rfl, if_pos bound, pool]
        rfl
      · rw [if_neg here]
    -- A slot that is not one of the pool keeps its bytes.
    have other : ∀ {δ' : Device}, x.machine.world.devices[e]? = some δ' → δ'.scheduler.arena[j]? = some u →
        ¬(e = d ∧ j ∈ List.range' δ.scheduler.declared p.slots) → u.payload.Holds
          (x.machine.world.pools.setIfInBounds k { p with first := some δ.scheduler.declared })
          (c.alter d (List.range' δ.scheduler.declared p.slots) (fun _ => ⟨some p.slotSize, []⟩) e j) := by
      intro δ' found'' slot'' other
      obtain ⟨bytes, room⟩ := holds e δ' j u found'' slot''
      rw [Contents.alter_other other]
      exact ⟨(Payload.bytes_of_storage storage).trans bytes, room⟩
    simp only [World.handOver, World.devices_put] at found'
    by_cases here : d = e
    · subst here
      rw [if_pos rfl, found] at found'
      cases found'
      rw [show (δ.withScheduler { δ.scheduler with declared := _, arena := a }).scheduler.arena[j]? = a[j]? from rfl,
        Arena.getElem?_enrollSlots made] at slot'
      by_cases new : δ.scheduler.declared ≤ j ∧ j < δ.scheduler.declared + p.slots
      · rw [if_pos new] at slot'
        obtain ⟨t, -, rfl⟩ := Option.map_eq_some_iff.1 slot'
        rw [Contents.alter_same (List.mem_range'_1.2 new)]
        have last : (j - δ.scheduler.declared) * p.slotSize ≤ p.storage.length := by
          rw [full k p pool]
          exact Nat.mul_le_mul_right _ (by omega)
        refine ⟨Pools.read_eq_ok_iff.2 ⟨{ p with first := some δ.scheduler.declared }, ?_, ?_⟩, rfl⟩
        · show (x.machine.world.pools.setIfInBounds k _)[k]? = _
          rw [Array.getElem?_setIfInBounds, if_pos rfl, if_pos bound]
        · rw [Pool.read?, if_pos (by exact last)]
          rfl
      · rw [if_neg new] at slot'
        exact other found slot' fun here => new (List.mem_range'_1.1 here.2)
    · rw [if_neg here] at found'
      exact other found' slot' fun same => here same.1.symm

/-- In every run, the segments of different slots have no byte in common. -/
theorem apart (r : Run P (initial s) x) : x.machine.world.Apart := by
  obtain ⟨l, t⟩ := r.traced handing []
  intro d e i j δ ε t' u a b found slot place found' slot' place' other
  exact (placed t).apart (ledger t) found slot place found' slot' place' other

theorem Next.holds (next : x.Next y) (r : Run P (initial s) x) (h : x.machine.world.Holds c) :
    y.machine.world.Holds (x.refer c) :=
  next.stores.holds h (Moment.apart r) (Moment.stored r) (full r)

/-- Before anything is called, all slots are empty. -/
theorem holds_initial : (initial s).machine.world.Holds fun _ _ => ⟨none, []⟩ := by
  intro d δ i t found slot
  obtain ⟨capacity, new⟩ := (initial_fresh (show (initial s).view d = some ⟨δ, _, _⟩ by rw [view, found]; rfl)).scheduler
  rw [show δ.scheduler = .fresh capacity from new] at slot
  simp only [Scheduler.fresh, Arena.fresh, Array.getElem?_replicate] at slot
  split at slot
  · cases slot
    exact ⟨rfl, rfl⟩
  · cases slot

end Moment

end TimedTasks
