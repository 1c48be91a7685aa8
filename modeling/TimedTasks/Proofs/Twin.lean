import TimedTasks.Proofs.Furnish

/-!
# Bytes that nobody sees

Of the bytes in a pool, a slot shows those that were last copied into it. All others are never looked at again, so two
worlds that differ in such bytes only are twins: whatever is called, the same happens in both, and they stay twins
(`Run.twin`).
-/

namespace TimedTasks

/-- The pools differ at most in bytes that are not among those of `S`. -/
def Pools.AgreeOn (ps : Pools) (S : Nat → Nat → Prop) (qs : Pools) : Prop :=
  ∀ k : Nat, Option.Rel (fun p q => p.Alike q ∧ ∀ pos, S k pos → q.storage[pos]? = p.storage[pos]?) ps[k]? qs[k]?

/-! ## The same with other pools -/

/-- The world with other pools. -/
def World.withPools (w : World) (ps : Pools) : World := { w with pools := ps }

/-- The move with other pools. -/
def Move.withPools (m : Move) (ps : Pools) : Move := ⟨m.world.withPools ps, m.frames⟩

/-- The machine with other pools. -/
def Machine.withPools (m : Machine) (ps : Pools) : Machine := ⟨m.world.withPools ps, m.stack⟩

/-- The moment with other pools, and the same chronicles. -/
def Moment.withPools (x : Moment) (ps : Pools) : Moment := ⟨x.machine.withPools ps, x.past⟩

/-- Byte `pos` of pool `k` is one of those that a slot shows. -/
def World.Shown (w : World) (k pos : Nat) : Prop :=
  ∃ (e : Nat) (δ : Device) (i : Nat) (t : Task) (segment : Segment) (length : Nat), w.devices[e]? = some δ ∧
    δ.scheduler.arena[i]? = some t ∧ t.payload = .copied segment length ∧ segment.pool = k ∧ segment.offset ≤ pos ∧
    pos < segment.offset + length

/-- The pools are those of the world, but for bytes that no slot shows. -/
def World.Twins (w : World) (ps : Pools) : Prop := w.pools.AgreeOn w.Shown ps

/-! ## Reading and writing -/

namespace Pool

variable {p q p' : Pool} {offset : Nat} {data : List UInt8}

/-- A write puts its bytes in its range and leaves all others. -/
theorem getElem?_write? (h : p.write? offset data = some p') (pos : Nat) : p'.storage[pos]? =
    if offset ≤ pos ∧ pos < offset + data.length then data[pos - offset]? else p.storage[pos]? := by
  unfold write? at h
  split at h
  · rename_i room
    cases h
    have before : (p.storage.take offset).length = offset := by simp; omega
    by_cases early : pos < offset
    · rw [if_neg (by omega), List.append_assoc, List.getElem?_append_left (by omega), List.getElem?_take, if_pos early]
    · by_cases within : pos < offset + data.length
      · rw [if_pos (by omega), List.getElem?_append_left (by simp; omega), List.getElem?_append_right (by omega), before]
      · rw [if_neg (by omega), List.getElem?_append_right (by simp; omega), List.getElem?_drop]
        congr 1
        simp only [List.length_append, before]
        omega
  · cases h

/-- Where one of two alike pools can be written, so can the other. -/
theorem Alike.write? (h : p.Alike q) (written : p.write? offset data = some p') :
    ∃ q', q.write? offset data = some q' ∧ p'.Alike q' := by
  unfold Pool.write? at written ⊢
  split at written
  · rename_i room
    cases written
    rw [if_pos (h.length ▸ room)]
    refine ⟨_, rfl, h.slots, h.slotSize, h.first, ?_⟩
    simp only [List.length_append, List.length_take, List.length_drop, h.length]
  · cases written

/-- Whether a write fits depends on the size of the store only. -/
theorem Alike.write?_none (h : p.Alike q) (full : p.write? offset data = none) : q.write? offset data = none := by
  unfold Pool.write? at full ⊢
  split at full
  · cases full
  · rename_i room
    rw [if_neg (h.length ▸ room)]

/-- Two pools with the same bytes at a place read the same there. -/
theorem Alike.read? (h : p.Alike q) {length : Nat}
    (same : ∀ pos, offset ≤ pos → pos < offset + length → q.storage[pos]? = p.storage[pos]?) :
    q.read? offset length = p.read? offset length := by
  unfold Pool.read?
  rw [h.length]
  split
  · refine congrArg some (List.ext_getElem? fun j => ?_)
    rw [List.getElem?_take, List.getElem?_take]
    split
    · rw [List.getElem?_drop, List.getElem?_drop]
      exact same (offset + j) (by omega) (by omega)
    · rfl
  · rfl

/-- The counts of a pool are not about its bytes. -/
theorem Alike.row? (h : p.Alike q) (a : Arena) : q.row? a = p.row? a := by
  unfold Pool.row?
  rw [h.first, h.slots, h.slotSize]

end Pool

namespace Pools

namespace AgreeOn

variable {ps ps' qs : Pools} {S S' : Nat → Nat → Prop} {k : Nat}

/-- Each pool has its counterpart, with the same bytes where the stores agree. -/
theorem pool_ok (h : ps.AgreeOn S qs) {p : Pool} (hp : ps.pool k = .ok p) :
    ∃ q, qs.pool k = .ok q ∧ p.Alike q ∧ ∀ pos, S k pos → q.storage[pos]? = p.storage[pos]? := by
  have found := pool_eq_ok hp
  have agree := h k
  rw [found] at agree
  generalize other : qs[k]? = o at agree
  cases agree with
  | some agree => exact ⟨_, by rw [Pools.pool, other], agree⟩

/-- A pool is missing in both or in neither. -/
theorem pool_error (h : ps.AgreeOn S qs) {f : Fault} (hp : ps.pool k = .error f) : qs.pool k = .error f := by
  have agree := h k
  unfold Pools.pool at hp ⊢
  generalize ps[k]? = o at agree hp
  generalize qs[k]? = o' at agree
  cases agree with
  | none => exact hp
  | some => cases hp

/-- Where pools are looked up, what goes on in the same way with both leads to the same. -/
theorem bind_pool {α β : Type} {f : α → β} {g : Pool → Except Fault α} {r : Pool → Except Fault β}
    (h : ps.AgreeOn S qs) (goOn : ∀ p q, ps.pool k = .ok p → qs.pool k = .ok q → p.Alike q →
      (∀ pos, S k pos → q.storage[pos]? = p.storage[pos]?) → r q = f <$> g p) :
    (qs.pool k >>= r) = f <$> (ps.pool k >>= g) := by
  cases hp : ps.pool k with
  | error e => rw [h.pool_error hp]; rfl
  | ok p =>
    obtain ⟨q, hq, alike, same⟩ := h.pool_ok hp
    rw [hq]
    exact goOn p q hp hq alike same

/-- Stores that agree on some bytes agree on fewer. -/
theorem mono (h : ps.AgreeOn S qs) (sub : ∀ k pos, S' k pos → S k pos) : ps.AgreeOn S' qs := by
  intro k
  have agree := h k
  generalize ps[k]? = o at agree
  generalize qs[k]? = o' at agree
  cases agree with
  | none => exact .none
  | some agree => exact .some ⟨agree.1, fun pos m => agree.2 pos (sub k pos m)⟩

theorem symm (h : ps.AgreeOn S qs) : qs.AgreeOn S ps := by
  intro k
  have agree := h k
  generalize ps[k]? = o at agree
  generalize qs[k]? = o' at agree
  cases agree with
  | none => exact .none
  | some agree =>
    obtain ⟨⟨slots, slotSize, first, length⟩, same⟩ := agree
    exact .some ⟨⟨slots.symm, slotSize.symm, first.symm, length.symm⟩, fun pos m => (same pos m).symm⟩

/-- The same pool is put into both. -/
theorem set (h : ps.AgreeOn S qs) {p q : Pool} (bound : k < ps.size) (alike : p.Alike q)
    (same : ∀ pos, S' k pos → q.storage[pos]? = p.storage[pos]?) (other : ∀ j pos, k ≠ j → S' j pos → S j pos) :
    Pools.AgreeOn (ps.setIfInBounds k p) S' (qs.setIfInBounds k q) := by
  intro j
  have agree := h j
  rw [Array.getElem?_setIfInBounds, Array.getElem?_setIfInBounds]
  by_cases here : k = j
  · subst here
    have bound' : k < qs.size := by
      rw [Array.getElem?_eq_getElem bound] at agree
      generalize found : qs[k]? = o at agree
      cases agree with
      | some => exact (Array.getElem?_eq_some_iff.1 found).1
    rw [if_pos rfl, if_pos rfl, if_pos bound, if_pos bound']
    exact .some ⟨alike, same⟩
  · rw [if_neg here, if_neg here]
    generalize ps[j]? = o at agree
    generalize qs[j]? = o' at agree
    cases agree with
    | none => exact .none
    | some agree => exact .some ⟨agree.1, fun pos m => agree.2 pos (other j pos here m)⟩

/-- What is copied is the same in both afterwards. -/
theorem copy {segment : Segment} {data : List UInt8} {kept : Nat} (h : ps.AgreeOn S qs)
    (copied : ps.copy segment data = .ok (kept, ps')) : ∃ qs', qs.copy segment data = .ok (kept, qs') ∧
      ps'.AgreeOn (fun k pos => S k pos ∨ segment.pool = k ∧ segment.offset ≤ pos ∧ pos < segment.offset + kept) qs' := by
  obtain ⟨rfl, p, p', found, written, rfl⟩ := copy_eq_ok copied
  obtain ⟨q, hq, alike, same⟩ := h.pool_ok (show ps.pool segment.pool = .ok p by rw [Pools.pool, found])
  obtain ⟨q', written', alike'⟩ := alike.write? written
  refine ⟨_, bind_eq_ok.2 ⟨q, hq, by rw [written']⟩, h.set (Array.getElem?_eq_some_iff.1 found).1 alike' ?_ ?_⟩
  · intro pos m
    rw [Pool.getElem?_write? written', Pool.getElem?_write? written]
    split
    · rfl
    · rename_i out
      exact same pos (m.resolve_right fun inside => out inside.2)
  · exact fun j pos other m => m.resolve_right fun inside => other inside.1

/-- Bytes can be copied in both or in neither. -/
theorem copy_error {segment : Segment} {data : List UInt8} {f : Fault} (h : ps.AgreeOn S qs)
    (failed : ps.copy segment data = .error f) : qs.copy segment data = .error f := by
  unfold Pools.copy at failed ⊢
  cases hp : ps.pool segment.pool with
  | error e => rw [h.pool_error hp]; rw [hp] at failed; exact failed
  | ok p =>
    obtain ⟨q, hq, alike, -⟩ := h.pool_ok hp
    rw [hp] at failed
    rw [hq]
    simp only [bind, Except.bind] at failed ⊢
    cases written : p.write? segment.offset (data.take segment.size) with
    | none => rw [alike.write?_none written]; rw [written] at failed; exact failed
    | some p' => rw [written] at failed; cases failed

end AgreeOn

end Pools

namespace World

variable {w w' : World} {ps qs : Pools} {d k : Nat} {δ : Device} {act : Act} {move : Move}

theorem Twins.symm (h : w.Twins ps) : (w.withPools ps).Twins w.pools := Pools.AgreeOn.symm h

/-! ## Steps that leave the pools alone -/

/-- A frame that looks at its device only does the same with other pools. -/
theorem step_withPools_of_silent (h : act.silent) :
    (w.withPools ps).step d δ act = (·.withPools ps) <$> w.step d δ act := by
  have same : (w.withPools ps).step d δ act = (·.beside ps w.trace) <$> w.step d δ act := step_beside h
  refine same.trans ?_
  cases moved : w.step d δ act with
  | error f => rfl
  | ok move =>
    have trace := (step_leaves_beside h moved).2
    refine congrArg Except.ok ?_
    show Move.mk _ _ = Move.mk _ _
    rw [beside, withPools, ← trace]

/-- The begin of a session does not look at bytes. -/
theorem openSession_withPools : (w.withPools ps).openSession d δ = (w.openSession d δ).withPools ps := by
  unfold openSession
  split
  · split <;> rfl
  · rfl

/-- Nor does the loop of a run. -/
theorem run_withPools : (w.withPools ps).run d δ = (w.run d δ).withPools ps := by
  unfold World.run
  split
  · rfl
  · split <;> rfl

/-- Nor the end of a session. -/
theorem closeSession_withPools {count : Nat} :
    (w.withPools ps).closeSession d δ count = (w.closeSession d δ count).withPools ps := by
  unfold closeSession
  split <;> rfl

/-- Handlers are invoked by their own counts. -/
theorem invoke_withPools {j : Nat} : (w.withPools ps).invoke j = ((w.invoke j).1, (w.invoke j).2.withPools ps) := by
  have same : (w.withPools ps).handlers[j]? = w.handlers[j]? := rfl
  unfold World.invoke
  rw [same]
  cases w.handlers[j]? <;> rfl

/-- The bytes that a slot shows are read alike. -/
theorem Twins.bytes (h : w.Twins ps) (found : w.devices[d]? = some δ) {i : Nat} {t : Task}
    (slot : δ.scheduler.arena.slot i = .ok t) : t.payload.bytes ps = t.payload.bytes w.pools := by
  cases payload : t.payload with
  | attached bytes => rfl
  | copied segment length =>
    refine (h.bind_pool (f := id) fun p q _ _ alike shown => ?_).trans (id_map _)
    have same : q.read? segment.offset length = p.read? segment.offset length := alike.read? fun pos low high =>
      shown pos ⟨d, δ, i, t, segment, length, found, Arena.slot_eq_ok_iff.1 slot, payload, rfl, low, high⟩
    rw [same]
    split <;> rfl

/-- A handler is given the bytes that its slot shows, and these are the same. -/
theorem callHandler_withPools (h : w.Twins ps) (found : w.devices[d]? = some δ) {i : Nat} :
    (w.withPools ps).callHandler d δ i = (·.withPools ps) <$> w.callHandler d δ i := by
  refine bind_of_same fun t slot => ?_
  dsimp only
  cases t.handler with
  | none => rfl
  | some k =>
    show (t.payload.bytes ps >>= _) = _ <$> (t.payload.bytes w.pools >>= _)
    rw [h.bytes found slot]
    refine bind_of_same fun bytes _ => ?_
    have invoked := @invoke_withPools ((w.log (.dispatch ⟨i⟩)).emit (.ran d ⟨i⟩ k δ.board.clock bytes)) ps k
    refine (congrArg (fun r : List Op × World => Except.ok (r.2.leaving d δ [.block (some i) r.1, .handling i k t.payload]))
      invoked).trans rfl

/-- All steps but those that change pools do the same with twins, which stay as they are. -/
theorem step_withPools (h : w.Twins ps) (found : w.devices[d]? = some δ) (no : act.stirs = false) :
    (w.withPools ps).step d δ act = (·.withPools ps) <$> w.step d δ act := by
  cases silent : act.silent with
  | true => exact step_withPools_of_silent silent
  | false =>
    cases act with
    | perform self op =>
      cases op with
      | init => exact congrArg Except.ok openSession_withPools
      | run => exact congrArg Except.ok run_withPools
      | alloc k =>
        refine h.bind_pool fun p q _ _ alike _ => ?_
        rw [alike.first, alike.slots]
        split <;> rfl
      | pool k =>
        refine h.bind_pool fun p q _ _ alike _ => ?_
        rw [alike.row?]
        split <;> rfl
      | _ => cases silent
    | interrupts call bodies => cases bodies <;> rfl
    | locked s =>
      cases s with
      | attach | write | enroll | claim => cases no
      | beginSession => exact bind_of_same fun σ _ => rfl
      | fetch i => exact callHandler_withPools h found
      | endSession => exact bind_of_same fun r _ => congrArg Except.ok closeSession_withPools
      | sessionOver count => rfl
      | _ => cases silent
    | _ => cases silent

end World

/-! ## What slots come to show -/

namespace Task

variable (t : Task)

/-- A slot that goes back to its pool still shows what it showed. -/
theorem payload_giveBack : t.giveBack.payload = t.payload := by
  unfold giveBack; split <;> rfl

/-- So does one that is stopped. -/
theorem payload_stop : t.stop.payload = t.payload := by
  unfold stop; split <;> first | rfl | exact payload_giveBack _

/-- And one whose dispatch is over. -/
theorem payload_settle : t.settle.payload = t.payload := by
  unfold settle; split <;> first | rfl | exact payload_giveBack _

/-- The end of a session leaves configured slots with no bytes to show. -/
theorem payload_retire (queued declared : Bool) :
    (t.retire queued declared).payload = if queued then t.payload.emptied else t.payload := by
  cases queued <;> cases declared <;> simp [retire, payload_giveBack, unconfigure]

end Task

/-- Bytes are copied into the segment of a stopped slot that has one. -/
def Act.Copies (act : Act) (i : Nat) (t : Task) (segment : Segment) (length : Nat) : Prop :=
  ∃ s data old, act = .locked s ∧ (s = .attach i data ∨ s = .write i data) ∧ t.state = .stopped ∧
    t.payload = .copied segment old ∧ length = (data.take segment.size).length

/-- The bytes that a slot shows are those that it showed before, or were copied just now. -/
theorem Becomes.copied {ps : Pools} {σ : Scheduler} {now : UInt32} {i length : Nat} {act : Act} {t t' : Task}
    {segment : Segment} (b : Becomes ps σ now i act t t') (h : t'.payload = .copied segment length) (some : 0 < length) :
    t.payload = .copied segment length ∨ act.Copies i t segment length := by
  have emptied : ∀ {p : Payload}, p.emptied ≠ .copied segment length := by
    rintro (bytes | ⟨seg, n⟩) same
    · cases same
    · cases same
      exact Nat.lt_irrefl _ some
  cases b with
  | same | relength | stamp | renew | dispatch | configure | link => exact .inl h
  | stop => exact .inl (t.payload_stop ▸ h)
  | settle => exact .inl (t.payload_settle ▸ h)
  | attach => cases h
  | copy filled stopped payload =>
    cases h
    exact .inr ⟨_, _, _, rfl, filled, stopped, payload, rfl⟩
  | handOut => exact absurd h emptied
  | enroll => cases h; exact absurd some (Nat.lt_irrefl _)
  | begin | finish =>
    rw [Task.payload_retire] at h
    split at h
    · exact absurd h emptied
    · exact .inl h

namespace World

variable {w w' : World} {ps qs : Pools} {d k : Nat} {δ : Device} {act : Act} {move : Move}

/-- A device does not come to show other bytes than those copied there. -/
theorem shown_of_put {δ' : Device} (found : w.devices[d]? = some δ) (devices : w'.devices = w.devices.setIfInBounds d δ')
    {Q : Nat → Nat → Prop} (slots : ∀ (i : Nat) (t' : Task) (segment : Segment) (length : Nat), δ'.scheduler.arena[i]? = some t' →
      t'.payload = .copied segment length → 0 < length → (∃ t, δ.scheduler.arena[i]? = some t ∧ t.payload = .copied segment length) ∨
        ∀ pos, segment.offset ≤ pos → pos < segment.offset + length → Q segment.pool pos)
    {pos : Nat} (h : w'.Shown k pos) : w.Shown k pos ∨ Q k pos := by
  obtain ⟨e, ε, i, t, segment, length, hε, ht, payload, rfl, low, high⟩ := h
  rw [devices, Array.getElem?_setIfInBounds] at hε
  by_cases here : d = e
  · subst here
    rw [if_pos rfl, if_pos (Array.getElem?_eq_some_iff.1 found).1] at hε
    cases hε
    rcases slots i t segment length ht payload (by omega) with ⟨u, hu, same⟩ | copied
    · exact .inl ⟨d, δ, i, u, segment, length, found, hu, same, rfl, low, high⟩
    · exact .inr (copied pos low high)
  · rw [if_neg here] at hε
    exact .inl ⟨e, ε, i, t, segment, length, hε, ht, payload, rfl, low, high⟩

/-- Byte `pos` of pool `k` is one of those that the act copies into a segment. -/
def Copied (δ : Device) (act : Act) (k pos : Nat) : Prop :=
  ∃ (i : Nat) (t : Task) (segment : Segment) (length : Nat), δ.scheduler.arena[i]? = some t ∧
    act.Copies i t segment length ∧ segment.pool = k ∧ segment.offset ≤ pos ∧ pos < segment.offset + length

/-- A step shows no byte that was not shown before, but for those that it copies. -/
theorem step_shown (found : w.devices[d]? = some δ) (step : w.step d δ act = .ok move) {pos : Nat}
    (h : move.world.Shown k pos) : w.Shown k pos ∨ Copied δ act k pos := by
  by_cases away : ∃ self e op, act = .perform self (.on e op)
  · obtain ⟨self, e, op, rfl⟩ := away
    cases step
    exact .inl h
  · obtain ⟨s, l, is⟩ := step_listed (fun self e op same => away ⟨self, e, op, same⟩) step
    refine shown_of_put found is.devices (fun i t' segment length ht payload some => ?_) h
    rw [Stride.scheduler_device] at ht
    have slot := l.slots i
    rw [ht] at slot
    generalize old : δ.scheduler.arena[i]? = o at slot
    cases slot with
    | some b =>
      rcases b.copied payload some with same | copies
      · exact .inl ⟨_, rfl, same⟩
      · exact .inr fun pos low high => ⟨i, _, segment, length, old, copies, rfl, low, high⟩

/-! ## Steps that change pools -/

/-- The same moves, but for pools that agree on `S`. -/
def MovesAgree (S : Nat → Nat → Prop) (x y : Except Fault Move) : Prop :=
  ∃ qs, y = (·.withPools qs) <$> x ∧ ∀ move, x = .ok move → move.world.pools.AgreeOn S qs

variable {S : Nat → Nat → Prop}

theorem MovesAgree.error {f : Fault} : MovesAgree S (.error f) (.error f) := ⟨#[], rfl, nofun⟩

/-- A move that succeeds does so in both, with stores that agree. -/
theorem MovesAgree.ok (h : move.world.pools.AgreeOn S qs) : MovesAgree S (.ok move) (.ok (move.withPools qs)) :=
  ⟨qs, rfl, fun _ same => Except.ok.inj same ▸ h⟩

/-- What goes on from the same result in two ways agrees when it does so from each result. -/
theorem MovesAgree.bind {α : Type} {x : Except Fault α} {g g' : α → Except Fault Move}
    (goOn : ∀ a, x = .ok a → MovesAgree S (g a) (g' a)) : MovesAgree S (x >>= g) (x >>= g') := by
  cases x with
  | error f => exact .error
  | ok a => exact goOn a rfl

/-- After the same bytes were copied, the stores agree on these as well. -/
theorem MovesAgree.bind_copy {T : Nat → Nat → Prop} {rs : Pools} {segment : Segment} {data : List UInt8}
    {g g' : Nat × Pools → Except Fault Move} (h : rs.AgreeOn T qs)
    (goOn : ∀ rs' qs', Pools.AgreeOn rs' (fun k pos => T k pos ∨ segment.pool = k ∧ segment.offset ≤ pos ∧
      pos < segment.offset + (data.take segment.size).length) qs' →
      MovesAgree S (g ((data.take segment.size).length, rs')) (g' ((data.take segment.size).length, qs'))) :
    MovesAgree S (rs.copy segment data >>= g) (qs.copy segment data >>= g') := by
  cases copied : rs.copy segment data with
  | error f => rw [h.copy_error copied]; exact .error
  | ok r =>
    obtain ⟨kept, rs'⟩ := r
    obtain ⟨qs', copied', agree⟩ := h.copy copied
    obtain ⟨rfl, -⟩ := Pools.copy_eq_ok copied
    rw [copied']
    exact goOn rs' qs' agree

/-- Where bytes are copied to is said by the slot that they are given to. -/
theorem place_of_copied {i : Nat} {s : Section} {data : List UInt8} {t : Task} (filled : s = .attach i data ∨ s = .write i data)
    (slot : δ.scheduler.arena.slot i = .ok t) ⦃k pos : Nat⦄ (h : Copied δ (.locked s) k pos) : t.state = .stopped ∧
      ∃ segment old, t.payload = .copied segment old ∧ segment.pool = k ∧ segment.offset ≤ pos ∧
        pos < segment.offset + (data.take segment.size).length := by
  obtain ⟨j, u, segment, length, hu, ⟨s', data', old, same, filled', stopped, payload, rfl⟩, place⟩ := h
  have same : j = i ∧ data' = data := by
    cases same
    rcases filled with rfl | rfl <;> rcases filled' with e | e <;> cases e <;> exact ⟨rfl, rfl⟩
  obtain ⟨rfl, rfl⟩ := same
  cases (Arena.slot_eq_ok_iff.1 slot).symm.trans hu
  exact ⟨stopped, segment, old, payload, place⟩

/-- Attaching bytes is the same in both, and what is copied is shown in both. -/
theorem attach_agree {i : Nat} {data : List UInt8} (h : w.Twins ps) :
    MovesAgree (fun k pos => w.Shown k pos ∨ Copied δ (.locked (.attach i data)) k pos)
      (w.step d δ (.locked (.attach i data))) ((w.withPools ps).step d δ (.locked (.attach i data))) := by
  show MovesAgree _ (δ.scheduler.attach w.pools i data >>= _) (δ.scheduler.attach ps i data >>= _)
  unfold Scheduler.attach
  rw [bind_assoc, bind_assoc]
  refine .bind fun t slot => ?_
  have place := place_of_copied (.inl rfl : Section.attach i data = _ ∨ _) slot
  by_cases stopped : t.state = .stopped
  · rw [if_pos stopped, if_pos stopped]
    cases payload : t.payload with
    | attached bytes =>
      show MovesAgree _ ((δ.scheduler.alter i _ >>= _) >>= _) ((δ.scheduler.alter i _ >>= _) >>= _)
      rw [bind_assoc, bind_assoc]
      refine .bind fun σ _ => .ok (h.mono fun k pos m => m.resolve_right fun copied => ?_)
      obtain ⟨-, segment, old, other, -⟩ := place copied
      cases payload.symm.trans other
    | copied segment length =>
      show MovesAgree _ ((w.pools.copy segment data >>= _) >>= _) ((ps.copy segment data >>= _) >>= _)
      rw [bind_assoc, bind_assoc]
      refine .bind_copy h fun rs' qs' agree => ?_
      dsimp only
      rw [bind_assoc, bind_assoc]
      refine .bind fun σ _ => .ok (agree.mono fun k pos m => m.imp_right fun copied => ?_)
      obtain ⟨-, segment', old, same, place⟩ := place copied
      cases payload.symm.trans same
      exact place
  · rw [if_neg stopped, if_neg stopped]
    exact .ok (h.mono fun k pos m => m.resolve_right fun copied => stopped (place copied).1)

/-- So is writing them. -/
theorem write_agree {i : Nat} {data : List UInt8} (h : w.Twins ps) :
    MovesAgree (fun k pos => w.Shown k pos ∨ Copied δ (.locked (.write i data)) k pos)
      (w.step d δ (.locked (.write i data))) ((w.withPools ps).step d δ (.locked (.write i data))) := by
  show MovesAgree _ (δ.scheduler.write w.pools i data >>= _) (δ.scheduler.write ps i data >>= _)
  unfold Scheduler.write
  rw [bind_assoc, bind_assoc]
  refine .bind fun t slot => ?_
  have place := place_of_copied (.inr rfl : Section.write i data = _ ∨ _) slot
  by_cases stopped : t.state = .stopped
  · rw [if_pos stopped, if_pos stopped]
    cases payload : t.payload with
    | attached bytes =>
      refine .ok (h.mono fun k pos m => m.resolve_right fun copied => ?_)
      obtain ⟨-, segment, old, other, -⟩ := place copied
      cases payload.symm.trans other
    | copied segment length =>
      show MovesAgree _ ((w.pools.copy segment data >>= _) >>= _) ((ps.copy segment data >>= _) >>= _)
      rw [bind_assoc, bind_assoc]
      refine .bind_copy h fun rs' qs' agree => ?_
      dsimp only
      rw [bind_assoc, bind_assoc]
      refine .bind fun σ _ => .ok (agree.mono fun k pos m => m.imp_right fun copied => ?_)
      obtain ⟨-, segment', old, same, place⟩ := place copied
      cases payload.symm.trans same
      exact place
  · rw [if_neg stopped, if_neg stopped]
    exact .ok (h.mono fun k pos m => m.resolve_right fun copied => stopped (place copied).1)

/-- Binding a pool shows no byte. -/
theorem enroll_agree (h : w.Twins ps) :
    MovesAgree w.Shown (w.step d δ (.locked (.enroll k))) ((w.withPools ps).step d δ (.locked (.enroll k))) := by
  show MovesAgree _ (w.pools.pool k >>= fun p => δ.scheduler.enrollPool w.pools k >>= _)
    (ps.pool k >>= fun p => δ.scheduler.enrollPool ps k >>= _)
  unfold Scheduler.enrollPool
  cases hp : w.pools.pool k with
  | error f => rw [h.pool_error hp]; exact .error
  | ok p =>
    obtain ⟨q, hq, alike, same⟩ := h.pool_ok hp
    have found := Pools.pool_eq_ok hp
    rcases p with ⟨slots, slotSize, storage, first⟩
    rcases q with ⟨slots', slotSize', storage', first'⟩
    cases alike.slots
    cases alike.slotSize
    cases alike.first
    simp only [hq]
    cases first with
    | some first => exact MovesAgree.ok (show _ from h)
    | none =>
      simp only [bind, Except.bind]
      cases δ.scheduler.takeSlots slots with
      | none => exact MovesAgree.ok (show _ from h)
      | some r =>
        dsimp only
        cases Scheduler.enrollSlots r.2.arena k slotSize r.1 slots with
        | error f => exact .error
        | ok a =>
          refine .ok ?_
          exact h.set (Array.getElem?_eq_some_iff.1 found).1 ⟨rfl, rfl, rfl, alike.length⟩ same fun j pos _ m => m

/-- What is wiped is the same in both afterwards, and shown by neither. -/
theorem claim_agree {i left : Nat} (h : w.Twins ps) :
    MovesAgree w.Shown (w.step d δ (.locked (.claim i left))) ((w.withPools ps).step d δ (.locked (.claim i left))) := by
  show MovesAgree _ (w.claim d δ i left) ((w.withPools ps).claim d δ i left)
  unfold claim
  refine .bind fun t _ => ?_
  split
  · exact .ok h
  · refine .bind fun σ _ => ?_
    show MovesAgree _ ((if w.wipes then w.pools.wipe t.payload else .ok w.pools) >>= _)
      ((if w.wipes then ps.wipe t.payload else .ok ps) >>= _)
    split
    · cases t.payload with
      | attached bytes => exact MovesAgree.ok (show _ from h)
      | copied segment length =>
        show MovesAgree _ (Prod.snd <$> w.pools.copy segment _ >>= _) (Prod.snd <$> ps.copy segment _ >>= _)
        rw [bind_map_left, bind_map_left]
        exact .bind_copy h fun rs qs agree => .ok (agree.mono fun k pos => .inl)
    · exact MovesAgree.ok (show _ from h)

/-- Twins take the same step, and stay twins. -/
theorem step_twin (act : Act) (h : w.Twins ps) (found : w.devices[d]? = some δ) :
    ∃ qs, (w.withPools ps).step d δ act = (·.withPools qs) <$> w.step d δ act ∧
      ∀ move, w.step d δ act = .ok move → move.world.Twins qs := by
  have changes : MovesAgree (fun k pos => w.Shown k pos ∨ Copied δ act k pos) (w.step d δ act)
      ((w.withPools ps).step d δ act) := by
    have less : ∀ {x y}, MovesAgree w.Shown x y → (∀ k pos, ¬Copied δ act k pos) →
        MovesAgree (fun k pos => w.Shown k pos ∨ Copied δ act k pos) x y := by
      rintro x y ⟨qs, same, agree⟩ none
      exact ⟨qs, same, fun move moved => (agree move moved).mono fun k pos m => m.resolve_right (none k pos)⟩
    have none (no : act.fills = false) : ∀ k pos, ¬Copied δ act k pos := by
      rintro k pos ⟨i, t, segment, length, -, ⟨s, data, old, rfl, rfl | rfl, -⟩, -⟩ <;> cases no
    by_cases stirs : act.stirs = true
    · cases act with
      | locked s =>
        cases s with
        | attach i data => exact attach_agree h
        | write i data => exact write_agree h
        | enroll k => exact less (enroll_agree h) (none rfl)
        | claim i left => exact less (claim_agree h) (none rfl)
        | _ => cases stirs
      | _ => cases stirs
    · have no : act.stirs = false := by simpa using stirs
      refine less ⟨ps, step_withPools h found no, fun move moved => ?_⟩ (none (Act.fills_of_not_stirs no))
      rw [step_keeps_pools moved no]
      exact h
  obtain ⟨qs, same, agree⟩ := changes
  exact ⟨qs, same, fun move moved => (agree move moved).mono fun k pos m => step_shown found moved m⟩

end World

/-! ## Runs -/

namespace World

variable {w : World} {ps : Pools} {d : Nat} {δ : Device} {act : Act} {move : Move}

/-- No answer is about the stores. -/
theorem takeAnswer_withPools {a : Answer} :
    (w.withPools ps).takeAnswer d δ a act = (·.withPools ps) <$> w.takeAnswer d δ a act := by
  cases act <;> rfl

/-- Nor is a deadline. -/
theorem takeDeadline_withPools {ms : Option UInt32} :
    (w.withPools ps).takeDeadline d δ ms act = (·.withPools ps) <$> w.takeDeadline d δ ms act := by
  cases act with
  | running =>
    show (if δ.scheduler.runState = .active ∧ ms.getD Interval.longest ≠ 0 then _ else _) =
      _ <$> (if δ.scheduler.runState = .active ∧ ms.getD Interval.longest ≠ 0 then _ else _)
    split
    · refine congrArg Except.ok ?_
      unfold sleep
      split <;> rfl
    · rfl
  | _ => rfl

/-- Where the slots stay as they are, the same is shown. -/
theorem Twins.keep (h : w.Twins ps) {w' : World} {δ' : Device} (found : w.devices[d]? = some δ)
    (devices : w'.devices = w.devices.setIfInBounds d δ') (arena : δ'.scheduler.arena = δ.scheduler.arena)
    (pools : w'.pools = w.pools) : w'.Twins ps := by
  rw [Twins, pools]
  refine h.mono fun k pos m => ?_
  refine (shown_of_put (Q := fun _ _ => False) found devices (fun i t segment length ht payload _ => ?_) m).resolve_right id
  exact .inl ⟨t, arena ▸ ht, payload⟩

end World

namespace Machine

variable {m m' : Machine} {ps : Pools}

/-- What can come after a machine does come after it. -/
theorem Goes.next (h : m.Goes m') : m.Next m' := by
  rcases m with ⟨w, stack⟩
  cases h with
  | calls d op idle eq => exact eq ▸ .call d op idle
  | finishes d a top eq =>
    cases top
    exact eq ▸ .finish rfl
  | answers e a d act rest δ move top found takes eq =>
    cases top
    refine .step ?_
    show onto rest (w.device d >>= fun δ => w.takeAnswer d δ a act) = _
    rw [World.device_eq_ok_iff.2 found, eq]
    exact congrArg (onto rest) takes
  | delivers e ms d act rest δ move top found takes eq =>
    cases top
    refine .step ?_
    show onto rest (w.device d >>= fun δ => w.takeDeadline d δ ms act) = _
    rw [World.device_eq_ok_iff.2 found, eq]
    exact congrArg (onto rest) takes
  | works d act rest δ move top found step eq =>
    cases top
    have does : Machine.step ⟨w, ⟨d, act⟩ :: rest⟩ = onto rest (w.device d >>= fun δ => w.step d δ act) := by
      cases act <;> first | rfl | cases step
    refine .step (does.trans ?_)
    rw [World.device_eq_ok_iff.2 found, eq]
    exact congrArg (onto rest) step

/-- Every step of a machine is one of its twin, and they stay twins. -/
theorem Next.twin (next : m.Next m') (h : m.world.Twins ps) :
    ∃ qs, (m.withPools ps).Next (m'.withPools qs) ∧ m'.world.Twins qs := by
  cases next.goes with
  | calls d op idle eq =>
    subst eq
    exact ⟨ps, .call d op idle, h⟩
  | finishes d a top eq =>
    subst eq
    exact ⟨ps, Goes.next (.finishes d a top rfl), h⟩
  | answers e a d act rest δ move top found takes eq =>
    subst eq
    refine ⟨ps, Goes.next (.answers e a d act rest δ (move.withPools ps) top found ?_ rfl), ?_⟩
    · exact World.takeAnswer_withPools.trans (congrArg _ takes)
    · have devices := (takeAnswer_alike found takes).2.1.devices
      exact h.keep found (devices.trans (put_same found).symm) rfl (World.takeAnswer_pools takes)
  | delivers e ms d act rest δ move top found takes eq =>
    subst eq
    refine ⟨ps, Goes.next (.delivers e ms d act rest δ (move.withPools ps) top found ?_ rfl), ?_⟩
    · exact World.takeDeadline_withPools.trans (congrArg _ takes)
    · obtain ⟨s, l, is⟩ := World.takeDeadline_delivers takes
      refine h.keep found is.devices ?_ (World.takeDeadline_pools takes)
      rw [Stride.scheduler_device]
      cases l <;> rfl
  | works d act rest δ move top found step eq =>
    subst eq
    obtain ⟨qs, same, twins⟩ := World.step_twin act h found
    refine ⟨qs, Goes.next (.works d act rest δ (move.withPools qs) top found ?_ rfl), twins move step⟩
    exact same.trans (congrArg _ step)

end Machine

namespace Moment

variable {x y : Moment} {ps : Pools}

theorem Next.twin (next : x.Next y) (h : x.machine.world.Twins ps) :
    ∃ qs, (x.withPools ps).Next (y.withPools qs) ∧ y.machine.world.Twins qs := by
  obtain ⟨qs, same, twins⟩ := next.machine.twin h
  exact ⟨qs, ⟨same, next.past⟩, twins⟩

end Moment

/-- Twins go the same way. -/
theorem Run.twin {x y : Moment} {ps : Pools} (r : Run (fun _ => True) x y) (h : x.machine.world.Twins ps) :
    ∃ qs, Run (fun _ => True) (x.withPools ps) (y.withPools qs) ∧ y.machine.world.Twins qs := by
  induction r with
  | here => exact ⟨ps, .here trivial, h⟩
  | more _ next _ ih =>
    obtain ⟨qs, run, twins⟩ := ih
    obtain ⟨rs, same, twins⟩ := next.twin twins
    exact ⟨rs, run.more same trivial, twins⟩

end TimedTasks
