import TimedTasks.Proofs.Holdings

/-!
# Where the bytes of slots lie

A slot has a segment just when it is held by a pool, and the place of the segment in the store of that pool is the place of
the slot among those of the pool (`Moment.placed`). Since a pool holds slots once at most, and holdings share no slot, the
segments of two slots never overlap (`World.Placed.apart`), and the slots of a pool lie on one device.
-/

namespace TimedTasks

/-- The segment of a slot among those of pool `k`. -/
def Holding.segment (h : Holding) (k : Nat) (p : Pool) (i : Nat) : Segment := ⟨k, (i - h.first) * p.slotSize, p.slotSize⟩

/-- The slots that pools hold are those that have segments, and the segments are where the holdings say. -/
structure World.Placed (w : World) (l : List Holding) : Prop where
  pooled : ∀ (d : Nat) (δ : Device) (i : Nat) (t : Task), w.devices[d]? = some δ → δ.scheduler.arena[i]? = some t →
    t.pooled = t.payload.segment?.isSome
  owner : ∀ (d : Nat) (δ : Device) (i : Nat) (t : Task) (segment : Segment), w.devices[d]? = some δ →
    δ.scheduler.arena[i]? = some t → t.payload.segment? = some segment → ∃ h ∈ l, ∃ k p, h.device = d ∧ h.Has i ∧
      h.pool = some k ∧ w.pools[k]? = some p ∧ segment = h.segment k p i
  held : ∀ h ∈ l, ∀ (k : Nat) (p : Pool) (δ : Device) (i : Nat), h.pool = some k → w.pools[k]? = some p →
    w.devices[h.device]? = some δ → h.Has i →
    ∃ t, δ.scheduler.arena[i]? = some t ∧ t.payload.segment? = some (h.segment k p i)

namespace World.Placed

variable {w w' : World} {l : List Holding}

/-- Nothing is handed out to a pool. -/
theorem keep (h : w.Placed l) {r : List Holding} (pools : w.pools.Alike w'.pools) (single : ∀ new ∈ r, new.pool = none)
    (devices : ∀ (d : Nat) (δ' : Device), w'.devices[d]? = some δ' → ∃ δ, w.devices[d]? = some δ ∧
      ∀ i : Nat, Option.Rel Task.SamePlace δ.scheduler.arena[i]? δ'.scheduler.arena[i]?) : w'.Placed (l ++ r) := by
  have before : ∀ {d : Nat} {δ' : Device} {i : Nat} {t' : Task}, w'.devices[d]? = some δ' →
      δ'.scheduler.arena[i]? = some t' → ∃ δ t, w.devices[d]? = some δ ∧ δ.scheduler.arena[i]? = some t ∧
        t.SamePlace t' := by
    intro d δ' i t' found' slot'
    obtain ⟨δ, found, slots⟩ := devices d δ' found'
    have slot := slots i
    rw [slot'] at slot
    generalize old : δ.scheduler.arena[i]? = o at slot
    cases slot with
    | some same => exact ⟨δ, _, found, old, same⟩
  refine ⟨fun d δ' i t' found' slot' => ?_, fun d δ' i t' segment found' slot' place => ?_,
    fun q m k p' δ' i pool hp' found' has => ?_⟩
  · obtain ⟨δ, t, found, slot, same, pooled⟩ := before found' slot'
    rw [same, pooled]
    exact h.pooled d δ i t found slot
  · obtain ⟨δ, t, found, slot, same, -⟩ := before found' slot'
    obtain ⟨q, m, k, p, device, has, pool, hp, rfl⟩ := h.owner d δ i t segment found slot (same ▸ place)
    have alike := pools k
    rw [hp] at alike
    generalize new : w'.pools[k]? = o at alike
    cases alike with
    | some alike =>
      exact ⟨q, List.mem_append_left _ m, k, _, device, has, pool, new, by rw [Holding.segment, Holding.segment, alike.slotSize]⟩
  · rcases List.mem_append.1 m with m | m
    · obtain ⟨δ, found, slots⟩ := devices q.device δ' found'
      have alike := pools k
      rw [hp'] at alike
      generalize old : w.pools[k]? = o at alike
      cases alike with
      | @some p _ alike =>
        obtain ⟨t, slot, place⟩ := h.held q m k p δ i pool old found has
        have later := slots i
        rw [slot] at later
        generalize new : δ'.scheduler.arena[i]? = o at later
        cases later with
        | some same =>
          exact ⟨_, rfl, by rw [same.1, place, Holding.segment, Holding.segment, alike.slotSize]⟩
    · cases (single q m).symm.trans pool

/-- The next slots of a device are handed out to a pool. -/
theorem pool (h : w.Placed l) (ledger : Ledger l w) {d k : Nat} {δ : Device} {p : Pool} {a : Arena}
    (found : w.devices[d]? = some δ) (hp : w.pools[k]? = some p)
    (room : δ.scheduler.declared + p.slots ≤ δ.scheduler.capacity)
    (made : Scheduler.enrollSlots δ.scheduler.arena k p.slotSize δ.scheduler.declared p.slots = .ok a) :
    (w.handOver d δ k p a).Placed (l ++ [⟨d, some k, δ.scheduler.declared, p.slots⟩]) := by
  have inside := (Array.getElem?_eq_some_iff.1 found).1
  have bound := (Array.getElem?_eq_some_iff.1 hp).1
  have slots := Arena.getElem?_enrollSlots made
  -- What becomes of the devices, and of the sizes of the pools.
  have devices : ∀ (e : Nat) (δ' : Device), (w.handOver d δ k p a).devices[e]? = some δ' →
      (e = d ∧ δ'.scheduler.arena = a) ∨ (e ≠ d ∧ w.devices[e]? = some δ') := by
    intro e δ' found'
    simp only [handOver, put, Array.getElem?_setIfInBounds] at found'
    by_cases here : d = e
    · rw [if_pos here, if_pos inside] at found'
      cases found'
      exact .inl ⟨here.symm, rfl⟩
    · rw [if_neg here] at found'
      exact .inr ⟨Ne.symm here, found'⟩
  have pools : ∀ (j : Nat) (q' : Pool),
      (w.pools.setIfInBounds k { p with first := some δ.scheduler.declared })[j]? = some q' →
        ∃ q, w.pools[j]? = some q ∧ q'.slotSize = q.slotSize := by
    intro j q' hq'
    rw [Array.getElem?_setIfInBounds] at hq'
    by_cases here : k = j
    · subst here
      rw [if_pos rfl, if_pos bound] at hq'
      cases hq'
      exact ⟨p, hp, rfl⟩
    · rw [if_neg here] at hq'
      exact ⟨q', hq', rfl⟩
  have later : ∀ (j : Nat) (q : Pool), w.pools[j]? = some q →
      ∃ q', (w.pools.setIfInBounds k { p with first := some δ.scheduler.declared })[j]? = some q' ∧
        q'.slotSize = q.slotSize := by
    intro j q hq
    rw [Array.getElem?_setIfInBounds]
    by_cases here : k = j
    · subst here
      cases hp.symm.trans hq
      exact ⟨{ p with first := some δ.scheduler.declared }, by rw [if_pos rfl, if_pos bound], rfl⟩
    · exact ⟨q, by rw [if_neg here]; exact hq, rfl⟩
  -- A slot of the arena is one of the new ones of the pool, or what it was before.
  have slot : ∀ (i : Nat) (t' : Task), a[i]? = some t' →
      (δ.scheduler.declared ≤ i ∧ i < δ.scheduler.declared + p.slots ∧
        ∃ t : Task, t' = t.enroll ⟨k, (i - δ.scheduler.declared) * p.slotSize, p.slotSize⟩) ∨
      δ.scheduler.arena[i]? = some t' := by
    intro i t' found'
    rw [slots i] at found'
    split at found'
    · rename_i new
      obtain ⟨t, -, rfl⟩ := Option.map_eq_some_iff.1 found'
      exact .inl ⟨new.1, new.2, t, rfl⟩
    · exact .inr found'
  refine ⟨fun e δ' i t' found' slot' => ?_, fun e δ' i t' segment found' slot' place => ?_,
    fun q m j q' δ' i own hq' found' has => ?_⟩
  · rcases devices e δ' found' with ⟨rfl, arena⟩ | ⟨-, found'⟩
    · rw [arena] at slot'
      rcases slot i t' slot' with ⟨-, -, t, rfl⟩ | old
      · rfl
      · exact h.pooled e δ i t' found old
    · exact h.pooled e δ' i t' found' slot'
  · have old : ∀ ε : Device, w.devices[e]? = some ε → ε.scheduler.arena[i]? = some t' →
        ∃ q ∈ l ++ [⟨d, some k, δ.scheduler.declared, p.slots⟩], ∃ j r, q.device = e ∧ q.Has i ∧ q.pool = some j ∧
          (w.pools.setIfInBounds k { p with first := some δ.scheduler.declared })[j]? = some r ∧
            segment = q.segment j r i := by
      intro ε found' slot'
      obtain ⟨q, m, j, r, device, has, own, hr, rfl⟩ := h.owner e ε i t' segment found' slot' place
      obtain ⟨r', hr', size⟩ := later j r hr
      exact ⟨q, List.mem_append_left _ m, j, r', device, has, own, hr', by rw [Holding.segment, Holding.segment, size]⟩
    rcases devices e δ' found' with ⟨rfl, arena⟩ | ⟨-, found'⟩
    · rw [arena] at slot'
      rcases slot i t' slot' with ⟨low, high, t, rfl⟩ | same
      · cases place
        obtain ⟨p', hp', size⟩ := later k p hp
        exact ⟨_, List.mem_append_right _ List.mem_cons_self, k, p', rfl, ⟨low, high⟩, rfl, hp',
          by rw [Holding.segment, size]⟩
      · exact old δ found same
    · exact old δ' found' slot'
  · obtain ⟨r, hr, size⟩ := pools j q' hq'
    rw [Holding.segment, size]
    rcases List.mem_append.1 m with m | m
    · rcases devices q.device δ' found' with ⟨here, arena⟩ | ⟨-, found'⟩
      · -- The slots of older holdings lie before the new ones.
        have below : i < δ.scheduler.declared :=
          (ledger.tiles d δ found).1.has_iff.1 ⟨q, List.mem_filter.2 ⟨m, by simpa using here⟩, has⟩
        rw [arena, slots i, if_neg (by omega)]
        exact h.held q m j r δ i own hr (here ▸ found) has
      · exact h.held q m j r δ' i own hr found' has
    · cases List.mem_singleton.1 m
      cases own
      cases hp.symm.trans hr
      obtain ⟨low, high⟩ := has
      have room : δ.scheduler.declared + p.slots ≤ δ.scheduler.arena.size := room
      rcases devices d δ' found' with ⟨-, arena⟩ | ⟨other, -⟩
      · rw [arena, slots i, if_pos ⟨low, high⟩, Array.getElem?_eq_getElem (by dsimp only at high; omega)]
        exact ⟨_, rfl, rfl⟩
      · exact absurd rfl other

end World.Placed

/-- The holding of a pool is the only one. -/
theorem Ledger.of_pool {l : List Holding} {w : World} (h : Ledger l w) {q : Holding} {k : Nat} (m : q ∈ l)
    (own : q.pool = some k) : ∃ p, w.pools[k]? = some p ∧ p.first = some q.first ∧ q.count = p.slots ∧
      ∀ q' ∈ l, q'.pool = some k → q' = q := by
  obtain ⟨none, -⟩ | ⟨j, p, other, hp⟩ := h.known q m
  · cases none.symm.trans own
  · cases other.symm.trans own
    obtain ⟨d, held⟩ := h.pools k p hp
    have all : ∀ q' ∈ l, q'.pool = some k → ∃ first, p.first = some first ∧ q' = ⟨d, some k, first, p.slots⟩ := by
      intro q' m' own'
      have m' : q' ∈ l.filter (·.pool = some k) := List.mem_filter.2 ⟨m', by simpa using own'⟩
      rw [held, Option.mem_toList, Option.map_eq_some_iff] at m'
      obtain ⟨first, bound, rfl⟩ := m'
      exact ⟨first, bound, rfl⟩
    obtain ⟨first, bound, rfl⟩ := all q m own
    refine ⟨p, hp, bound, rfl, fun q' m' own' => ?_⟩
    obtain ⟨first', bound', rfl⟩ := all q' m' own'
    cases bound.symm.trans bound'
    rfl

/-- A pool that has slots has a holding of them. -/
theorem Ledger.of_bound {l : List Holding} {w : World} (h : Ledger l w) {k first : Nat} {p : Pool}
    (pool : w.pools[k]? = some p) (bound : p.first = some first) :
    ∃ q ∈ l, q.pool = some k ∧ q.first = first ∧ q.count = p.slots := by
  obtain ⟨d, held⟩ := h.pools k p pool
  rw [bound] at held
  exact ⟨⟨d, some k, first, p.slots⟩, (List.mem_filter.1 (by rw [held]; exact List.mem_cons_self)).1, rfl, rfl, rfl⟩

namespace Moment

variable {P : Moment → Prop} {s : Setup} {x y : Moment} {l : List Holding}

theorem Next.placed (next : x.Next y) (ledger : Ledger l x.machine.world) (h : x.machine.world.Placed l) :
    y.machine.world.Placed (x.handing l) := by
  have hands := next.hands
  rw [handing]
  generalize x.handsOut = o at hands ⊢
  cases hands with
  | nothing pools devices =>
    refine h.keep pools (fun new m => by cases m) fun d δ' found' => ?_
    obtain ⟨δ, found, -, -, slots⟩ := devices d δ' found'
    exact ⟨δ, found, slots⟩
  | @single d δ found room after =>
    rw [after]
    refine h.keep (.refl _) (fun new m => by cases List.mem_singleton.1 m; rfl) fun e δ' found' => ?_
    rw [World.devices_put] at found'
    by_cases here : d = e
    · subst here
      rw [if_pos rfl, found] at found'
      cases found'
      exact ⟨δ, found, fun i => rel_self fun t _ => .refl t⟩
    · rw [if_neg here] at found'
      exact ⟨δ', found', fun i => rel_self fun t _ => .refl t⟩
  | pool found hp unbound room made after =>
    rw [after]
    exact h.pool ledger found hp room made

/-- In every run, slots are placed where the list of holdings says. -/
theorem placed (t : Traced P handing [] (initial s) x l) : x.machine.world.Placed l := by
  induction t with
  | here =>
    have fresh : ∀ (d : Nat) (δ : Device) (i : Nat) (t : Task), (initial s).machine.world.devices[d]? = some δ →
        δ.scheduler.arena[i]? = some t → t = Task.fresh := by
      intro d δ i t found slot
      obtain ⟨capacity, new⟩ := (initial_fresh (show (initial s).view d = some ⟨δ, _, _⟩ by rw [view, found]; rfl)).scheduler
      rw [show δ.scheduler = .fresh capacity from new] at slot
      simp only [Scheduler.fresh, Arena.fresh, Array.getElem?_replicate] at slot
      split at slot <;> cases slot
      rfl
    refine ⟨fun d δ i t found slot => ?_, fun d δ i t segment found slot place => ?_, fun q m => by cases m⟩
    · rw [fresh d δ i t found slot]
      rfl
    · rw [fresh d δ i t found slot] at place
      cases place
  | more t next _ ih => exact next.placed (ledger t) ih

/-- Slots are held on devices that there are. -/
theorem device_of_mem (t : Traced P handing [] (initial s) x l) {h : Holding} (m : h ∈ l) :
    ∃ δ, x.machine.world.devices[h.device]? = some δ := by
  induction t with
  | here => cases m
  | @more y z l t next _ ih =>
    have before : ∃ δ, y.machine.world.devices[h.device]? = some δ := by
      rcases List.mem_append.1 m with old | new
      · exact ih old
      · have hands := next.hands
        generalize y.handsOut = o at hands new
        cases hands with
        | nothing => cases new
        | single found | pool found =>
          cases List.mem_singleton.1 new
          exact ⟨_, found⟩
    obtain ⟨δ, found⟩ := before
    obtain ⟨δ', found', -⟩ := next.machine.turn.declared_le found
    exact ⟨δ', found'⟩

/-- The slots that a pool holds are there, and belong to a pool. -/
theorem slot_of_mem (t : Traced P handing [] (initial s) x l) {h : Holding} {k i : Nat} (m : h ∈ l) (own : h.pool = some k)
    (has : h.Has i) : ∃ δ u, x.machine.world.devices[h.device]? = some δ ∧ i < δ.scheduler.declared ∧
      δ.scheduler.arena[i]? = some u ∧ u.pooled := by
  obtain ⟨δ, found⟩ := device_of_mem t m
  obtain ⟨p, pool, -⟩ := (ledger t).of_pool m own
  obtain ⟨u, slot, place⟩ := (placed t).held h m k p δ i own pool found has
  refine ⟨δ, u, found, ?_, slot, ?_⟩
  · exact ((ledger t).tiles h.device δ found).1.has_iff.1 ⟨h, List.mem_filter.2 ⟨m, by simp⟩, has⟩
  · rw [(placed t).pooled h.device δ i u found slot, place]
    rfl

end Moment

namespace Segment

/-- The segments have no byte in common. -/
def Apart (s s' : Segment) : Prop := s.pool ≠ s'.pool ∨ s.offset + s.size ≤ s'.offset ∨ s'.offset + s'.size ≤ s.offset

end Segment

namespace World.Placed

variable {w : World} {l : List Holding}

/-- The segments of different slots have no byte in common. -/
theorem apart (h : w.Placed l) (ledger : Ledger l w) {d e i j : Nat} {δ ε : Device} {t u : Task} {s s' : Segment}
    (found : w.devices[d]? = some δ) (slot : δ.scheduler.arena[i]? = some t) (place : t.payload.segment? = some s)
    (found' : w.devices[e]? = some ε) (slot' : ε.scheduler.arena[j]? = some u) (place' : u.payload.segment? = some s')
    (other : ¬(d = e ∧ i = j)) : s.Apart s' := by
  obtain ⟨q, m, k, p, device, has, own, hp, rfl⟩ := h.owner d δ i t s found slot place
  obtain ⟨q', m', k', p', device', has', own', hp', rfl⟩ := h.owner e ε j u s' found' slot' place'
  by_cases same : k = k'
  · subst same
    cases hp.symm.trans hp'
    obtain ⟨-, -, -, -, only⟩ := ledger.of_pool m own
    cases only q' m' own'
    have differs : i ≠ j := fun same => other ⟨device.symm.trans device', same⟩
    refine .inr ?_
    obtain ⟨low, -⟩ := has
    obtain ⟨low', -⟩ := has'
    -- The one that comes first in the pool ends before the other begins.
    have ends : ∀ a b : Nat, a < b → a * p.slotSize + p.slotSize ≤ b * p.slotSize := by
      intro a b lt
      rw [← Nat.succ_mul]
      exact Nat.mul_le_mul_right _ lt
    rcases Nat.lt_or_gt_of_ne differs with lt | lt
    · exact .inl (ends _ _ (by omega))
    · exact .inr (ends _ _ (by omega))
  · exact .inl same

end World.Placed

end TimedTasks
