import TimedTasks.Proofs.Blank
import TimedTasks.Proofs.Furnish
import TimedTasks.Proofs.Trusted
import TimedTasks.Proofs.Twin

/-!
# What is named is there

The cache names slots, and so does what is in progress: the slot that a start stamps, the one that a round looks at, the
one that it runs. Each slot that is named was handed out, as was each one that is configured (`Inside`), and each segment
that a slot refers to lies in the store of its pool (`World.Stored`).
-/

namespace TimedTasks

namespace Act

/-- The slot that the act is about to read or to write. -/
def names : Act → Option Nat
  | reading (.start i _) | reading (.cached i _) | reading (.due i _) | reading (.renew i) => some i
  | locked (.configure i ..) | locked (.attach i _) | locked (.write i _) | locked (.dataLength i _) => some i
  | locked (.noteArmed i _) | locked (.fetch i) | dispatch i | settle i => some i
  | locked (.adopt best _) => best
  | _ => none

/-- An operation names a slot that was handed out. -/
theorem names_of_op {σ : Scheduler} {self : Option Nat} {op : Op} {s : Section} (h : op.Asks σ self s) :
    ∀ i, (locked s).names = some i → i < σ.declared := by
  intro i named
  cases h with
  | configure _ bound | attach _ bound | write _ bound | query _ bound =>
    cases named
    exact bound
  | _ => cases named

theorem names_of_asks {r : Reading} (h : r.asks) : (reading r).names = none := by
  cases r <;> first | rfl | cases h

end Act

/-- A slot that is configured was configured before, or the act names it. -/
theorem Lives.named {σ : Scheduler} {now : UInt32} {act : Act} {life : Nat → Life} (l : Lives σ now act life) {i : Nat}
    (configured : (life i).state ≠ .uninit) : (σ.life i).state ≠ .uninit ∨ act.names = some i := by
  have one : ∀ {k : Nat} {ℓ : Life}, (Function.update σ.life k ℓ i).state ≠ .uninit →
      (ℓ.state ≠ .uninit → (σ.life k).state ≠ .uninit ∨ act.names = some k) →
      (σ.life i).state ≠ .uninit ∨ act.names = some i := by
    intro k ℓ configured kept
    by_cases same : i = k
    · subst same
      rw [Function.update_self] at configured
      exact kept configured
    · rw [Function.update_of_ne same] at configured
      exact .inl configured
  cases l with
  | same => exact .inl configured
  | relength _ before => exact one configured fun _ => .inl before
  | stop => exact one configured fun now => .inl (Linked.uninit_stop.1 now)
  | configure | stamp | renew | dispatch => exact one configured fun _ => .inr rfl
  | settle => exact one configured fun _ => .inr rfl
  | dismiss _ _ all =>
    rw [all i] at configured
    split at configured
    · exact absurd rfl configured
    · exact .inl configured

/-- Whatever slot is configured, remembered or named was handed out. -/
structure Inside (σ : Scheduler) (acts : List Act) : Prop where
  declared : σ.declared ≤ σ.arena.size
  configured : ∀ i, (σ.life i).state ≠ .uninit → i < σ.declared
  soonest : ∀ i, σ.cache.soonest = some i → i < σ.declared
  latecomer : ∀ i, σ.cache.latecomer = some i → i < σ.declared
  named : ∀ a ∈ acts, ∀ i, a.names = some i → i < σ.declared

namespace Inside

variable {σ : Scheduler} {act : Act} {acts rest : List Act}

theorem fresh (capacity : Nat) : Inside (.fresh capacity) [] := by
  exact ⟨Nat.zero_le _, fun i configured => absurd (Scheduler.state_fresh capacity i) configured,
    by simp [Scheduler.fresh, DueCache.empty], by simp [Scheduler.fresh, DueCache.empty], by simp⟩

/-- A task that waits was handed out. -/
theorem lt_of_active (h : Inside σ acts) {i : Nat} {t : Task} (found : σ.arena.slot i = .ok t) (active : t.state = .active) :
    i < σ.declared :=
  h.configured i (by rw [Scheduler.life, Arena.life_of_slot found, Task.life, active]; exact TaskState.noConfusion)

end Inside

section

variable {w : World} {δ : Device} {act : Act} {s : Stride} {rest : List Act}

/-- No step names a slot that was not handed out. -/
theorem Leads.names (l : Leads w δ act s) (h : Inside δ.scheduler (act :: rest)) :
    ∀ a ∈ s.frames, ∀ i, a.names = some i → i < δ.scheduler.declared := by
  have own := h.named act List.mem_cons_self
  have none : (∀ a ∈ s.frames, a.names = none) → ∀ a ∈ s.frames, ∀ i, a.names = some i → i < δ.scheduler.declared :=
    fun none a m i named => by rw [none a m] at named; cases named
  have one : ∀ {k : Nat}, k < δ.scheduler.declared → (∀ a ∈ s.frames, a.names = Option.none ∨ a.names = some k) →
      ∀ a ∈ s.frames, ∀ i, a.names = some i → i < δ.scheduler.declared := by
    intro k bound all a m i named
    rcases all a m with e | e
    · rw [e] at named; cases named
    · rw [e] at named; cases named; exact bound
  cases l with
  | ask ask =>
    intro a m i named
    simp only [Stride.frames, List.mem_cons, List.not_mem_nil, or_false] at m
    rcases m with rfl | rfl
    · cases named
    · exact Act.names_of_op ask i named
  | asked _ r | lengthAsked r => exact none (by simp [Stride.frames, Act.names_of_asks r]; rfl)
  | start _ st => exact one (Scheduler.startState_eq_ok st).1 (by simp [Stride.frames, Act.names])
  | update _ re => exact one (Scheduler.lt_declared_of_relength re) (by simp [Stride.frames, Act.names])
  | stamp | dueFirst | due | renew => exact one (own _ rfl) (by simp [Stride.frames, Act.names])
  | remembered soonest => exact one (h.soonest _ soonest) (by simp [Stride.frames, Act.names])
  | looked _ found active | renewing found active | dispatched found active =>
    exact one (h.lt_of_active found active) (by simp [Stride.frames, Act.names])
  | @scan best sc =>
    obtain ⟨queue, hq, -⟩ := bind_eq_ok.1 sc
    intro a m i named
    simp only [Stride.frames, List.mem_cons, List.not_mem_nil, or_false] at m
    rcases m with rfl | rfl
    · cases named
    · have waits : (δ.scheduler.life i).state = .active := (Scheduler.scan_eq_ok sc hq).1 i named
      exact h.configured i (by rw [waits]; exact TaskState.noConfusion)
  | _ => exact none (by simp [Stride.frames, Act.names])

open Scheduler in
/-- No step has the cache remember a slot that was not handed out. -/
theorem Leads.remembers (l : Leads w δ act s) (h : Inside δ.scheduler (act :: rest)) :
    ∀ i, s.scheduler.cache.soonest = some i ∨ s.scheduler.cache.latecomer = some i → i < δ.scheduler.declared := by
  have old : ∀ i, δ.scheduler.cache.soonest = some i ∨ δ.scheduler.cache.latecomer = some i → i < δ.scheduler.declared :=
    fun i which => which.elim (h.soonest i) (h.latecomer i)
  have same : s.scheduler.cache = δ.scheduler.cache →
      ∀ i, s.scheduler.cache.soonest = some i ∨ s.scheduler.cache.latecomer = some i → i < δ.scheduler.declared :=
    fun e => by rw [e]; exact old
  have forget : ∀ {k}, s.scheduler.cache = δ.scheduler.cache.forget k →
      ∀ i, s.scheduler.cache.soonest = some i ∨ s.scheduler.cache.latecomer = some i → i < δ.scheduler.declared := by
    intro k e i which
    rw [e, DueCache.soonest_forget, DueCache.latecomer_forget] at which
    exact old i (which.imp_left And.left)
  have empty : s.scheduler.cache = .empty →
      ∀ i, s.scheduler.cache.soonest = some i ∨ s.scheduler.cache.latecomer = some i → i < δ.scheduler.declared :=
    fun e => by rw [e]; simp [DueCache.empty]
  cases l with
  | update _ re => exact same (relength_changes re).2.2.cache
  | stop _ st => exact same (stop_changes st).2.cache
  | stamp st | renew st => exact same (start_changes st).cache
  | dispatched _ _ _ st => exact same (stopping_changes st).cache
  | settled st => exact same (settle_changes st).cache
  | claimed c => exact same (handOut_changes c).cache
  | attached a => exact same (attach_changes a).cache
  | written a => exact same (write_changes a).cache
  | declared t => exact same (takeSlots_changes t).cache
  | enrolled e => exact same (enrollPool_changes e).cache
  | shutdown => exact same (cache_shutdown _)
  | forgotten => exact forget rfl
  | configured c => exact forget (Scheduler.configured c).cache
  | begun b => exact empty (beginSession_dismissed b).1.cache
  | ended e => exact empty (endSession_dismissed e).1.cache
  | noted n =>
    intro i which
    rcases DueCache.noteArmed_known (noteArmed_changes n).1 which with rfl | known
    · exact h.named _ List.mem_cons_self _ rfl
    · exact old i known
  | adopted a =>
    intro i which
    rcases DueCache.adopt_known (adopt_changes a).1 which with scanned | known
    · exact h.named _ List.mem_cons_self i scanned
    · exact old i known
  | _ => exact same rfl

theorem Leads.declared_le_size (l : Leads w δ act s) (h : δ.scheduler.declared ≤ δ.scheduler.arena.size) :
    s.scheduler.declared ≤ δ.scheduler.arena.size := by
  by_cases reserves : act.reserves = true
  · cases l with
    | declared t =>
      obtain ⟨-, room, rfl⟩ := Scheduler.takeSlots_slots t
      exact room
    | enrolled e =>
      obtain ⟨p, -, ⟨-, rfl, -⟩ | ⟨-, -, room, ⟨a, -, rfl⟩, -⟩⟩ := Scheduler.enrollPool_eq_ok e
      · exact h
      · exact room
    | refused => exact h
    | _ => cases reserves
  · rw [l.declared_eq (by simpa using reserves)]
    exact h

/-- Every step names slots that were handed out only. -/
theorem Leads.inside (l : Leads w δ act s) (h : Inside δ.scheduler (act :: rest)) : Inside s.scheduler (s.frames ++ rest) := by
  have cache := l.remembers h
  have grows : ∀ {i : Nat}, i < δ.scheduler.declared → i < s.scheduler.declared := fun lt => Nat.lt_of_lt_of_le lt l.declared_le
  refine ⟨?_, fun i c => ?_, fun i e => grows (cache i (.inl e)), fun i e => grows (cache i (.inr e)), fun a m i named => ?_⟩
  · rw [l.size_eq]; exact l.declared_le_size h.declared
  · rcases l.lives.named c with before | named
    · exact grows (h.configured i before)
    · exact grows (h.named act List.mem_cons_self i named)
  · rcases List.mem_append.1 m with m | m
    · exact grows (l.names h a m i named)
    · exact grows (h.named a (List.mem_cons_of_mem _ m) i named)

end

namespace View

variable {v v' : View}

/-- Whatever slot is configured, remembered or named on the device was handed out. -/
def Inside (v : View) : Prop := TimedTasks.Inside v.scheduler v.acts

theorem Fresh.inside (h : v.Fresh) : v.Inside := by
  obtain ⟨capacity, fresh⟩ := h.scheduler
  rw [Inside, fresh, h.acts]
  exact .fresh capacity

theorem Inside.turn (h : v.Inside) (t : Turn v v') : v'.Inside := by
  cases t with
  | works acts l =>
    rw [Inside, acts] at h
    simpa [Inside, take, scheduler] using l.inside h
  | @delivers ms act s _ rest acts l =>
    rw [Inside, acts] at h
    have same : s.scheduler.arena = v.device.scheduler.arena ∧ s.scheduler.declared = v.device.scheduler.declared ∧
        s.scheduler.cache = v.device.scheduler.cache := by cases l <;> exact ⟨rfl, rfl, rfl⟩
    have configured := h.configured
    rw [View.scheduler, show v.device.scheduler.life = v.device.scheduler.arena.life from rfl] at configured
    refine ⟨?_, ?_, ?_, ?_, fun a m => ?_⟩
    · simpa [take, scheduler, same] using h.declared
    · simpa [take, scheduler, Scheduler.life, same] using configured
    · simpa [take, scheduler, same] using h.soonest
    · simpa [take, scheduler, same] using h.latecomer
    · rcases List.mem_append.1 m with m | m
      · have none : a.names = none := by cases l <;> simp [Stride.frames] at m <;> rcases m with rfl | rfl | rfl <;> rfl
        simp [none]
      · simpa [take, scheduler, same] using h.named a (List.mem_cons_of_mem _ (List.mem_cons_of_mem _ m))

theorem Inside.shift (h : v.Inside) (t : Shift v v') : v'.Inside := by
  cases t with
  | drops acts _ =>
    exact ⟨h.declared, h.configured, h.soonest, h.latecomer, fun a m => h.named a (acts ▸ List.mem_cons_of_mem _ m)⟩
  | arrives self op =>
    refine ⟨h.declared, h.configured, h.soonest, h.latecomer, fun a m => ?_⟩
    rcases List.mem_cons.1 m with rfl | m
    · simp [Act.names]
    · exact h.named a m

end View

/-! ## Bytes lie in their pools -/

/-- The store of a pool reaches as far as the segment. -/
def Pools.Reach (ps : Pools) (segment : Segment) : Prop :=
  ∃ p, ps[segment.pool]? = some p ∧ segment.offset + segment.size ≤ p.storage.length

/-- Every slot with a segment has its bytes there, and the store of the pool reaches as far. -/
def World.Stored (w : World) : Prop :=
  ∀ (e : Nat) (δ : Device) (i : Nat) (t : Task) (segment : Segment) (length : Nat), w.devices[e]? = some δ →
    δ.scheduler.arena[i]? = some t → t.payload = .copied segment length → length ≤ segment.size ∧ w.pools.Reach segment

/-- The bytes of a slot lie where they lay, or in a segment of a pool that the slot comes to. -/
theorem Becomes.lies {ps : Pools} {σ : Scheduler} {now : UInt32} {i length : Nat} {act : Act} {t t' : Task}
    {segment : Segment} (b : Becomes ps σ now i act t t') (h : t'.payload = .copied segment length) :
    (∃ old, t.payload = .copied segment old ∧ (length ≤ old ∨ length ≤ segment.size)) ∨
      length = 0 ∧ ∃ k p n, ps[k]? = some p ∧ n < p.slots ∧ segment = ⟨k, n * p.slotSize, p.slotSize⟩ := by
  have emptied : t.payload.emptied = .copied segment length → ∃ old, t.payload = .copied segment old ∧
      (length ≤ old ∨ length ≤ segment.size) := by
    intro same
    cases payload : t.payload with
    | attached bytes => rw [payload] at same; cases same
    | copied seg n =>
      rw [payload] at same
      cases same
      exact ⟨n, rfl, .inl (Nat.zero_le _)⟩
  have kept : t.payload = .copied segment length → ∃ old, t.payload = .copied segment old ∧
      (length ≤ old ∨ length ≤ segment.size) := fun same => ⟨length, same, .inl (Nat.le_refl _)⟩
  cases b with
  | same | relength | stamp | renew | dispatch | configure | link => exact .inl (kept h)
  | stop => exact .inl (kept (t.payload_stop ▸ h))
  | settle => exact .inl (kept (t.payload_settle ▸ h))
  | attach => cases h
  | copy filled stopped payload =>
    cases h
    refine .inl ⟨_, payload, .inr ?_⟩
    rw [List.length_take]
    exact Nat.min_le_left _ _
  | handOut => exact .inl (emptied h)
  | enroll found _ low high =>
    cases h
    exact .inr ⟨rfl, _, _, _, found, by omega, rfl⟩
  | begin | finish =>
    rw [Task.payload_retire] at h
    split at h
    · exact .inl (emptied h)
    · exact .inl (kept h)

/-- No step takes a pool away, or makes its store shorter. -/
theorem Machine.Next.pool {m m' : Machine} {k : Nat} {p : Pool} (next : m.Next m') (h : m.world.pools[k]? = some p) :
    ∃ q, m'.world.pools[k]? = some q ∧ q.storage.length = p.storage.length := by
  cases next.goes with
  | calls d op idle eq => rw [eq]; exact ⟨p, h, rfl⟩
  | finishes d a top eq => rw [eq]; exact ⟨p, h, rfl⟩
  | answers e a d act rest δ move top found takes eq => rw [eq, World.takeAnswer_pools takes]; exact ⟨p, h, rfl⟩
  | delivers e ms d act rest δ move top found takes eq => rw [eq, World.takeDeadline_pools takes]; exact ⟨p, h, rfl⟩
  | works d act rest δ move top found step eq =>
    rw [eq]
    by_cases enrolls : ∃ j, act = .locked (.enroll j)
    · obtain ⟨j, rfl⟩ := enrolls
      obtain ⟨_, -, step⟩ := bind_eq_ok.1 (show m.world.enroll d δ j = .ok move from step)
      obtain ⟨r, hr, step⟩ := bind_eq_ok.1 step
      rcases r with _ | ⟨first, σ, ps⟩
      · cases step; exact ⟨p, h, rfl⟩
      · cases step
        show ∃ q, ps[k]? = some q ∧ _
        obtain ⟨q, hq, ⟨-, -, rfl⟩ | ⟨-, -, -, -, rfl⟩⟩ := Scheduler.enrollPool_eq_ok hr
        · exact ⟨p, h, rfl⟩
        · by_cases here : j = k
          · subst here
            have bound := (Array.getElem?_eq_some_iff.1 hq).1
            cases hq.symm.trans h
            exact ⟨{ p with first := some δ.scheduler.declared }, by simp [bound], rfl⟩
          · exact ⟨p, by rw [Array.getElem?_setIfInBounds, if_neg here]; exact h, rfl⟩
    · have alike := World.step_pools step (fun j same => enrolls ⟨j, same⟩) k
      rw [h] at alike
      generalize there : move.world.pools[k]? = o at alike
      cases alike with
      | some alike => exact ⟨_, rfl, alike.length⟩

theorem Machine.Next.reach {m m' : Machine} {segment : Segment} (next : m.Next m') (h : m.world.pools.Reach segment) :
    m'.world.pools.Reach segment := by
  obtain ⟨p, found, room⟩ := h
  obtain ⟨q, found', length⟩ := next.pool found
  exact ⟨q, found', length ▸ room⟩

theorem Machine.Turn.size_devices {m m' : Machine} (turn : m.Turn m') :
    m'.world.devices.size = m.world.devices.size := by
  cases turn with
  | works d act rest δ s top found l takes => rw [takes.devices, Array.size_setIfInBounds]
  | delivers d e ms act rest δ s top found l takes => rw [takes.devices, Array.size_setIfInBounds]
  | redirects d e self op rest top world => rw [world]
  | answers d e a act rest top takes alike => rw [alike.devices]
  | finishes d a top world => rw [world]
  | calls d op top world => rw [world]

/-- A slot that is to be taken from a pool was seen before. -/
theorem World.claiming_bound {w : World} {d i left : Nat} {δ : Device} {f : Frame} {j left' : Nat}
    (m : f ∈ (w.claiming d δ i left).frames) (claims : f.act = .locked (.claim j left')) :
    j < δ.scheduler.arena.size ∧ f.device = d := by
  cases left with
  | zero => cases List.mem_singleton.1 m; cases claims
  | succ left =>
    rw [claiming] at m
    split at m
    · cases List.mem_singleton.1 m; cases claims
    · rename_i t found
      split at m
      · cases List.mem_singleton.1 m; cases claims
      · simp only [calling, leaving, List.map_cons, List.map_nil, List.mem_cons, List.not_mem_nil, or_false] at m
        rcases m with rfl | rfl
        · cases claims
        · cases claims
          exact ⟨(Array.getElem?_eq_some_iff.1 found).1, rfl⟩

/-- No other step comes to take a slot from a pool. -/
theorem Leads.unclaimed_of {w : World} {δ : Device} {act : Act} {s : Stride} (l : Leads w δ act s)
    (other : ∀ i left, act ≠ .claiming i left) : ∀ a ∈ s.frames, ∀ i left, a ≠ .locked (.claim i left) := by
  intro a m i left same
  subst same
  cases l with
  | claiming => exact other _ _ rfl
  | ask ask => cases ask <;> simp [Stride.frames] at m
  | _ => simp [Stride.frames] at m

namespace Moment

variable {P : Moment → Prop} {s : Setup} {x y : Moment} {d : Nat} {v : View}

theorem Next.stored (next : x.Next y) (stacked : Stacked x.machine.stack) (h : x.machine.world.Stored)
    (full : ∀ (k : Nat) (p : Pool), x.machine.world.pools[k]? = some p → p.storage.length = p.slots * p.slotSize) :
    y.machine.world.Stored := by
  intro e δ' i t' segment length found' slot' payload'
  have shown : y.view e = some ⟨δ', pending e y.machine.stack, y.past e⟩ := by rw [view, found']; rfl
  obtain ⟨v, hv, -⟩ := next.view_later stacked shown
  obtain ⟨found, -, -⟩ := view_eq_some hv
  obtain ⟨δ'', found'', act, slots⟩ := next.machine.turn.slots found
  cases found'.symm.trans found''
  have becomes := slots i
  rw [slot'] at becomes
  generalize slot : v.device.scheduler.arena[i]? = o at becomes
  cases becomes with
  | some becomes =>
    rcases becomes.lies payload' with ⟨old, payload, shorter⟩ | ⟨rfl, k, p, n, pool, inside, rfl⟩
    · obtain ⟨room, reach⟩ := h e v.device i _ segment old found slot payload
      exact ⟨shorter.elim (fun le => Nat.le_trans le room) id, next.machine.reach reach⟩
    · refine ⟨Nat.zero_le _, next.machine.reach ⟨p, pool, ?_⟩⟩
      have last : (n + 1) * p.slotSize ≤ p.slots * p.slotSize := Nat.mul_le_mul_right _ inside
      rw [full k p pool]
      show n * p.slotSize + p.slotSize ≤ _
      rwa [Nat.succ_mul] at last

/-- The stores of pools are as long as their slots take. -/
theorem full (r : Run P (initial s) x) (k : Nat) (p : Pool) (pool : x.machine.world.pools[k]? = some p) :
    p.storage.length = p.slots * p.slotSize := by
  obtain ⟨l, t⟩ := r.traced (reserve 0) []
  exact (furnished t).length k p pool

/-- In every run, the bytes of every slot lie in the store of its pool. -/
theorem stored (r : Run P (initial s) y) : y.machine.world.Stored := by
  refine (r.also fun z r => And.intro (stacked_of_run r) (full r)).invariant (I := fun z => z.machine.world.Stored) ?_ fun z z' h p next _ => next.stored p.2.1 h p.2.2
  intro e δ i t segment length found slot payload
  obtain ⟨capacity, new⟩ := (initial_fresh (show (initial s).view e = some ⟨δ, _, _⟩ by rw [view, found]; rfl)).scheduler
  rw [show δ.scheduler = .fresh capacity from new] at slot
  obtain ⟨bound, rfl⟩ := Array.getElem?_eq_some_iff.1 slot
  simp [Scheduler.fresh, Arena.fresh, Task.fresh] at payload

/-- The devices and the pools that the world was set up with stay there. -/
theorem furnishing (r : Run P (initial s) y) : y.machine.world.devices.size = s.devices.length ∧
    ∀ k < s.pools.length, ∃ p, y.machine.world.pools[k]? = some p := by
  refine r.invariant (I := fun y => y.machine.world.devices.size = s.devices.length ∧
    ∀ k < s.pools.length, ∃ p, y.machine.world.pools[k]? = some p) ?_ ?_
  · refine ⟨by simp [initial, Setup.world], fun k bound => ?_⟩
    simp [initial, Setup.world, bound]
  · rintro z z' ⟨devices, pools⟩ _ next _
    refine ⟨next.machine.turn.size_devices.trans devices, fun k bound => ?_⟩
    obtain ⟨p, found⟩ := pools k bound
    obtain ⟨q, found, -⟩ := next.machine.pool found
    exact ⟨q, found⟩

theorem device_of_lt (r : Run P (initial s) y) (bound : d < s.devices.length) :
    ∃ δ, y.machine.world.devices[d]? = some δ := by
  rw [← (furnishing r).1] at bound
  exact ⟨_, Array.getElem?_eq_getElem bound⟩

/-- A slot that is to be taken from a pool lies in the arena of the device. -/
def Claims (x : Moment) : Prop := ∀ f ∈ x.machine.stack, ∀ i left δ, f.act = .locked (.claim i left) →
  x.machine.world.devices[f.device]? = some δ → i < δ.scheduler.arena.size

theorem Next.claims (next : x.Next y) (stacked : Stacked x.machine.stack) (h : x.Claims) : y.Claims := by
  intro f m i left δ' claims found'
  have shown : y.view f.device = some ⟨δ', pending f.device y.machine.stack, y.past f.device⟩ := by
    rw [view, found']; rfl
  obtain ⟨v, hv, -⟩ := next.view_later stacked shown
  have found := (view_eq_some hv).1
  -- The arena of a device keeps its size.
  have keeps : i < v.device.scheduler.arena.size → i < δ'.scheduler.arena.size := by
    intro bound
    obtain ⟨δ'', found'', act, slots⟩ := next.machine.turn.slots found
    cases found'.symm.trans found''
    have becomes := slots i
    rw [Array.getElem?_eq_getElem bound] at becomes
    generalize slot : δ'.scheduler.arena[i]? = o at becomes
    cases becomes with
    | some => exact (Array.getElem?_eq_some_iff.1 slot).1
  refine keeps ?_
  have old : f ∈ x.machine.stack → i < v.device.scheduler.arena.size := fun m => h f m i left v.device claims found
  have plain : (∀ i left, f.act ≠ .locked (.claim i left)) → i < v.device.scheduler.arena.size := fun no =>
    absurd claims (no i left)
  cases next.machine.turn with
  | works d act rest δ s top there l takes =>
    by_cases claim : ∃ j n, act = .claiming j n
    · obtain ⟨j, n, rfl⟩ := claim
      obtain ⟨δ, move, there, step, eq⟩ := next.machine.moves top (by simp) (by simp)
      rw [eq] at m
      rcases List.mem_append.1 m with m | m
      · cases step
        obtain ⟨bound, here⟩ := World.claiming_bound m claims
        cases (here ▸ found).symm.trans there
        exact bound
      · exact old (top ▸ List.mem_cons_of_mem _ m)
    · rw [takes.stack] at m
      rcases List.mem_append.1 m with m | m
      · obtain ⟨a, ma, rfl⟩ := List.mem_map.1 m
        exact plain (l.unclaimed_of (fun j n same => claim ⟨j, n, same⟩) a ma)
      · exact old (top ▸ List.mem_cons_of_mem _ m)
  | delivers d e ms act rest δ s top there l takes =>
    rw [takes.stack] at m
    rcases List.mem_append.1 m with m | m
    · obtain ⟨a, ma, rfl⟩ := List.mem_map.1 m
      exact plain (by cases l <;> simp [Stride.frames] at ma <;> rcases ma with rfl | rfl | rfl <;> simp)
    · exact old (top ▸ List.mem_cons_of_mem _ (List.mem_cons_of_mem _ m))
  | redirects d e self op rest top world top' =>
    rw [top'] at m
    rcases List.mem_cons.1 m with rfl | m
    · cases claims
    · exact old (top ▸ List.mem_cons_of_mem _ m)
  | answers d e a act rest top takes alike top' =>
    rw [top'] at m
    exact old (top ▸ List.mem_cons_of_mem _ (List.mem_cons_of_mem _ m))
  | finishes d a top world top' => rw [top'] at m; cases m
  | calls d op top world top' =>
    rw [top'] at m
    cases List.mem_singleton.1 m
    cases claims

theorem claims (r : Run P (initial s) y) : y.Claims := by
  refine (r.also fun z r => stacked_of_run r).invariant (I := Claims) ?_ fun z z' h p next _ => next.claims p.2 h
  intro f m
  cases m

/-- In every run, whatever slot a device names was handed out. -/
theorem inside (r : Run P (initial s) y) (h : y.view d = some v) : v.Inside :=
  view_of_run r (fun _ _ _ _ => trivial) (fun _ => View.Fresh.inside) (fun _ _ h (_ : True) t _ => h.turn t)
    (fun _ _ h t => h.shift t) h

end Moment

end TimedTasks
