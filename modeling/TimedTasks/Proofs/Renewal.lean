import TimedTasks.Proofs.Course
import TimedTasks.Proofs.Twin

/-!
# As good as new

A run that is done has ended its session. From the moment it takes the queue apart (`Run.ending`), only the interrupts of
two more calls on the board could make a difference. If none fires, what is left of the scheduler is what its
reservations made of a new one (`Moment.finished_run_renews`), and what follows cannot tell it from a new one.
-/

namespace TimedTasks

/-! ## The end of a session -/

namespace Scheduler

variable {σ σ' : Scheduler} {count : Nat}

/-- Apart from the run state, and from a round in progress, nothing is left but what outlives sessions. -/
def Bare (σ : Scheduler) : Prop := { σ with runState := .stopped, inRound := false } = σ.blank

theorem Bare.stopped (h : σ.Bare) (idle : σ.inRound = false) :
    { σ with runState := .stopped } = ({ σ with runState := .stopped } : Scheduler).blank := by
  have bare : ({ σ with runState := .stopped } : Scheduler).blank = σ.blank := rfl
  rw [bare, ← h, ← idle]

/-- The end of a session leaves nothing else of the scheduler, if the slots that are not queued are as they were. -/
theorem endSession_bare (h : σ.endSession = .ok (count, σ')) (loose : ∀ l, σ.queued = .ok l → ∀ (i : Nat) (t : Task),
    σ.arena[i]? = some t → i ∉ l → t.Pristine ∧ t.next = none ∧ (t.allocated → t.pooled ∧ i < σ.declared)) : σ'.Bare := by
  obtain ⟨l, queued, -, slots⟩ := endSession_slots h
  obtain ⟨left, -, declared⟩ := endSession_dismissed h
  have arena : σ'.arena.map Task.unconfigure = σ'.arena := by
    apply Array.ext_getElem?
    intro i
    rw [Array.getElem?_map, slots i]
    cases found : σ.arena[i]? with
    | none => rfl
    | some t =>
      rw [Option.map_some, Option.map_some, Task.unconfigure_retire]
      congr 1
      by_cases member : i ∈ l
      · by_cases bound : i < σ.declared <;> simp [Task.retire, member, bound, Task.unconfigure, Task.giveBack, Task.fresh]
      · obtain ⟨pristine, unlinked, owned⟩ := loose l queued i t found member
        rw [← pristine]
        rcases t with ⟨state, timing, repeats, pooled, allocated, next, handler, payload⟩
        cases unlinked
        cases allocated with
        | false => by_cases bound : i < σ.declared <;> cases pooled <;> simp [Task.retire, member, bound, Task.giveBack]
        | true =>
          obtain ⟨rfl, bound⟩ := owned rfl
          simp [Task.retire, member, bound, Task.giveBack]
  rw [Bare, blank, arena, left.queue, left.cache]

end Scheduler

/-- What is not configured has nothing to lose at the end of a session. -/
theorem View.Tidy.ended {v : View} {roster : List Nat} {σ : Scheduler} {count : Nat} (h : v.Tidy) (linked : v.Linked)
    (enrolled : v.Enrolled roster) (e : v.scheduler.endSession = .ok (count, σ)) : σ.Bare := by
  refine Scheduler.endSession_bare e fun l queued i t found out => ?_
  obtain ⟨l', holds, mem⟩ := linked.queue
  cases (Queue.members_of_holds holds).symm.trans queued
  cases (Queue.members_of_holds holds).symm.trans (Queue.members_of_holds enrolled.holds)
  have uninit : t.state = .uninit := by
    by_contra configured
    refine out ((mem i).2 ?_)
    rw [Scheduler.life, Arena.life_of_slot (Arena.slot_eq_ok_iff.2 found)]
    exact configured
  refine ⟨h.pristine i t found uninit, ?_, fun marked => ?_⟩
  · have unlinked := enrolled.loose i (Array.getElem?_eq_some_iff.1 found).1 out
    simpa [Arena.link, found] using unlinked
  · have pooled := h.owned i t found marked
    exact ⟨pooled, h.declared i t found pooled⟩

/-! ## The end of a run -/

namespace Act

/-- What a run comes to after its session was ended. -/
def passed : Act → Bool
  | closing _ | locked (.sessionOver _) | answered .done => true
  | _ => false

end Act

/-- What a run that began at `x` has come to: nothing yet, a refusal, its loop, or the end of its session, which is
behind it if it has come further. -/
inductive Moment.RunStage (Q : Moment → Prop) (d : Nat) (below : List Frame) (x : Moment) (first : Frame) (z : Moment) :
    Frame → Prop
  | called : z = x → RunStage Q d below x first z first
  | refused {e} : RunStage Q d below x first z ⟨d, .answered (.failed e)⟩
  | loops : RunStage Q d below x first z ⟨d, .running⟩
  | ends : RunStage Q d below x first z ⟨d, .locked .endSession⟩
  | ended {u act} : act.passed → u.machine.stack = ⟨d, .locked .endSession⟩ :: below → Run Q x u → Run Q u z →
      RunStage Q d below x first z ⟨d, act⟩

namespace Moment.RunStage

variable {Q : Moment → Prop} {d : Nat} {below above : List Frame} {x z z' : Moment} {first g g' : Frame}

theorem passes {act : Act} (passed : act.passed) {u : Moment} (shut : u.machine.stack = ⟨d, .locked .endSession⟩ :: below)
    (r : Run Q x u) (r' : Run Q u z') (h : act.Comes g'.act ∧ g'.device = d) : RunStage Q d below x first z' g' := by
  rcases g' with ⟨e, act'⟩
  obtain ⟨comes, rfl⟩ := h
  refine .ended ?_ shut r r'
  cases comes <;> first | rfl | cases passed

/-- The lowest frame of a run works, or takes the deadline of a round. -/
theorem comes (h : RunStage Q d below x first z g) (r : Run Q x z) (next : z.Next z') (q : Q z')
    (fresh : z = x → g = first → g'.device = d ∧ ((∃ e, g'.act = .answered (.failed e)) ∨ g'.act = .running))
    (alone : g.act.engages → g.act.loops ∨ z.machine.stack = g :: below)
    (unanswered : ∀ a, g.act ≠ .answered a)
    (goesOn : g.act.engages → g'.device = g.device ∧ g.act.Comes g'.act) : RunStage Q d below x first z' g' := by
  cases h with
  | called same =>
    rcases g' with ⟨e, act'⟩
    obtain ⟨rfl, ⟨e, rfl⟩ | rfl⟩ := fresh same rfl
    · exact .refused
    · exact .loops
  | refused => exact absurd rfl (unanswered _)
  | loops =>
    rcases g' with ⟨e, act'⟩
    obtain ⟨rfl, comes⟩ := goesOn rfl
    cases comes
    · exact .loops
    · exact .ends
  | ends =>
    rcases g' with ⟨e, act'⟩
    obtain ⟨rfl, comes⟩ := goesOn rfl
    rcases alone rfl with loops | stack
    · cases loops
    · refine .ended ?_ stack r (.more (.here r.last) next q)
      cases comes
      rfl
  | @ended u act passed shut r₁ r₂ =>
    have engages : act.engages := by
      cases act with
      | closing => rfl
      | locked s => cases s <;> first | rfl | cases passed
      | answered a => exact absurd rfl (unanswered a)
      | _ => cases passed
    obtain ⟨device, comes⟩ := goesOn engages
    exact passes passed shut r₁ (r₂.more next q) ⟨comes, device⟩

end Moment.RunStage

/-- A run that is done went through the end of its session. -/
theorem Run.ending {P : Moment → Prop} {x y : Moment} {d : Nat} {self : Option Nat} {below : List Frame}
    (r : Run (fun z => P z ∧ z.Within below) x y) (stacked : Stacked x.machine.stack)
    (called : x.machine.stack = ⟨d, .perform self .run⟩ :: below) (done : y.machine.stack = ⟨d, .answered .done⟩ :: below) :
    ∃ z, z.machine.stack = ⟨d, .locked .endSession⟩ :: below ∧ Run (fun z => P z ∧ z.Within below) x z ∧
      Run (fun z => P z ∧ z.Within below) z y := by
  have ordered : ∀ z, Run (fun z => P z ∧ z.Within below) x z →
      Stacked z.machine.stack ∧ Run (fun z => P z ∧ z.Within below) x z := fun z r =>
    ⟨r.invariant stacked fun _ _ h _ next _ => next.machine.turn.stacked h, r⟩
  obtain ⟨above, g, stack, stage⟩ : ∃ above g, y.machine.stack = above ++ g :: below ∧
      x.RunStage (fun z => P z ∧ z.Within below) d below ⟨d, .perform self .run⟩ y g := by
    refine Run.bottom (r.also ordered) called (.called rfl) (fun z p => p.1.2) (fun z g h => ?_)
      (fun z z' g a above above' h p next p' stack stack' => ?_) (fun z z' g g' above' h p next p' stack stack' => ?_)
      (fun z z' g g' e ms above' h p next p' stack stack' => ?_)
    · cases h with
      | @ended _ act passed =>
        cases act with
        | locked s => rfl
        | _ => first | rfl | cases passed
      | _ => rfl
    · cases h with
      | called same =>
        -- Nothing was above the frame when the call began.
        have length := congrArg List.length (stack.symm.trans (same ▸ called))
        simp only [List.cons_append, List.length_cons, List.length_append] at length
        omega
      | refused => exact (Stacked.bare (stack ▸ p.2.1)).elim
      | loops => exact .loops
      | ends => exact .ends
      | ended passed shut r₁ r₂ => exact .ended passed shut r₁ (r₂.more next p'.1)
    · refine h.comes p.2.2 next p'.1 (fun same first => ?_) (fun _ => .inr stack) (fun a same => ?_)
        fun engages => next.comes stack engages stack'
      · subst first
        obtain ⟨device, ⟨-, refused⟩ | comes⟩ := next.session stack rfl stack'
        · exact ⟨device, .inl refused⟩
        · generalize g'.act = act at comes ⊢
          cases comes
          exact ⟨device, .inr rfl⟩
      · rcases g with ⟨e, act⟩
        dsimp only at same
        subst same
        exact absurd p'.1.2 (next.not_within stack)
    · refine h.comes p.2.2 next p'.1 (fun same first => ?_) (fun engages => ?_) (fun a same => ?_)
        fun engages => next.comes_given stack engages stack'
      · subst first
        cases stack.symm.trans (same ▸ called)
      · rcases g with ⟨e', act⟩
        rcases (stack ▸ p.2.1).1.1 with round | loops
        · dsimp only at round
          subst round
          cases engages
        · exact .inl loops
      · rcases g with ⟨e', act⟩
        dsimp only at same
        subst same
        exact (@Stacked.bare _ _ _ [] _ (stack ▸ p.2.1)).elim
  have own : [_].getLast? = some _ := getLast?_eq_of_append (done.symm.trans stack)
  cases own
  cases stage with
  | ended passed shut r₁ r₂ => exact ⟨_, shut, r₁, r₂⟩

namespace Moment

/-- An interrupt fires. -/
def Fires (x : Moment) : Prop := ∃ f ∈ x.machine.stack.head?, f.act.bodies ≠ []

instance (x : Moment) : Decidable x.Fires := inferInstanceAs (Decidable (∃ f ∈ x.machine.stack.head?, f.act.bodies ≠ []))

/-- What a run comes to after the end of its session when no interrupt fires. -/
inductive Leaving (d : Nat) (below : List Frame) : Scheduler → List Frame → Prop
  | telling {σ n bodies} : σ.Bare → Leaving d below σ (⟨d, .interrupts .deinit bodies⟩ :: ⟨d, .closing n⟩ :: below)
  | told {σ n} : σ.Bare → Leaving d below σ (⟨d, .closing n⟩ :: below)
  | locking {σ n bodies} : σ.Bare → Leaving d below σ (⟨d, .interrupts .lock bodies⟩ :: ⟨d, .locked (.sessionOver n)⟩ :: below)
  | locked {σ n} : σ.Bare → Leaving d below σ (⟨d, .locked (.sessionOver n)⟩ :: below)
  | left {σ} : σ = σ.blank → Leaving d below σ (⟨d, .answered .done⟩ :: below)

variable {z z' : Moment} {d : Nat} {below : List Frame} {δ : Device}

theorem Next.leaving (next : z.Next z') (found : z.machine.world.devices[d]? = some δ) (within : z'.Within below)
    (h : Leaving d below δ.scheduler z.machine.stack) (silent : ¬z.Fires)
    (idle : ∀ n, z.machine.stack = ⟨d, .locked (.sessionOver n)⟩ :: below → δ.scheduler.inRound = false) :
    ∃ δ', z'.machine.world.devices[d]? = some δ' ∧ Leaving d below δ'.scheduler z'.machine.stack := by
  have quiet : ∀ {call bodies rest}, z.machine.stack = ⟨d, .interrupts call bodies⟩ :: rest → bodies = [] := by
    intro call bodies rest top
    cases bodies with
    | nil => rfl
    | cons body bodies => exact absurd ⟨⟨d, .interrupts call (body :: bodies)⟩, by rw [top]; rfl, nofun⟩ silent
  generalize top : z.machine.stack = stack at h
  generalize same : δ.scheduler = σ at h
  cases h with
  | telling bare =>
    cases quiet top
    obtain ⟨ε, move, hε, moved, eq⟩ := next.machine.moves top nofun nofun
    cases found.symm.trans hε
    cases moved
    rw [eq]
    exact ⟨δ, World.device_put found, .told (same ▸ bare)⟩
  | told bare =>
    obtain ⟨ε, move, hε, moved, eq⟩ := next.machine.moves top nofun nofun
    cases found.symm.trans hε
    cases moved
    rw [eq]
    exact ⟨_, World.device_put found, .locking (same ▸ bare)⟩
  | locking bare =>
    cases quiet top
    obtain ⟨ε, move, hε, moved, eq⟩ := next.machine.moves top nofun nofun
    cases found.symm.trans hε
    cases moved
    rw [eq]
    exact ⟨δ, World.device_put found, .locked (same ▸ bare)⟩
  | locked bare =>
    obtain ⟨ε, move, hε, moved, eq⟩ := next.machine.moves top nofun nofun
    cases found.symm.trans hε
    cases moved
    rw [eq]
    refine ⟨δ.withScheduler { δ.scheduler with runState := .stopped }, World.device_put found, .left ?_⟩
    exact (same ▸ bare : δ.scheduler.Bare).stopped (idle _ top)
  | left => exact absurd within (next.not_within top)

theorem Next.ends {v : View} {roster : List Nat} (next : z.Next z') (h : z.view d = some v) (tidy : v.Tidy)
    (linked : v.Linked) (enrolled : v.Enrolled roster) (top : z.machine.stack = ⟨d, .locked .endSession⟩ :: below) :
    ∃ δ, z'.machine.world.devices[d]? = some δ ∧ Leaving d below δ.scheduler z'.machine.stack := by
  have found := (view_eq_some h).1
  obtain ⟨ε, move, hε, moved, eq⟩ := next.machine.moves top nofun nofun
  cases found.symm.trans hε
  obtain ⟨⟨count, σ⟩, ended, moved⟩ := bind_eq_ok.1 moved
  cases moved
  rw [eq]
  have bare : σ.Bare := tidy.ended linked enrolled ended
  unfold World.closeSession
  split
  · exact ⟨_, World.device_put (w := z.machine.world.emit _) found, .telling bare⟩
  · exact ⟨_, World.device_put found, .telling bare⟩

/-- After the end of its session, a run that no interrupt disturbs leaves a blank scheduler. -/
theorem blank_of_ending {P : Moment → Prop} {s : Setup} {y : Moment} {v : View} (r : Run P (initial s) z)
    (r' : Run (fun u => (P u ∧ u.Within below) ∧ ¬u.Fires) z y) (calm : ∀ u, P u → Confined Op.calm u.machine.stack)
    (home : ∀ u, P u → u.machine.AtHome) (shut : z.machine.stack = ⟨d, .locked .endSession⟩ :: below)
    (done : y.machine.stack = ⟨d, .answered .done⟩ :: below) (h : y.view d = some v) :
    v.scheduler = v.scheduler.blank := by
  have known : ∀ u, Run (fun u => (P u ∧ u.Within below) ∧ ¬u.Fires) z u → Run P (initial s) u := fun u r' =>
    r.trans (r'.mono fun _ p => p.1.1)
  have reached : y = z ∨ ∃ δ, y.machine.world.devices[d]? = some δ ∧ Leaving d below δ.scheduler y.machine.stack := by
    refine (r'.also known).invariant
      (I := fun u => u = z ∨ ∃ δ, u.machine.world.devices[d]? = some δ ∧ Leaving d below δ.scheduler u.machine.stack)
      (.inl rfl) fun u u' inv p next p' => .inr ?_
    rcases inv with rfl | ⟨δ, found, leaving⟩
    · obtain ⟨roster, t⟩ := p.2.traced (recording d View.enlist) []
      obtain ⟨ε, hε⟩ : ∃ ε, u.machine.world.devices[d]? = some ε := by
        obtain ⟨ε, -, hε, -⟩ := next.machine.moves shut nofun nofun
        exact ⟨ε, hε⟩
      have shown : u.view d = some ⟨ε, pending d u.machine.stack, u.past d⟩ := by rw [view, hε]; rfl
      exact next.ends shown (tidy p.2 home shown) (orderly p.2 calm shown).linked (enrolled t shown) shut
    · refine next.leaving found p'.1.1.2 leaving p.1.2 fun n top => ?_
      have shown : u.view d = some ⟨δ, pending d u.machine.stack, u.past d⟩ := by rw [view, found]; rfl
      have acts : pending d u.machine.stack = .locked (.sessionOver n) :: pending d below := by rw [top, pending_same]
      have calm := Moment.calm p.2 calm shown
      have sound := calm.sound
      have layered : Layered (.locked (.sessionOver n) :: pending d below) := acts ▸ sound.layered
      have none : Act.round ∉ pending d below := layered.1
      refine Bool.eq_false_iff.2 fun busy => none ?_
      have m : Act.round ∈ pending d u.machine.stack := sound.inRound.1 busy
      rw [acts] at m
      exact (List.mem_cons.1 m).resolve_left Act.noConfusion
  obtain ⟨found, -⟩ := view_eq_some h
  rcases reached with rfl | ⟨δ, found', leaving⟩
  · cases shut.symm.trans done
  · cases found.symm.trans found'
    rw [done] at leaving
    cases leaving with
    | left blank => exact blank

/-! ## A new beginning -/

/-- The scheduler is just what reservations make of a new one over the pools `init`. With the bytes of these pools as new
as well, whatever happens from now on happens in the same way. -/
structure LikeNew (y : Moment) (δ : Device) (init : Pools) (l : List Reservation) (ps qs : Pools) : Prop where
  made : furnish (.fresh δ.scheduler.capacity) init l = some (δ.scheduler, ps)
  own : ∀ k : Nat, .pool k ∈ l → qs[k]? = ps[k]?
  others : ∀ k : Nat, .pool k ∉ l → qs[k]? = y.machine.world.pools[k]?
  forth : ∀ u, Run (fun _ => True) y u → ∃ rs, Run (fun _ => True) (y.withPools qs) (u.withPools rs)
  back : ∀ u, Run (fun _ => True) (y.withPools qs) u → ∃ rs, Run (fun _ => True) y (u.withPools rs)

/-- The bytes in the pools of a blank scheduler are seen by no one. -/
theorem likeNew_of_blank {init : Pools} {y : Moment} {l : List Reservation} (f : Furnished init d y.machine.world l)
    (found : y.machine.world.devices[d]? = some δ) (blank : δ.scheduler = δ.scheduler.blank) :
    ∃ ps qs, y.LikeNew δ init l ps qs := by
  obtain ⟨ps, made, shown⟩ := f.made δ found
  let renew : Nat → Pool → Pool := fun k p => if .pool k ∈ l then p.cleared else p
  have renewed : ∀ k : Nat, (y.machine.world.pools.mapIdx renew)[k]? = y.machine.world.pools[k]?.map (renew k) :=
    fun k => Array.getElem?_mapIdx
  have twins : y.machine.world.Twins (y.machine.world.pools.mapIdx renew) := by
    intro k
    rw [renewed k]
    cases hp : y.machine.world.pools[k]? with
    | none => exact .none
    | some p =>
      refine .some ?_
      by_cases mine : .pool k ∈ l
      · have cleared : renew k p = p.cleared := if_pos mine
        rw [cleared]
        refine ⟨⟨rfl, rfl, rfl, by rw [f.length k p hp]; simp [Pool.cleared]⟩, fun pos seen => ?_⟩
        obtain ⟨e, ε, i, t, segment, length, hε, ht, payload, rfl, low, high⟩ := seen
        -- Only slots on this device lie in the pool, and they have no bytes.
        obtain ⟨-, here⟩ := f.home e ε hε i t segment ht (by rw [payload]; rfl)
        cases here mine
        cases found.symm.trans hε
        rw [blank] at ht
        simp only [Scheduler.blank, Array.getElem?_map, Option.map_eq_some_iff] at ht
        obtain ⟨u, -, rfl⟩ := ht
        have empty := Payload.length_emptied u.payload
        rw [show u.payload.emptied = .copied segment length from payload] at empty
        have empty : length = 0 := empty
        omega
      · have kept : renew k p = p := if_neg mine
        rw [kept]
        exact ⟨.refl p, fun _ _ => rfl⟩
  refine ⟨ps, y.machine.world.pools.mapIdx renew, ?_, fun k mine => ?_, fun k other => ?_, fun u r => ?_, fun u r => ?_⟩
  · rw [made, ← blank]
  · rw [renewed k, shown k]
    simp [renew, mine]
  · rw [renewed k]
    simp [renew, other]
  · obtain ⟨rs, same, -⟩ := r.twin twins
    exact ⟨rs, same⟩
  · obtain ⟨rs, same, -⟩ := r.twin twins.symm
    exact ⟨rs, same⟩

/-- When a run is done, and no interrupt fired since it took the queue apart, its scheduler is as good as new: it is what
the reservations that were made on its device so far make of a new scheduler, and no one can tell what was in its pools.
Interrupts must begin no session and no round, and pools be used where their slots lie. -/
theorem finished_run_renews {P : Moment → Prop} {s : Setup} {x y : Moment} {self : Option Nat} {l₀ l : List Reservation}
    (t : Traced P (reserve d) [] (initial s) x l₀)
    (t' : Traced (fun u => P u ∧ u.Within below) (reserve d) l₀ x y l)
    (calm : ∀ u, P u → Confined Op.calm u.machine.stack) (home : ∀ u, P u → u.machine.AtHome)
    (called : x.machine.stack = ⟨d, .perform self .run⟩ :: below) (done : y.machine.stack = ⟨d, .answered .done⟩ :: below)
    (found : y.machine.world.devices[d]? = some δ) :
    (∃ z, z.machine.stack = ⟨d, .locked .endSession⟩ :: below ∧ Run (fun u => P u ∧ u.Within below) x z ∧
      Run (fun u => P u ∧ u.Within below) z y) ∧
    ∀ z, z.machine.stack = ⟨d, .locked .endSession⟩ :: below → Run (fun u => P u ∧ u.Within below) x z →
      Run (fun u => (P u ∧ u.Within below) ∧ ¬u.Fires) z y → ∃ ps qs, y.LikeNew δ s.world.pools l ps qs := by
  refine ⟨Run.ending t'.run (stacked_of_run t.run) called done, fun z shut before silent => ?_⟩
  have shown : y.view d = some ⟨δ, pending d y.machine.stack, y.past d⟩ := by rw [view, found]; rfl
  have blank := blank_of_ending (t.run.trans (before.mono fun _ p => p.1)) silent calm home shut done shown
  exact likeNew_of_blank (furnished (t.trans (t'.mono fun _ p => p.1))) found blank

/-- A scheduler with three slots, a pool of two, and a handler that asks for the end of the session. -/
def used : Setup := ⟨[⟨3, 0, [], []⟩], false, [(2, 4)], [[[.shutdown]]], 9, false⟩

/-- A session that leaves bytes in the pool, and during which an interrupt takes the other slot. -/
def usedCalls : List (Nat × Op) :=
  [(0, .declare), (0, .init), (0, .alloc 0), (0, .configure (.slot 1) 0 10 false), (0, .write (.slot 1) [1, 2]),
    (0, .start (.slot 1)), (0, .hook .sleep 0 [.alloc 0]), (0, .run)]

/-- The bytes of the session are still in the pool, but no one can tell. -/
theorem finished_run_renews_of_handler : ∃ (y : Moment) (δ : Device) (l : List Reservation) (ps qs : Pools),
    y.machine.world.devices[0]? = some δ ∧ y.machine.stack = [⟨0, .answered .done⟩] ∧
    y.machine.world.pools[0]?.map Pool.storage = some [1, 2, 0, 0, 0, 0, 0, 0] ∧ y.LikeNew δ used.world.pools l ps qs := by
  let at' := fun n => ((initial used).steps n usedCalls).1
  let P := fun z : Moment => Confined Op.calm z.machine.stack ∧ z.machine.AtHome
  have called : (at' 41).machine.stack = [⟨0, .perform none .run⟩] := by rfl
  have shut : (at' 92).machine.stack = [⟨0, .locked .endSession⟩] := by rfl
  have done : (at' 97).machine.stack = [⟨0, .answered .done⟩] := by rfl
  have bytes : (at' 97).machine.world.pools[0]?.map Pool.storage = some [1, 2, 0, 0, 0, 0, 0, 0] := by decide +kernel
  have first : Run P (initial used) (at' 41) := run_steps (by decide +kernel)
  have before : Run (fun z => P z ∧ 0 < z.machine.stack.length) (at' 41) (at' (41 + 51)) :=
    run_steps_add (by decide +kernel) (by decide +kernel)
  have silent : Run (fun z => (P z ∧ ¬z.Fires) ∧ 0 < z.machine.stack.length) (at' 92) (at' (92 + 5)) :=
    run_steps_add (by decide +kernel) (by decide +kernel)
  have stacked := stacked_of_run (first.trans (before.mono fun _ p => p.1))
  have before := before.within (stacked_of_run first) called rfl fun _ p => p.2
  have silent := silent.within stacked shut rfl fun _ p => p.2
  obtain ⟨l₀, t⟩ := first.traced (reserve 0) []
  have whole : Run (fun z => P z ∧ z.Within []) (at' 41) (at' 97) :=
    (before.mono fun _ p => ⟨p.1.1, p.2⟩).trans (silent.mono fun _ p => ⟨p.1.1.1, p.2⟩)
  obtain ⟨l, t'⟩ := whole.traced (reserve 0) l₀
  obtain ⟨δ, found⟩ : ∃ δ, (at' 97).machine.world.devices[0]? = some δ := ⟨_, rfl⟩
  obtain ⟨-, renews⟩ := finished_run_renews t t' (fun _ p => p.1) (fun _ p => p.2) called done found
  obtain ⟨ps, qs, new⟩ := renews (at' 92) shut (before.mono fun _ p => ⟨p.1.1, p.2⟩)
    (silent.mono fun _ p => ⟨⟨p.1.1.1, p.2⟩, p.1.1.2⟩)
  exact ⟨at' 97, δ, l, ps, qs, found, done, bytes, new⟩

end Moment

end TimedTasks
