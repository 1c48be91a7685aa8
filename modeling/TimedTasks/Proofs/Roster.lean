import TimedTasks.Proofs.Linked
import TimedTasks.Proofs.Record

/-!
# The queue as a list

What the queue ought to hold can be said without links. The roster of a scheduler is a list that is kept beside the run
(`View.enlist`): a configuration that finds its slot not configured puts the slot at the end, either end of a session
strikes all names, and nothing else changes it. The links, written and read one by one while handlers and interrupts
run in between, always lead through just the slots of the roster (`Moment.queue_refines_roster`).

That a slot which is not configured is not on the roster needs no condition, so nothing is ever linked twice. The other
direction has one exception: a session that ends inside the clock reading of a start takes the task out of the queue,
and the start arms it all the same. Without that the roster is the list of all configured slots.
-/

namespace TimedTasks

/-! ## What pieces of operations do to links -/

namespace Arena

variable {a b : Arena} {f : Task → Task} {l : List Nat}

theorem link_alterAll_of_same (h : a.alterAll f l = .ok b) (same : ∀ t, (f t).next = t.next) : b.link = a.link := by
  induction l generalizing a with
  | nil => cases h; rfl
  | cons i rest ih =>
    obtain ⟨c, hc, hb⟩ := bind_eq_ok.1 h
    rw [ih hb, link_alter hc same]

/-- Slots that are taken out of the queue have no next one any more. -/
theorem link_alterAll_none (h : a.alterAll f l = .ok b) (out : ∀ t, (f t).next = none) (j : Nat) :
    b.link j = if j ∈ l then (a.link j).map fun _ => none else a.link j := by
  induction l generalizing a with
  | nil => cases h; simp
  | cons i rest ih =>
    obtain ⟨c, hc, hb⟩ := bind_eq_ok.1 h
    have first : c.link j = if i = j then (a.link j).map fun _ => none else a.link j := by
      rw [link, getElem?_alter hc]
      split
      · simp [link, Option.map_map, Function.comp_def, out]
      · rfl
    rw [ih hb, first]
    by_cases here : i = j
    · subst here
      simp [Option.map_map, Function.comp_def]
    · simp [here, Ne.symm here]

theorem size_alterAll (h : a.alterAll f l = .ok b) : b.size = a.size := by
  induction l generalizing a with
  | nil => cases h; rfl
  | cons i rest ih =>
    obtain ⟨c, hc, hb⟩ := bind_eq_ok.1 h
    rw [ih hb, size_alter hc]

theorem link_isSome {i : Nat} (h : i < a.size) : (a.link i).isSome := by
  simp [link, h]

end Arena

/-- A push changes the links of the slot that is pushed and of the last one only. -/
theorem Queue.link_push {q q' : Queue} {a b : Arena} {l : List Nat} {i j : Nat} (h : q.Holds a.link l)
    (hp : q.push a i = .ok (q', b)) (out : j ∉ l) (other : j ≠ i) : b.link j = a.link j := by
  unfold push at hp
  split at hp
  · cases hp
  · obtain ⟨a₁, h₁, hp⟩ := bind_eq_ok.1 hp
    have first : a₁.link j = a.link j := by simp [Arena.link, Arena.getElem?_alter h₁, Ne.symm other]
    split at hp
    · cases hp
      exact first
    · rename_i last some_tail
      obtain ⟨a₂, h₂, hp⟩ := bind_eq_ok.1 hp
      cases hp
      have notLast : last ≠ j := by
        rintro rfl
        exact out (List.mem_of_getLast? (h.tail.symm.trans some_tail))
      rw [← first]
      simp [Arena.link, Arena.getElem?_alter h₂, notLast]

namespace Scheduler

variable {σ σ' : Scheduler} {i : Nat}

theorem declared_alter {f : Task → Task} (h : σ.alter i f = .ok σ') : σ'.declared = σ.declared := by
  obtain ⟨a, -, rfl⟩ := alter_eq_ok h
  rfl

/-- What a configuration does to the links. -/
theorem configure_links {handler : Nat} {ms : UInt32} {repeats : Bool} {l : List Nat}
    (h : σ.configure i handler ms repeats = .ok (.ok σ')) (holds : σ.queue.Holds σ.arena.link l) :
    σ'.declared = σ.declared ∧ σ'.arena.size = σ.arena.size ∧
      ∀ j, j ∉ l → ((σ.life i).state = .uninit → j ≠ i) → σ'.arena.link j = σ.arena.link j := by
  obtain ⟨t, ht, h⟩ := bind_eq_ok.1 h
  have life : (σ.life i).state = t.state := congrArg Life.state (Arena.life_of_slot ht)
  split at h
  · cases h
  · by_cases first : t.state = .uninit
    · simp only [first, if_true] at h
      obtain ⟨τ, hτ, h⟩ := bind_eq_ok.1 h
      obtain ⟨⟨q, a⟩, hp, hτ⟩ := bind_eq_ok.1 hτ
      cases hτ
      obtain ⟨υ, hυ, h⟩ := bind_eq_ok.1 h
      cases h
      have c := alter_changes (·.configure handler ms repeats) hυ (fun _ => rfl) fun _ => rfl
      have declared := declared_alter hυ
      refine ⟨declared, c.size.trans (Queue.push_same hp).2, fun j out other => ?_⟩
      exact (congrFun c.link j).trans (Queue.link_push holds hp out (other (life.trans first)))
    · simp only [first, if_false] at h
      obtain ⟨τ, hτ, h⟩ := bind_eq_ok.1 h
      cases hτ
      obtain ⟨υ, hυ, h⟩ := bind_eq_ok.1 h
      cases h
      have c := alter_changes (·.configure handler ms repeats) hυ (fun _ => rfl) fun _ => rfl
      have declared := declared_alter hυ
      exact ⟨declared, c.size, fun j _ _ => congrFun c.link j⟩

/-- What either end of a session does to the links. -/
theorem dismiss_links {q : Queue} {a b : Arena} {count : Nat} {l : List Nat} (h : q.dismiss a = .ok (count, b))
    (holds : q.Holds a.link l) :
    b.size = a.size ∧ ∀ j, b.link j = if j ∈ l then (a.link j).map fun _ => none else a.link j := by
  obtain ⟨l', hl, h⟩ := bind_eq_ok.1 h
  cases (Queue.members_of_holds holds).symm.trans hl
  obtain ⟨c, hc, h⟩ := bind_eq_ok.1 h
  cases h
  exact ⟨Arena.size_alterAll hc, Arena.link_alterAll_none hc fun _ => rfl⟩

theorem beginSession_links {l : List Nat} (h : σ.beginSession = .ok σ') (holds : σ.queue.Holds σ.arena.link l) :
    σ'.arena.size = σ.arena.size ∧
      ∀ j, σ'.arena.link j = if j ∈ l then (σ.arena.link j).map fun _ => none else σ.arena.link j := by
  obtain ⟨⟨count, a⟩, hd, h⟩ := bind_eq_ok.1 h
  cases h
  exact dismiss_links hd holds

theorem endSession_links {count : Nat} {l : List Nat} (h : σ.endSession = .ok (count, σ'))
    (holds : σ.queue.Holds σ.arena.link l) :
    σ'.arena.size = σ.arena.size ∧
      ∀ j, σ'.arena.link j = if j ∈ l then (σ.arena.link j).map fun _ => none else σ.arena.link j := by
  obtain ⟨⟨count, a⟩, hd, h⟩ := bind_eq_ok.1 h
  obtain ⟨b, hb, h⟩ := bind_eq_ok.1 h
  cases h
  obtain ⟨size, link⟩ := dismiss_links hd holds
  refine ⟨(Arena.size_alterAll hb).trans size, fun j => ?_⟩
  exact (congrFun (Arena.link_alterAll_of_same hb Task.next_giveBack) j).trans (link j)

end Scheduler

/-! ## What a step does to the links -/

/-- The act configures a slot. -/
def Act.configures : Act → Bool
  | locked (.configure ..) => true
  | _ => false

/-- The act hands out slots that were not handed out before. -/
def Act.reserves : Act → Bool
  | locked .declare | locked (.enroll _) => true
  | _ => false

open Scheduler in
/-- No other act hands out slots. -/
theorem Leads.declared_eq {w : World} {δ : Device} {act : Act} {s : Stride} (l : Leads w δ act s)
    (no : act.reserves = false) : s.scheduler.declared = δ.scheduler.declared := by
  cases l with
  | update _ re => exact (relength_changes re).2.1
  | stop _ st =>
    obtain ⟨found, -, st⟩ := bind_eq_ok.1 st
    split at st
    · cases st
    · split at st
      · cases st
      · obtain ⟨τ, hτ, st⟩ := bind_eq_ok.1 st
        cases st
        exact declared_alter hτ
  | stamp st | renew st => exact declared_alter st
  | dispatched _ _ _ st => exact declared_alter st
  | settled st => exact declared_alter st
  | claimed c => exact declared_alter c
  | noted n =>
    obtain ⟨cache, -, n⟩ := bind_eq_ok.1 n
    cases n
    rfl
  | adopted a =>
    obtain ⟨⟨cache, left⟩, -, a⟩ := bind_eq_ok.1 a
    cases a
    rfl
  | attached a =>
    obtain ⟨t, -, a⟩ := bind_eq_ok.1 a
    split at a
    · split at a
      · obtain ⟨τ, hτ, a⟩ := bind_eq_ok.1 a
        cases a
        exact declared_alter hτ
      · obtain ⟨kept, -, a⟩ := bind_eq_ok.1 a
        obtain ⟨τ, hτ, a⟩ := bind_eq_ok.1 a
        cases a
        exact declared_alter hτ
    · cases a
  | written a =>
    obtain ⟨t, -, a⟩ := bind_eq_ok.1 a
    split at a
    · split at a
      · cases a
      · obtain ⟨kept, -, a⟩ := bind_eq_ok.1 a
        obtain ⟨τ, hτ, a⟩ := bind_eq_ok.1 a
        cases a
        exact declared_alter hτ
    · cases a
  | configured c =>
    obtain ⟨t, -, c⟩ := bind_eq_ok.1 c
    split at c
    · cases c
    · by_cases first : t.state = .uninit
      · simp only [first, if_true] at c
        obtain ⟨τ, hτ, c⟩ := bind_eq_ok.1 c
        obtain ⟨⟨q, a⟩, -, hτ⟩ := bind_eq_ok.1 hτ
        cases hτ
        obtain ⟨υ, hυ, c⟩ := bind_eq_ok.1 c
        cases c
        have declared := declared_alter hυ
        exact declared
      · simp only [first, if_false] at c
        obtain ⟨τ, hτ, c⟩ := bind_eq_ok.1 c
        cases hτ
        obtain ⟨υ, hυ, c⟩ := bind_eq_ok.1 c
        cases c
        have declared := declared_alter hυ
        exact declared
  | shutdown => unfold Scheduler.shutdown; split <;> rfl
  | begun b => exact (beginSession_dismissed b).2.2
  | ended e => exact (endSession_dismissed e).2.2
  | declared | enrolled => cases no
  | _ => rfl

open Scheduler in
/-- Slots that were handed out are never taken back. -/
theorem Leads.declared_le {w : World} {δ : Device} {act : Act} {s : Stride} (l : Leads w δ act s) :
    δ.scheduler.declared ≤ s.scheduler.declared := by
  by_cases reserves : act.reserves = true
  · have taken : ∀ {count first : Nat} {σ : Scheduler}, δ.scheduler.takeSlots count = some (first, σ) →
        δ.scheduler.declared ≤ σ.declared := by
      intro count first σ t
      unfold takeSlots at t
      split at t <;> cases t
      exact Nat.le_add_right _ _
    cases l with
    | declared t => exact taken t
    | enrolled e =>
      obtain ⟨p, -, e⟩ := bind_eq_ok.1 e
      split at e
      · cases e
        exact Nat.le_refl _
      · split at e
        · cases e
        · rename_i found
          obtain ⟨a, -, e⟩ := bind_eq_ok.1 e
          cases e
          have le := taken found
          exact le
    | refused => exact Nat.le_refl _
    | _ => cases reserves
  · exact Nat.le_of_eq (l.declared_eq (by simpa using reserves)).symm

open Scheduler in
/-- Configurations and the ends of sessions apart, every step leaves the links alone. -/
theorem Leads.links {w : World} {δ : Device} {act : Act} {s : Stride} (l : Leads w δ act s)
    (plain : act.configures = false) (keeps : act.resets = false) :
    s.scheduler.queue = δ.scheduler.queue ∧ s.scheduler.arena.link = δ.scheduler.arena.link ∧
      s.scheduler.arena.size = δ.scheduler.arena.size := by
  have changed : ∀ {σ : Scheduler} {life cache}, Changes δ.scheduler σ life cache →
      σ.queue = δ.scheduler.queue ∧ σ.arena.link = δ.scheduler.arena.link ∧ σ.arena.size = δ.scheduler.arena.size :=
    fun c => ⟨c.queue, c.link, c.size⟩
  cases l with
  | update _ re => exact changed (relength_changes re).2.2
  | stop _ st => exact changed (stop_changes st).2
  | stamp st | renew st => exact changed (start_changes st)
  | dispatched _ _ _ st => exact changed (stopping_changes st)
  | settled st => exact changed (settle_changes st)
  | claimed c => exact changed (handOut_changes c)
  | noted n => exact changed (noteArmed_changes n).2
  | adopted a => exact changed (adopt_changes a).2
  | attached a => exact changed (attach_changes a)
  | written a => exact changed (write_changes a)
  | declared t => exact changed (takeSlots_changes t)
  | enrolled e => exact changed (enrollPool_changes e)
  | shutdown => unfold Scheduler.shutdown; split <;> exact ⟨rfl, rfl, rfl⟩
  | forgotten => exact changed (forget_changes _ _)
  | configured => cases plain
  | begun | ended => cases keeps
  | _ => exact ⟨rfl, rfl, rfl⟩

/-- Either end of a session apart, a slot that is configured stays so. -/
theorem Lives.configured {σ : Scheduler} {now : UInt32} {act : Act} {life : Nat → Life} (l : Lives σ now act life)
    (keeps : act.resets = false) (starts : ∀ i next, act = .reading (.start i next) → next ≠ .uninit) :
    ∀ i, (σ.life i).state ≠ .uninit → (life i).state ≠ .uninit := by
  have one : ∀ {i : Nat} {ℓ : Life}, ((σ.life i).state ≠ .uninit → ℓ.state ≠ .uninit) →
      ∀ j, (σ.life j).state ≠ .uninit → (Function.update σ.life i ℓ j).state ≠ .uninit :=
    fun kept => forall_update (p := fun j ℓ => (σ.life j).state ≠ .uninit → ℓ.state ≠ .uninit) (fun _ => id) kept
  cases l with
  | same => exact fun _ => id
  | relength => exact one id
  | stop => exact one Linked.uninit_stop.2
  | configure | renew | dispatch => exact one fun _ => TaskState.noConfusion
  | stamp => exact one fun _ => starts _ _ rfl
  | settle => exact one Linked.uninit_settle.2
  | dismiss which => rcases which with rfl | rfl <;> cases keeps

/-! ## The roster -/

/-- What the act makes of the roster. A configuration that finds its slot not configured is never refused. -/
def Scheduler.enlist (σ : Scheduler) (roster : List Nat) : Act → List Nat
  | .locked (.configure i ..) => if (σ.life i).state = .uninit then roster ++ [i] else roster
  | .locked .beginSession | .locked .endSession => []
  | _ => roster

theorem Scheduler.enlist_of_plain {σ : Scheduler} {roster : List Nat} {act : Act} (plain : act.configures = false)
    (keeps : act.resets = false) : σ.enlist roster act = roster := by
  cases act with
  | locked s => cases s <;> first | cases plain; done | cases keeps; done | rfl
  | _ => rfl

/-- The roster after the topmost act of the device. -/
def View.enlist (v : View) (roster : List Nat) : List Nat :=
  match v.acts with
  | act :: _ => v.scheduler.enlist roster act
  | [] => roster

/-- The queue holds just the slots of the roster. -/
structure Enrolled (σ : Scheduler) (acts : List Act) (roster : List Nat) : Prop where
  holds : σ.queue.Holds σ.arena.link roster
  /-- No slot that is not on the roster leads anywhere. -/
  loose : ∀ i, i < σ.arena.size → i ∉ roster → σ.arena.link i = some none
  declared : ∀ i ∈ roster, i < σ.declared
  configured : ∀ i ∈ roster, (σ.life i).state ≠ .uninit
  /-- Only tasks that were handed out are about to be configured. -/
  asked : ∀ i handler ms repeats, .locked (.configure i handler ms repeats) ∈ acts → i < σ.declared

namespace Enrolled

variable {σ σ' : Scheduler} {act : Act} {acts rest : List Act} {roster : List Nat}

theorem fresh (capacity : Nat) : Enrolled (.fresh capacity) [] [] := by
  refine ⟨Queue.holds_empty _, fun i bound _ => ?_, by simp, by simp, by simp⟩
  have bound : i < capacity := by simpa [Scheduler.fresh, Arena.fresh] using bound
  simp [Scheduler.fresh, Arena.fresh, Arena.link, bound, Task.fresh]

/-- Acts that configure nothing come and go. -/
theorem replace (h : Enrolled σ acts roster) {acts' : List Act}
    (asked : ∀ i handler ms repeats, .locked (.configure i handler ms repeats) ∈ acts' →
      .locked (.configure i handler ms repeats) ∈ acts) : Enrolled σ acts' roster :=
  ⟨h.holds, h.loose, h.declared, h.configured, fun i _ _ _ m => h.asked i _ _ _ (asked _ _ _ _ m)⟩

/-- A step that leaves the links alone and keeps configured what is configured. -/
theorem step (h : Enrolled σ (act :: rest) roster) (queue : σ'.queue = σ.queue)
    (link : σ'.arena.link = σ.arena.link) (size : σ'.arena.size = σ.arena.size) (declared : σ.declared ≤ σ'.declared)
    (configured : ∀ i, (σ.life i).state ≠ .uninit → (σ'.life i).state ≠ .uninit)
    (new : ∀ i handler ms repeats, .locked (.configure i handler ms repeats) ∈ acts → i < σ.declared) :
    Enrolled σ' (acts ++ rest) roster := by
  refine ⟨queue ▸ link ▸ h.holds, fun i bound out => ?_, fun i m => Nat.lt_of_lt_of_le (h.declared i m) declared,
    fun i m => configured i (h.configured i m), fun i handler ms repeats m => Nat.lt_of_lt_of_le ?_ declared⟩
  · rw [link]
    exact h.loose i (size ▸ bound) out
  · exact (List.mem_append.1 m).elim (new _ _ _ _) fun m => h.asked _ _ _ _ (List.mem_cons_of_mem _ m)

/-- The first configuration of a slot puts it at the end; another one leaves the roster as it is. -/
theorem configure {i handler : Nat} {ms : UInt32} {repeats : Bool}
    (h : Enrolled σ (.locked (.configure i handler ms repeats) :: rest) roster)
    (conf : σ.configure i handler ms repeats = .ok (.ok σ')) :
    Enrolled σ' rest (σ.enlist roster (.locked (.configure i handler ms repeats))) := by
  have c := Scheduler.configured conf
  obtain ⟨declared, size, link⟩ := Scheduler.configure_links conf h.holds
  have here : i < σ.declared := h.asked _ _ _ _ List.mem_cons_self
  have asked : ∀ j handler ms repeats, .locked (.configure j handler ms repeats) ∈ rest → j < σ'.declared :=
    fun j _ _ _ m => declared ▸ h.asked j _ _ _ (List.mem_cons_of_mem _ m)
  have now : (σ'.life i).state ≠ .uninit := by
    rw [c.life, Function.update_self]
    exact TaskState.noConfusion
  have kept : ∀ j, (σ.life j).state ≠ .uninit → (σ'.life j).state ≠ .uninit := by
    rw [c.life]
    exact forall_update (p := fun j ℓ => (σ.life j).state ≠ .uninit → ℓ.state ≠ .uninit) (fun _ => id)
      fun _ => TaskState.noConfusion
  by_cases first : (σ.life i).state = .uninit
  · have out : i ∉ roster := fun m => h.configured i m first
    rw [Scheduler.enlist, if_pos first]
    refine ⟨c.holds_first roster h.holds first out, fun j bound away => ?_, fun j m => ?_, fun j m => ?_, asked⟩
    · simp only [List.mem_append, List.mem_singleton, not_or] at away
      rw [link j away.1 fun _ => away.2]
      exact h.loose j (size ▸ bound) away.1
    · rw [declared]
      rcases List.mem_append.1 m with m | m
      · exact h.declared j m
      · exact List.mem_singleton.1 m ▸ here
    · rcases List.mem_append.1 m with m | m
      · exact kept j (h.configured j m)
      · exact List.mem_singleton.1 m ▸ now
  · rw [Scheduler.enlist, if_neg first]
    refine ⟨c.holds_again roster h.holds first, fun j bound away => ?_, fun j m => declared ▸ h.declared j m,
      fun j m => kept j (h.configured j m), asked⟩
    rw [link j away fun again => absurd again first]
    exact h.loose j (size ▸ bound) away

/-- Either end of a session strikes all names. -/
theorem dismissed (h : Enrolled σ (act :: rest) roster) (d : Scheduler.Dismissed σ σ') (declared : σ'.declared = σ.declared)
    (size : σ'.arena.size = σ.arena.size)
    (link : ∀ j, σ'.arena.link j = if j ∈ roster then (σ.arena.link j).map fun _ => none else σ.arena.link j) :
    Enrolled σ' rest [] := by
  refine ⟨?_, fun i bound _ => ?_, by simp, by simp,
    fun i _ _ _ m => declared ▸ h.asked i _ _ _ (List.mem_cons_of_mem _ m)⟩
  · rw [d.queue]
    exact Queue.holds_empty _
  · rw [size] at bound
    rw [link i]
    split
    · obtain ⟨next, found⟩ := Option.isSome_iff_exists.1 (Arena.link_isSome bound)
      rw [found]
      rfl
    · rename_i out
      exact h.loose i bound out

end Enrolled

open Scheduler in
/-- Every step keeps the queue what the roster says. -/
theorem Leads.enlisted {w : World} {δ : Device} {act : Act} {s : Stride} {rest : List Act} {roster : List Nat}
    (l : Leads w δ act s) (h : Enrolled δ.scheduler (act :: rest) roster) (sound : Sound δ.scheduler (act :: rest)) :
    Enrolled s.scheduler (s.frames ++ rest) (δ.scheduler.enlist roster act) := by
  -- The three steps that change links come first.
  by_cases configures : act.configures = true
  · cases l with
    | configured conf => exact (h.configure conf).replace (by simp [Stride.frames])
    | @refused s _ _ _ busy =>
      cases s with
      | configure i handler ms repeats =>
        have running := busy _ _ _ _ rfl
        have configured : (δ.scheduler.life i).state ≠ .uninit := fun u => by
          rw [u] at running
          cases running
        rw [enlist, if_neg configured]
        refine h.replace fun _ _ _ _ m => List.mem_cons_of_mem _ ?_
        simpa [Stride.frames] using m
      | _ => cases configures
    | _ => cases configures
  by_cases resets : act.resets = true
  · cases l with
    | begun b =>
      obtain ⟨d, -, declared⟩ := beginSession_dismissed b
      obtain ⟨size, link⟩ := beginSession_links b h.holds
      have left := h.dismissed d declared size link
      exact ⟨left.holds, left.loose, left.declared, left.configured, by simpa [Stride.frames] using left.asked⟩
    | ended e =>
      obtain ⟨d, -, declared⟩ := endSession_dismissed e
      obtain ⟨size, link⟩ := endSession_links e h.holds
      exact (h.dismissed d declared size link).replace (by simp [Stride.frames])
    | refused r => cases ‹Section› <;> first | cases r; done | cases resets
    | _ => cases resets
  have plain : act.configures = false := by simpa using configures
  have keeps : act.resets = false := by simpa using resets
  obtain ⟨queue, link, size⟩ := l.links plain keeps
  rw [enlist_of_plain plain keeps]
  refine h.step queue link size l.declared_le (l.lives.configured keeps fun i next same => ?_) ?_
  · subst same
    obtain ⟨below, above⟩ := sound.layered.1
    by_cases m : Act.settle i ∈ rest
    · rw [below m]; exact TaskState.noConfusion
    · rw [above m]; exact TaskState.noConfusion
  · intro i handler ms repeats m
    cases l with
    | ask ask =>
      cases ask with
      | configure ref known =>
        simp only [Stride.frames, List.mem_cons, Act.locked.injEq, Section.configure.injEq] at m
        rcases m with m | m | m
        · cases m
        · exact m.1 ▸ known
        · cases m
      | _ => simp [Stride.frames] at m
    | _ => simp [Stride.frames] at m

namespace View

variable {v v' : View} {roster : List Nat}

/-- The queue of the device holds just the slots of the roster. -/
def Enrolled (v : View) (roster : List Nat) : Prop := TimedTasks.Enrolled v.scheduler v.acts roster

theorem Fresh.enrolled (h : v.Fresh) : v.Enrolled [] := by
  obtain ⟨capacity, fresh⟩ := h.scheduler
  rw [Enrolled, fresh, h.acts]
  exact .fresh capacity

theorem Enrolled.turn (h : v.Enrolled roster) (sound : v.Sound) (t : Turn v v') : v'.Enrolled (v.enlist roster) := by
  cases t with
  | works acts l =>
    rw [Enrolled, acts] at h
    rw [Sound, acts] at sound
    simpa [Enrolled, take, scheduler, enlist, acts] using l.enlisted h sound
  | @delivers _ act _ _ rest acts l =>
    rw [Enrolled, acts] at h
    have below : TimedTasks.Enrolled v.scheduler (act :: rest) roster := h.replace fun _ _ _ _ => List.mem_cons_of_mem _
    simp only [enlist, acts, Scheduler.enlist]
    cases l <;> exact below.step rfl rfl rfl (Nat.le_refl _) (fun _ => id) (by simp [Stride.frames])

theorem Enrolled.shift (h : v.Enrolled roster) (t : Shift v v') : v'.Enrolled roster := by
  cases t with
  | drops acts _ =>
    rw [Enrolled, acts] at h
    exact h.replace fun _ _ _ _ => List.mem_cons_of_mem _
  | arrives self op => exact h.replace (by simp)

theorem enlist_of_quiet (h : ∀ act ∈ v.acts.head?, act.works = false) : v.enlist roster = roster := by
  unfold enlist
  split
  · rename_i act rest acts
    have idle := h act (by simp [acts])
    refine Scheduler.enlist_of_plain ?_ ?_
    · cases act <;> first | rfl | cases idle
    · cases act <;> first | rfl | cases idle
  · rfl

end View

/-! ## Sessions inside a start -/

namespace Act

/-- The act is what a call that begins a session, or one that runs and ends it, has come to. -/
def inSession : Act → Bool
  | opening | running | closing _ | locked .beginSession | locked .endSession | locked (.sessionOver _) => true
  | _ => false

/-- A start or an update of a task reads the clock. -/
def starts : Act → Bool
  | reading (.start ..) => true
  | _ => false

end Act

/-- No session begins, runs or ends inside the clock reading of a start. -/
def View.Apart (v : View) : Prop := v.acts.Pairwise fun above below => below.starts → above.inSession = false

instance (v : View) : Decidable v.Apart := inferInstanceAs (Decidable (List.Pairwise _ _))

theorem View.Apart.unstamping {v : View} (h : v.Apart) (sound : v.Sound) : Unstamping v.acts := by
  intro act top resets b m
  obtain ⟨rest, acts⟩ : ∃ rest, v.acts = act :: rest := by
    cases acts : v.acts with
    | nil => rw [acts] at top; cases top
    | cons a rest =>
      rw [acts] at top
      cases top
      exact ⟨rest, rfl⟩
  rw [Apart, acts] at h
  rw [Sound, acts] at sound
  rw [acts] at m
  have inSession : act.inSession = true := by
    cases act with
    | locked s => cases s <;> first | rfl | cases resets
    | _ => cases resets
  have noRound : Act.round ∉ rest := by
    have rests := sound.layered.1
    cases act with
    | locked s => cases s <;> first | exact rests | cases resets
    | _ => cases resets
  cases stamps : b.stamps with
  | none => rfl
  | some i =>
    exfalso
    cases b with
    | reading r =>
      cases r with
      | start j next =>
        have free := (List.pairwise_cons.1 h).1 _ m rfl
        rw [inSession] at free
        cases free
      | renew j => exact noRound (sound.column.tail.round_of_renew m)
      | _ => cases stamps
    | _ => cases stamps

/-! ## The queue is the roster -/

/-- What a scheduler shows of a roster that its queue holds. -/
structure View.Rostered (v : View) (roster : List Nat) : Prop where
  /-- A walk along the links ends, and finds just the roster. -/
  queued : v.scheduler.queued = .ok roster
  chain : Chain v.scheduler.arena.link v.scheduler.queue.head roster
  nodup : roster.Nodup
  head : v.scheduler.queue.head = roster.head?
  tail : v.scheduler.queue.tail = roster.getLast?
  last : ∀ i ∈ roster.getLast?, v.scheduler.arena.link i = some none
  members : ∀ i ∈ roster, i < v.scheduler.declared ∧ (v.scheduler.life i).state ≠ .uninit
  loose : ∀ i, i < v.scheduler.capacity → i ∉ roster → v.scheduler.arena.link i = some none

namespace Chain

variable {link : Nat → Option (Option Nat)} {c : Option Nat} {l : List Nat}

theorem eq_head? (h : Chain link c l) : c = l.head? := by
  cases l with
  | nil => exact h
  | cons i l => exact h.1

theorem link_getLast (h : Chain link c l) : ∀ i ∈ l.getLast?, link i = some none := by
  induction l generalizing c with
  | nil => simp
  | cons j l ih =>
    obtain ⟨-, next, found, h⟩ := h
    intro i last
    cases l with
    | nil =>
      simp only [List.getLast?_singleton, Option.mem_some_iff] at last
      subst last
      rw [found, show next = none from h]
    | cons k l => exact ih h i (by simpa using last)

end Chain

theorem View.Enrolled.rostered {v : View} {roster : List Nat} (h : v.Enrolled roster) : v.Rostered roster where
  queued := Queue.members_of_holds h.holds
  chain := h.holds.chain
  nodup := h.holds.nodup
  head := h.holds.chain.eq_head?
  tail := h.holds.tail
  last := h.holds.chain.link_getLast
  members i m := ⟨h.declared i m, h.configured i m⟩
  loose := h.loose

namespace Moment

variable {P : Moment → Prop} {s : Setup} {y : Moment} {d : Nat} {v : View} {roster : List Nat}

theorem enrolled (t : Traced P (recording d View.enlist) [] (initial s) y roster) (h : y.view d = some v) :
    v.Enrolled roster :=
  (view_of_traced (I := fun u roster => u.Sound ∧ u.Enrolled roster) t (fun _ _ _ _ => trivial)
    (fun _ _ => View.enlist_of_quiet) (fun _ f => ⟨f.sound, f.enrolled⟩)
    (fun _ _ _ h (_ : True) t => ⟨h.1.turn t, h.2.turn h.1 t⟩) (fun _ _ _ h t => ⟨h.1.shift t, h.2.shift t⟩) h).2

/-- In every run, whatever handlers and interrupts call, the links lead through just the roster of the scheduler: from
its first slot, which is the head, to its last, which is the tail, each of them configured and on the way once. If no
session begins, runs or ends inside the clock reading of a start, all tasks that are configured are on the roster. -/
theorem queue_refines_roster (t : Traced P (recording d View.enlist) [] (initial s) y roster) (h : y.view d = some v) :
    v.Rostered roster ∧ ((∀ z u, P z → z.view d = some u → u.Apart) →
      ∀ i, i ∈ roster ↔ (v.scheduler.life i).state ≠ .uninit) := by
  have enrolled := enrolled t h
  have known : ∀ z, Run P (initial s) z → ∀ u, z.view d = some u → u.Sound := fun z r u hu => sound r hu
  refine ⟨enrolled.rostered, fun apart i => ?_⟩
  have linked : v.Linked := by
    refine view_of_run (Q := fun u => u.Sound ∧ Unstamping u.acts) (t.run.also known) (fun z u p hu => ?_)
      (fun _ => View.Fresh.linked) (fun _ _ h q t _ => h.turn q.1 q.2 t) (fun _ _ h t => h.shift t) h
    exact ⟨p.2 u hu, (apart z u p.1 hu).unstamping (p.2 u hu)⟩
  obtain ⟨l, holds, mem⟩ := linked.queue
  cases (Queue.members_of_holds holds).symm.trans enrolled.rostered.queued
  exact mem i

/-- Two slots; an interrupt of a start configures the second one, and the first one is configured twice. -/
theorem queue_refines_roster_of_interrupt : ∃ (y : Moment) (v : View),
    Traced (fun z => ∀ u ∈ z.view 0, u.Apart) (recording 0 View.enlist) []
      (initial ⟨[⟨2, 0, [], []⟩], false, [], [[]], 5, false⟩) y [0, 1] ∧ y.view 0 = some v ∧ v.Rostered [0, 1] ∧
    ∀ i, i ∈ [0, 1] ↔ (v.scheduler.life i).state ≠ .uninit := by
  obtain ⟨y, v, r, h, queued⟩ := exists_of_walk (initial ⟨[⟨2, 0, [], []⟩], false, [], [[]], 5, false⟩)
    [(0, .declare), (0, .declare), (0, .init), (0, .configure (.slot 0) 0 10 true),
      (0, .hook .now 0 [.configure (.slot 1) 0 20 false]), (0, .start (.slot 0)), (0, .configure (.slot 0) 0 30 true)]
    44 0 (fun v => v.scheduler.queued = .ok [0, 1]) (P := fun z => ∀ u ∈ z.view 0, u.Apart) (by decide +kernel)
  obtain ⟨roster, t⟩ := r.traced (recording 0 View.enlist) []
  obtain ⟨rostered, all⟩ := queue_refines_roster t h
  cases rostered.queued.symm.trans (of_decide_eq_true queued)
  exact ⟨y, v, t, h, rostered, all fun z u p => p u⟩

end Moment

end TimedTasks
