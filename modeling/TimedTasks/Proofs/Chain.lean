import Mathlib.Data.List.Nodup
import Mathlib.Data.List.Perm.Subperm
import TimedTasks.Proofs.Life

/-!
# The chain of configured tasks

`Queue.Holds` says that the links of the slots lead through just the slots of a list, each of them once. Walking the
queue finds that list (`Queue.members_of_holds`), pushing a slot puts it at the end, and a dismissal leaves nothing. The
pieces of an operation that change links are the first configuration of a task and the two ends of a session; their
lemmas stand here.
-/

namespace TimedTasks

/-- The links lead from `c` through just the slots of the list, in its order. -/
def Chain (link : Nat → Option (Option Nat)) : Option Nat → List Nat → Prop
  | c, [] => c = none
  | c, i :: l => c = some i ∧ ∃ next, link i = some next ∧ Chain link next l

namespace Chain

variable {link link' : Nat → Option (Option Nat)} {c : Option Nat} {l : List Nat}

/-- Every slot of a chain has a link. -/
theorem link_isSome (h : Chain link c l) : ∀ i ∈ l, (link i).isSome := by
  induction l generalizing c with
  | nil => simp
  | cons i l ih =>
    obtain ⟨-, next, e, h⟩ := h
    intro j hj
    rcases List.mem_cons.1 hj with rfl | hj
    · simp [e]
    · exact ih h j hj

/-- A slot behind the last one: the last link now leads to it, and its own link leads nowhere. -/
theorem snoc {i last : Nat} (h : Chain link c l) (nodup : l.Nodup) (fresh : i ∉ l) (hl : l.getLast? = some last)
    (own : link' i = some none) (links : link' last = some (some i))
    (other : ∀ j, j ≠ i → j ≠ last → link' j = link j) : Chain link' c (l ++ [i]) := by
  induction l generalizing c with
  | nil => simp at hl
  | cons j l ih =>
    obtain ⟨rfl, next, e, h⟩ := h
    obtain ⟨hj, nodup⟩ := List.nodup_cons.1 nodup
    refine ⟨rfl, ?_⟩
    cases l with
    | nil =>
      simp only [List.getLast?_singleton, Option.some.injEq] at hl
      subst hl
      exact ⟨some i, links, rfl, none, own, rfl⟩
    | cons k l =>
      have hl' : (k :: l).getLast? = some last := by simpa using hl
      have notLast : j ≠ last := fun e => hj (e ▸ List.mem_of_getLast? hl')
      have notNew : j ≠ i := fun e => fresh (e ▸ List.mem_cons_self)
      exact ⟨next, by rw [other j notNew notLast]; exact e, ih h nodup (fun hi => fresh (List.mem_cons_of_mem _ hi)) hl'⟩

end Chain

namespace Queue

/-- The queue holds just the slots of a list, in its order. -/
structure Holds (q : Queue) (link : Nat → Option (Option Nat)) (l : List Nat) : Prop where
  chain : Chain link q.head l
  tail : q.tail = l.getLast?
  nodup : l.Nodup

theorem holds_empty (link : Nat → Option (Option Nat)) : Holds .empty link [] := ⟨rfl, rfl, List.nodup_nil⟩

variable {q q' : Queue} {a b : Arena} {l : List Nat}

/-- Only slots of the arena have links. -/
theorem lt_size_of_link {i : Nat} (h : (a.link i).isSome) : i < a.size := by
  unfold Arena.link at h
  by_contra hi
  rw [Array.getElem?_eq_none (by omega)] at h
  simp at h

/-- No queue is longer than its arena. -/
theorem Holds.length_le (h : q.Holds a.link l) : l.length ≤ a.size := by
  have sub : l ⊆ List.range a.size := fun i hi => List.mem_range.2 (lt_size_of_link (h.chain.link_isSome i hi))
  simpa using (List.subperm_of_subset h.nodup sub).length_le

/-- A walk along a chain finds just the chain, given enough steps. -/
theorem walk_of_chain {c : Option Nat} {bound : Nat} (h : Chain a.link c l) (le : l.length ≤ bound) :
    walk a bound c = .ok l := by
  induction l generalizing c bound with
  | nil =>
    cases h
    cases bound <;> rfl
  | cons i l ih =>
    obtain ⟨rfl, next, e, h⟩ := h
    cases bound with
    | zero => simp at le
    | succ bound =>
      obtain ⟨t, ht, rfl⟩ := Option.map_eq_some_iff.1 e
      have found : a.slot i = .ok t := Arena.slot_eq_ok_iff.2 ht
      rw [walk, found]
      show (walk a bound t.next >>= fun rest => .ok (i :: rest)) = _
      rw [ih h (by simpa using le)]
      rfl

/-- Walking the queue finds the list that it holds. -/
theorem members_of_holds (h : q.Holds a.link l) : q.members a = .ok l := walk_of_chain h.chain h.length_le

/-- Pushing a slot that the queue does not hold puts it at the end. -/
theorem push_holds {i : Nat} (h : q.Holds a.link l) (fresh : i ∉ l) (hp : q.push a i = .ok (q', b)) :
    q'.Holds b.link (l ++ [i]) := by
  have ht := h.tail
  unfold push at hp
  split at hp
  · cases hp
  · obtain ⟨a₁, h₁, hp⟩ := bind_eq_ok.1 hp
    have bound := (Arena.alter_eq_ok_iff.1 h₁).1
    have own : a₁.link i = some none := by simp [Arena.link, Arena.getElem?_alter h₁, bound]
    have other : ∀ j, j ≠ i → a₁.link j = a.link j := by
      intro j hj
      simp [Arena.link, Arena.getElem?_alter h₁, Ne.symm hj]
    split at hp
    · rename_i none_tail
      cases hp
      rw [ht, List.getLast?_eq_none_iff] at none_tail
      subst none_tail
      exact ⟨⟨rfl, none, own, rfl⟩, rfl, List.nodup_singleton _⟩
    · rename_i last some_tail
      obtain ⟨a₂, h₂, hp⟩ := bind_eq_ok.1 hp
      cases hp
      have hl : l.getLast? = some last := by rw [← ht, some_tail]
      have ne : i ≠ last := fun e => fresh (e ▸ List.mem_of_getLast? hl)
      have bound₂ := (Arena.alter_eq_ok_iff.1 h₂).1
      refine ⟨h.chain.snoc h.nodup fresh hl ?_ ?_ ?_, by simp, ?_⟩
      · rw [← own]; simp [Arena.link, Arena.getElem?_alter h₂, Ne.symm ne]
      · simp [Arena.link, Arena.getElem?_alter h₂, bound₂]
      · intro j hi hj
        rw [← other j hi]; simp [Arena.link, Arena.getElem?_alter h₂, Ne.symm hj]
      · rw [List.nodup_append]
        exact ⟨h.nodup, List.nodup_singleton _, fun j hj k hk e => fresh (List.mem_singleton.1 hk ▸ e ▸ hj)⟩

/-- Linking a slot behind the last one changes no life. -/
theorem push_same {i : Nat} (hp : q.push a i = .ok (q', b)) : b.life = a.life ∧ b.size = a.size := by
  unfold push at hp
  split at hp
  · cases hp
  · obtain ⟨a₁, h₁, hp⟩ := bind_eq_ok.1 hp
    split at hp
    · cases hp
      exact ⟨Arena.life_alter_of_same h₁ fun _ => rfl, Arena.size_alter h₁⟩
    · obtain ⟨a₂, h₂, hp⟩ := bind_eq_ok.1 hp
      cases hp
      exact ⟨(Arena.life_alter_of_same h₂ fun _ => rfl).trans (Arena.life_alter_of_same h₁ fun _ => rfl),
        (Arena.size_alter h₂).trans (Arena.size_alter h₁)⟩

end Queue

namespace Scheduler

variable {σ σ' : Scheduler} {i : Nat}

/-- What a configuration does. The first one links the slot, and then the queue holds it behind the others. -/
structure Configured (σ σ' : Scheduler) (i handler : Nat) (ms : UInt32) (repeats : Bool) : Prop where
  idle : (σ.life i).state.inHandler = false
  life : σ'.life = Function.update σ.life i ((σ.life i).configure handler ms repeats)
  cache : σ'.cache = σ.cache.forget i
  runState : σ'.runState = σ.runState
  inRound : σ'.inRound = σ.inRound
  holds_first : ∀ l, σ.queue.Holds σ.arena.link l → (σ.life i).state = .uninit → i ∉ l →
    σ'.queue.Holds σ'.arena.link (l ++ [i])
  holds_again : ∀ l, σ.queue.Holds σ.arena.link l → (σ.life i).state ≠ .uninit → σ'.queue.Holds σ'.arena.link l

/-- A configuration that is not refused does what `Configured` says, with the slot in the queue. -/
theorem configured {handler : Nat} {ms : UInt32} {repeats : Bool}
    (h : σ.configure i handler ms repeats = .ok (.ok σ')) : Configured σ σ' i handler ms repeats := by
  obtain ⟨t, ht, h⟩ := bind_eq_ok.1 h
  have life : σ.life i = t.life := Arena.life_of_slot ht
  split at h
  · cases h
  · rename_i idle
    have idle : (σ.life i).state.inHandler = false := by rw [life]; exact Bool.eq_false_iff.2 idle
    by_cases first : t.state = .uninit
    · simp only [first, if_true] at h
      obtain ⟨τ, hτ, h⟩ := bind_eq_ok.1 h
      obtain ⟨⟨q, a⟩, hp, hτ⟩ := bind_eq_ok.1 hτ
      cases hτ
      obtain ⟨υ, hυ, h⟩ := bind_eq_ok.1 h
      cases h
      have same : ({ σ with queue := q, arena := a } : Scheduler).life = σ.life := (Queue.push_same hp).1
      have c := alter_changes (·.configure handler ms repeats) hυ (fun _ => rfl) fun _ => rfl
      refine ⟨idle, by rw [← same]; exact c.life, congrArg (·.forget i) c.cache, c.runState, c.inRound, ?_, ?_⟩
      · intro l hl _ fresh
        have pushed := Queue.push_holds hl fresh hp
        exact c.queue ▸ c.link ▸ pushed
      · intro l _ again
        rw [life] at again
        exact absurd first again
    · simp only [first, if_false] at h
      obtain ⟨τ, hτ, h⟩ := bind_eq_ok.1 h
      cases hτ
      obtain ⟨υ, hυ, h⟩ := bind_eq_ok.1 h
      cases h
      have c := alter_changes (·.configure handler ms repeats) hυ (fun _ => rfl) fun _ => rfl
      refine ⟨idle, c.life, congrArg (·.forget i) c.cache, c.runState, c.inRound, ?_, ?_⟩
      · intro l _ new
        rw [life] at new
        exact absurd new first
      · intro l hl _
        exact c.queue ▸ c.link ▸ hl

/-- What either end of a session leaves: an empty queue, an empty cache, and no slot configured that was queued. -/
structure Dismissed (σ σ' : Scheduler) : Prop where
  life : ∃ l, σ.queued = .ok l ∧ ∀ j, σ'.life j = if j ∈ l then .blank else σ.life j
  queue : σ'.queue = .empty
  cache : σ'.cache = .empty
  inRound : σ'.inRound = σ.inRound

/-- A dismissal blanks the slots of the queue and no others. -/
theorem life_dismiss {q : Queue} {a b : Arena} {count : Nat} (h : q.dismiss a = .ok (count, b)) :
    ∃ l, q.members a = .ok l ∧ ∀ j, b.life j = if j ∈ l then .blank else a.life j := by
  obtain ⟨l, hl, h⟩ := bind_eq_ok.1 h
  obtain ⟨c, hc, h⟩ := bind_eq_ok.1 h
  cases h
  exact ⟨l, hl, fun j => Arena.life_alterAll_const hc (fun _ => rfl) j⟩

/-- A session begins with nothing configured; its run state is set elsewhere. -/
theorem beginSession_dismissed (h : σ.beginSession = .ok σ') :
    Dismissed σ σ' ∧ σ'.runState = σ.runState ∧ σ'.declared = σ.declared := by
  obtain ⟨⟨count, a⟩, hd, h⟩ := bind_eq_ok.1 h
  cases h
  exact ⟨⟨life_dismiss hd, rfl, rfl, rfl⟩, rfl, rfl⟩

/-- And ends so. -/
theorem endSession_dismissed {count : Nat} (h : σ.endSession = .ok (count, σ')) :
    Dismissed σ σ' ∧ σ'.runState = σ.runState ∧ σ'.declared = σ.declared := by
  obtain ⟨⟨count, a⟩, hd, h⟩ := bind_eq_ok.1 h
  obtain ⟨b, hb, h⟩ := bind_eq_ok.1 h
  cases h
  have same : b.life = a.life := Arena.life_alterAll_of_same hb Task.life_giveBack
  obtain ⟨l, hl, life⟩ := life_dismiss hd
  exact ⟨⟨⟨l, hl, fun j => (congrFun same j).trans (life j)⟩, rfl, rfl, rfl⟩, rfl, rfl⟩

end Scheduler

end TimedTasks
