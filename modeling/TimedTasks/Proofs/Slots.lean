import TimedTasks.Proofs.Roster

/-!
# What a step makes of a slot

`Proofs/Life` says what pieces of operations do to the lives of slots. What belongs to pools, the bytes and the links
lie outside of a life. `Becomes` lists, for each act, all that its step can make of a whole slot, and `Leads.slots` says
that the list is complete: no slot appears, none disappears, and each one becomes what the list allows.
-/

namespace TimedTasks

namespace Task

/-- A second reset finds nothing to do. -/
theorem unconfigure_unconfigure (t : Task) : t.unconfigure.unconfigure = t.unconfigure := by
  rcases t with ⟨state, timing, repeats, pooled, allocated, next, handler, payload⟩
  cases payload <;> rfl

/-- A slot that is back in its pool cannot be given back any further. -/
theorem giveBack_giveBack (t : Task) : t.giveBack.giveBack = t.giveBack := by
  rcases t with ⟨state, timing, repeats, pooled, allocated, next, handler, payload⟩
  cases pooled <;> rfl

/-- What the end of a session makes of a slot: it leaves the queue, if it is there, and goes back to its pool if it was
ever handed out. -/
def retire (t : Task) (queued declared : Bool) : Task :=
  let t := if queued then t.unconfigure else t
  if declared then t.giveBack else t

end Task

/-- What the step of an act at clock reading `now` can make of slot `i`. -/
inductive Becomes (ps : Pools) (σ : Scheduler) (now : UInt32) (i : Nat) : Act → Task → Task → Prop
  | same {act t} : Becomes ps σ now i act t t
  | relength {self task ms t} : task.resolve self = .ok i → i < σ.declared → t.state ≠ .uninit →
      Becomes ps σ now i (.perform self (.update task ms)) t (t.withLength (Interval.clamp ms t.repeats))
  | stop {self task t} : task.resolve self = .ok i → i < σ.declared →
      Becomes ps σ now i (.perform self (.stop task)) t t.stop
  | stamp {next t} : Becomes ps σ now i (.reading (.start i next)) t (t.start next now)
  | renew {t} : Becomes ps σ now i (.reading (.renew i)) t (t.start .executing now)
  | dispatch {t} : t.state = .active → t.repeats = false →
      Becomes ps σ now i (.dispatch i) t { t with state := .stopping }
  | settle {t} : Becomes ps σ now i (.settle i) t t.settle
  /-- A configuration may link the slot as well. -/
  | configure {handler ms repeats next t} : t.state.inHandler = false →
      Becomes ps σ now i (.locked (.configure i handler ms repeats)) t
        ({ t with next }.configure handler ms repeats)
  /-- Another slot is linked behind this one. -/
  | link {j handler ms repeats next t} : Becomes ps σ now i (.locked (.configure j handler ms repeats)) t { t with next }
  | attach {data bytes t} : t.state = .stopped → t.payload = .attached bytes →
      Becomes ps σ now i (.locked (.attach i data)) t { t with payload := .attached data }
  | copy {s data segment length t} : s = .attach i data ∨ s = .write i data → t.state = .stopped →
      t.payload = .copied segment length →
      Becomes ps σ now i (.locked s) t { t with payload := .copied segment (data.take segment.size).length }
  | handOut {left t} : Becomes ps σ now i (.locked (.claim i left)) t t.handOut
  | enroll {k p t} : ps[k]? = some p → p.first = none → σ.declared ≤ i → i < σ.declared + p.slots →
      Becomes ps σ now i (.locked (.enroll k)) t (t.enroll ⟨k, (i - σ.declared) * p.slotSize, p.slotSize⟩)
  | begin {l t} : σ.queued = .ok l →
      Becomes ps σ now i (.locked .beginSession) t (t.retire (i ∈ l) false)
  | finish {l t} : σ.queued = .ok l →
      Becomes ps σ now i (.locked .endSession) t (t.retire (i ∈ l) (i < σ.declared))

/-! ## Pieces of operations -/

section rel

variable {r r' r'' : Task → Task → Prop} {o o' o'' : Option Task}

theorem rel_map {f : Task → Task} (h : ∀ t, o = some t → r t (f t)) : Option.Rel r o (o.map f) := by
  cases o with
  | none => exact .none
  | some t => exact .some (h t rfl)

theorem rel_self (h : ∀ t, o = some t → r t t) : Option.Rel r o o := by
  cases o with
  | none => exact .none
  | some t => exact .some (h t rfl)

/-- Two changes one after the other make a change that both allow. -/
theorem rel_comp (h : Option.Rel r o o') (h' : Option.Rel r' o' o'') (both : ∀ t t' t'', o = some t → r t t' → r' t' t'' → r'' t t'') :
    Option.Rel r'' o o'' := by
  cases h with
  | none => cases h'; exact .none
  | some first => cases h' with | some second => exact .some (both _ _ _ rfl first second)

end rel

namespace Arena

variable {a b : Arena} {f : Task → Task} {i j : Nat}

/-- A change of one slot. -/
theorem rel_alter {r : Nat → Task → Task → Prop} (h : a.alter i f = .ok b)
    (here : ∀ t, a[i]? = some t → r i t (f t)) (other : ∀ j t, i ≠ j → r j t t) (j : Nat) :
    Option.Rel (r j) a[j]? b[j]? := by
  rw [getElem?_alter h]
  by_cases same : i = j
  · subst same
    rw [if_pos rfl]
    exact rel_map here
  · rw [if_neg same]
    exact rel_self fun t _ => other j t same

/-- A change that is the same whether it is made once or twice, of all slots of a list. -/
theorem getElem?_alterAll {l : List Nat} (h : a.alterAll f l = .ok b) (twice : ∀ t, f (f t) = f t) (j : Nat) :
    b[j]? = if j ∈ l then a[j]?.map f else a[j]? := by
  induction l generalizing a with
  | nil => cases h; simp
  | cons i rest ih =>
    obtain ⟨c, hc, hb⟩ := bind_eq_ok.1 h
    rw [ih hb, getElem?_alter hc]
    by_cases same : i = j
    · subst same
      simp [Option.map_map, Function.comp_def, twice]
    · simp [same, Ne.symm same]

/-- The slots of a pool lie one behind the other, each with its segment; no other slot is touched. -/
theorem getElem?_enrollSlots {k size first count : Nat} (h : Scheduler.enrollSlots a k size first count = .ok b)
    (j : Nat) : b[j]? = if first ≤ j ∧ j < first + count then a[j]?.map (·.enroll ⟨k, (j - first) * size, size⟩)
      else a[j]? := by
  induction count generalizing b with
  | zero =>
    cases h
    rw [if_neg (by omega)]
  | succ count ih =>
    obtain ⟨c, hc, hb⟩ := bind_eq_ok.1 h
    rw [getElem?_alter hb, ih hc]
    by_cases last : first + count = j
    · subst last
      rw [if_pos rfl, if_neg (by omega), if_pos (by omega)]
      simp
    · rw [if_neg last]
      by_cases inside : first ≤ j ∧ j < first + count
      · rw [if_pos inside, if_pos (by omega)]
      · rw [if_neg inside, if_neg (by omega)]

end Arena

/-- Linking a slot changes nothing but links. -/
theorem Queue.rel_push {q q' : Queue} {a b : Arena} {i : Nat} (h : q.push a i = .ok (q', b)) (j : Nat) :
    Option.Rel (fun t t' => ∃ next, t' = { t with next }) a[j]? b[j]? := by
  have kept : ∀ {i : Nat} (j : Nat) (t : Task), i ≠ j → ∃ next, t = { t with next } := fun _ t _ => ⟨t.next, rfl⟩
  unfold push at h
  split at h
  · cases h
  · obtain ⟨a₁, h₁, h⟩ := bind_eq_ok.1 h
    have first := Arena.rel_alter (r := fun _ t t' => ∃ next, t' = { t with next }) h₁ (fun t _ => ⟨none, rfl⟩) kept j
    split at h
    · cases h
      exact first
    · obtain ⟨a₂, h₂, h⟩ := bind_eq_ok.1 h
      cases h
      have second := Arena.rel_alter (r := fun _ t t' => ∃ next, t' = { t with next }) h₂ (fun t _ => ⟨some i, rfl⟩)
        kept j
      refine rel_comp first second fun t t' t'' _ ⟨next, first⟩ ⟨next', second⟩ => ⟨next', ?_⟩
      rw [second, first]

theorem Pools.pool_eq_ok {ps : Pools} {k : Nat} {p : Pool} (h : ps.pool k = .ok p) : ps[k]? = some p := by
  unfold pool at h
  split at h
  · rename_i q found
    cases h
    exact found
  · cases h

/-- What is copied into a segment is as much as fits, at the place of the segment. -/
theorem Pools.copy_eq_ok {ps ps' : Pools} {segment : Segment} {data : List UInt8} {kept : Nat}
    (h : ps.copy segment data = .ok (kept, ps')) : kept = (data.take segment.size).length ∧
      ∃ p q, ps[segment.pool]? = some p ∧ p.write? segment.offset (data.take segment.size) = some q ∧
        ps' = ps.setIfInBounds segment.pool q := by
  obtain ⟨p, hp, h⟩ := bind_eq_ok.1 h
  have found := pool_eq_ok hp
  split at h
  · rename_i q written
    cases h
    exact ⟨rfl, p, q, found, written, rfl⟩
  · cases h

namespace Scheduler

variable {σ σ' : Scheduler} {i : Nat}

/-- A change of one slot is one that is allowed there, when all others may stay. -/
theorem rel_alter {r : Nat → Task → Task → Prop} {f : Task → Task} (h : σ.alter i f = .ok σ')
    (here : ∀ t, σ.arena[i]? = some t → r i t (f t)) (other : ∀ j t, i ≠ j → r j t t) (j : Nat) :
    Option.Rel (r j) σ.arena[j]? σ'.arena[j]? := by
  obtain ⟨a, ha, rfl⟩ := alter_eq_ok h
  exact Arena.rel_alter ha here other j

/-- What a change of a task that was handed out does. -/
theorem lt_declared_of_stop (h : σ.stop i = .ok (.ok σ')) :
    i < σ.declared ∧ σ.alter i Task.stop = .ok σ' := by
  obtain ⟨found, hfound, h⟩ := bind_eq_ok.1 h
  cases found with
  | none => cases h
  | some t =>
    simp only at h
    split at h
    · cases h
    · obtain ⟨τ, hτ, h⟩ := bind_eq_ok.1 h
      cases h
      exact ⟨(lookup_eq_ok_some hfound).1, hτ⟩

/-- A new interval changes the length of a configured slot and nothing else. -/
theorem relength_alters {ms : UInt32} (h : σ.relength i ms = .ok (.ok σ')) :
    i < σ.declared ∧ (∃ t, σ.arena[i]? = some t ∧ t.state ≠ .uninit) ∧
      (σ.alter i fun t => t.withLength (Interval.clamp ms t.repeats)) = .ok σ' := by
  obtain ⟨found, hfound, h⟩ := bind_eq_ok.1 h
  cases found with
  | none => cases h
  | some t =>
    simp only at h
    split at h
    · cases h
    · rename_i configured
      obtain ⟨τ, hτ, h⟩ := bind_eq_ok.1 h
      cases h
      obtain ⟨bound, slot⟩ := lookup_eq_ok_some hfound
      exact ⟨bound, ⟨t, Arena.slot_eq_ok_iff.1 slot, configured⟩, hτ⟩

/-- What a configuration makes of the slots. -/
theorem configure_slots {handler : Nat} {ms : UInt32} {repeats : Bool} {ps : Pools} {now : UInt32}
    (h : σ.configure i handler ms repeats = .ok (.ok σ')) (j : Nat) :
    Option.Rel (Becomes ps σ now j (.locked (.configure i handler ms repeats))) σ.arena[j]? σ'.arena[j]? := by
  obtain ⟨t, ht, h⟩ := bind_eq_ok.1 h
  have found := Arena.slot_eq_ok_iff.1 ht
  split at h
  · cases h
  · rename_i idle
    have idle : t.state.inHandler = false := by simpa using idle
    -- The link may change first; the slot itself is configured on top of that.
    obtain ⟨τ, linked, hυ⟩ : ∃ τ : Scheduler, Option.Rel (fun t t' => ∃ next, t' = { t with next }) σ.arena[j]? τ.arena[j]? ∧
        ∃ υ, (τ.alter i fun t => t.configure handler ms repeats) = .ok υ ∧ σ'.arena = υ.arena := by
      by_cases first : t.state = .uninit
      · simp only [first, if_true] at h
        obtain ⟨τ, hτ, h⟩ := bind_eq_ok.1 h
        obtain ⟨⟨q, b⟩, hp, hτ⟩ := bind_eq_ok.1 hτ
        cases hτ
        obtain ⟨υ, hυ, h⟩ := bind_eq_ok.1 h
        cases h
        exact ⟨_, Queue.rel_push hp j, υ, hυ, rfl⟩
      · simp only [first, if_false] at h
        obtain ⟨τ, hτ, h⟩ := bind_eq_ok.1 h
        cases hτ
        obtain ⟨υ, hυ, h⟩ := bind_eq_ok.1 h
        cases h
        exact ⟨σ, rel_self fun t _ => ⟨t.next, rfl⟩, υ, hυ, rfl⟩
    obtain ⟨υ, hυ, same⟩ := hυ
    rw [same]
    have altered := rel_alter (r := fun j t t' => if i = j then t' = t.configure handler ms repeats else t' = t) hυ
      (fun t _ => by simp) (fun j t other => by simp [other]) j
    refine rel_comp linked altered fun u u' u'' hu ⟨next, link⟩ changed => ?_
    split at changed
    · rename_i here
      subst here
      cases found.symm.trans hu
      rw [changed, link]
      exact .configure idle
    · rw [changed, link]
      exact .link

/-- What a dismissal makes of the slots. -/
theorem getElem?_dismiss {q : Queue} {a b : Arena} {count : Nat} (h : q.dismiss a = .ok (count, b)) :
    ∃ l, q.members a = .ok l ∧ ∀ j : Nat, b[j]? = if j ∈ l then a[j]?.map Task.unconfigure else a[j]? := by
  obtain ⟨l, hl, h⟩ := bind_eq_ok.1 h
  obtain ⟨c, hc, h⟩ := bind_eq_ok.1 h
  cases h
  exact ⟨l, hl, Arena.getElem?_alterAll hc Task.unconfigure_unconfigure⟩

/-- A session begins with the queued slots reset. -/
theorem beginSession_slots (h : σ.beginSession = .ok σ') : ∃ l, σ.queued = .ok l ∧
    ∀ j : Nat, σ'.arena[j]? = σ.arena[j]?.map (·.retire (j ∈ l) false) := by
  obtain ⟨⟨count, a⟩, hd, h⟩ := bind_eq_ok.1 h
  cases h
  obtain ⟨l, hl, slots⟩ := getElem?_dismiss hd
  refine ⟨l, hl, fun j => (slots j).trans ?_⟩
  by_cases queued : j ∈ l <;> simp [queued, Task.retire]

/-- It ends with these reset, and with all that was handed out given back. -/
theorem endSession_slots {count : Nat} (h : σ.endSession = .ok (count, σ')) : ∃ l, σ.queued = .ok l ∧
    count = l.length ∧
    ∀ j : Nat, σ'.arena[j]? = σ.arena[j]?.map (·.retire (j ∈ l) (j < σ.declared)) := by
  obtain ⟨⟨count, a⟩, hd, h⟩ := bind_eq_ok.1 h
  obtain ⟨b, hb, h⟩ := bind_eq_ok.1 h
  cases h
  have counted : ∃ l, σ.queued = .ok l ∧ count = l.length ∧
      ∀ j : Nat, a[j]? = if j ∈ l then σ.arena[j]?.map Task.unconfigure else σ.arena[j]? := by
    obtain ⟨l, hl, hd⟩ := bind_eq_ok.1 hd
    obtain ⟨c, hc, hd⟩ := bind_eq_ok.1 hd
    cases hd
    exact ⟨l, hl, rfl, Arena.getElem?_alterAll hc Task.unconfigure_unconfigure⟩
  obtain ⟨l, hl, rfl, slots⟩ := counted
  refine ⟨l, hl, rfl, fun j => ?_⟩
  have given := Arena.getElem?_alterAll hb Task.giveBack_giveBack j
  simp only [List.mem_range, slots] at given
  rw [show ({ σ with arena := b, queue := .empty, cache := .empty } : Scheduler).arena[j]? = b[j]? from rfl, given]
  by_cases queued : j ∈ l <;> by_cases declared : j < σ.declared <;>
    simp [queued, declared, Task.retire, Option.map_map, Function.comp_def]

/-- What giving bytes to a stopped task makes of the slots. -/
theorem attach_slots {ps ps' : Pools} {data : List UInt8} {now : UInt32}
    (h : σ.attach ps i data = .ok (.ok (σ', ps'))) (j : Nat) :
    Option.Rel (Becomes ps σ now j (.locked (.attach i data))) σ.arena[j]? σ'.arena[j]? := by
  have other : ∀ (j : Nat) (t : Task), i ≠ j → Becomes ps σ now j (.locked (.attach i data)) t t := fun _ _ _ => .same
  obtain ⟨t, found, h⟩ := bind_eq_ok.1 h
  have found := Arena.slot_eq_ok_iff.1 found
  split at h
  · rename_i stopped
    split at h
    · rename_i bytes payload
      obtain ⟨τ, hτ, h⟩ := bind_eq_ok.1 h
      cases h
      refine rel_alter hτ (fun u hu => ?_) other j
      cases found.symm.trans hu
      exact .attach stopped payload
    · rename_i segment length payload
      obtain ⟨⟨kept, qs⟩, copied, h⟩ := bind_eq_ok.1 h
      obtain ⟨τ, hτ, h⟩ := bind_eq_ok.1 h
      cases h
      obtain ⟨rfl, -⟩ := Pools.copy_eq_ok copied
      refine rel_alter hτ (fun u hu => ?_) other j
      cases found.symm.trans hu
      exact .copy (.inl rfl) stopped payload
  · cases h

/-- A write leaves the slot with as many bytes as were kept. -/
theorem write_slots {ps ps' : Pools} {data : List UInt8} {kept : Nat} {now : UInt32}
    (h : σ.write ps i data = .ok (.ok (kept, σ', ps'))) (j : Nat) :
    Option.Rel (Becomes ps σ now j (.locked (.write i data))) σ.arena[j]? σ'.arena[j]? := by
  have other : ∀ (j : Nat) (t : Task), i ≠ j → Becomes ps σ now j (.locked (.write i data)) t t := fun _ _ _ => .same
  obtain ⟨t, found, h⟩ := bind_eq_ok.1 h
  have found := Arena.slot_eq_ok_iff.1 found
  split at h
  · rename_i stopped
    split at h
    · cases h
    · rename_i segment length payload
      obtain ⟨⟨kept, qs⟩, copied, h⟩ := bind_eq_ok.1 h
      obtain ⟨τ, hτ, h⟩ := bind_eq_ok.1 h
      cases h
      obtain ⟨rfl, -⟩ := Pools.copy_eq_ok copied
      refine rel_alter hτ (fun u hu => ?_) other j
      cases found.symm.trans hu
      exact .copy (.inr rfl) stopped payload
  · cases h

/-- Slots that are handed out are the next ones of the arena, if there are as many. -/
theorem takeSlots_slots {count first : Nat} (h : σ.takeSlots count = some (first, σ')) :
    first = σ.declared ∧ σ.declared + count ≤ σ.arena.size ∧ σ' = { σ with declared := σ.declared + count } := by
  unfold takeSlots at h
  split at h
  · rename_i room
    cases h
    exact ⟨rfl, room, rfl⟩
  · cases h

/-- The slots of a pool are reserved at most once, behind all that were handed out before. -/
theorem enrollPool_eq_ok {ps ps' : Pools} {k first : Nat} (h : σ.enrollPool ps k = .ok (some (first, σ', ps'))) :
    ∃ p, ps[k]? = some p ∧ ((p.first = some first ∧ σ' = σ ∧ ps' = ps) ∨
      p.first = none ∧ first = σ.declared ∧ σ.declared + p.slots ≤ σ.arena.size ∧
        (∃ a, enrollSlots σ.arena k p.slotSize σ.declared p.slots = .ok a ∧
          σ' = { σ with declared := σ.declared + p.slots, arena := a }) ∧
        ps' = ps.setIfInBounds k { p with first := some σ.declared }) := by
  obtain ⟨p, hp, h⟩ := bind_eq_ok.1 h
  have found := Pools.pool_eq_ok hp
  refine ⟨p, found, ?_⟩
  split at h
  · rename_i bound
    cases h
    exact .inl ⟨bound, rfl, rfl⟩
  · rename_i unbound
    split at h
    · cases h
    · rename_i taken
      obtain ⟨a, ha, h⟩ := bind_eq_ok.1 h
      cases h
      obtain ⟨rfl, room, rfl⟩ := takeSlots_slots taken
      exact .inr ⟨unbound, rfl, room, ⟨a, ha, rfl⟩, rfl⟩

/-- A pool that is bound makes slots of its own of the next ones. -/
theorem enrollPool_slots {ps ps' : Pools} {k first : Nat} {now : UInt32}
    (h : σ.enrollPool ps k = .ok (some (first, σ', ps'))) (j : Nat) :
    Option.Rel (Becomes ps σ now j (.locked (.enroll k))) σ.arena[j]? σ'.arena[j]? := by
  obtain ⟨p, found, ⟨-, rfl, -⟩ | ⟨unbound, -, -, ⟨a, ha, rfl⟩, -⟩⟩ := enrollPool_eq_ok h
  · exact rel_self fun _ _ => .same
  · show Option.Rel _ _ a[j]?
    rw [Arena.getElem?_enrollSlots ha]
    by_cases inside : σ.declared ≤ j ∧ j < σ.declared + p.slots
    · rw [if_pos inside]
      exact rel_map fun t _ => .enroll found unbound inside.1 inside.2
    · rw [if_neg inside]
      exact rel_self fun _ _ => .same

end Scheduler

open Scheduler in
/-- Every step makes of each slot what the list allows. -/
theorem Leads.slots {w : World} {δ : Device} {act : Act} {s : Stride} (l : Leads w δ act s) (i : Nat) :
    Option.Rel (Becomes w.pools δ.scheduler δ.board.clock i act) δ.scheduler.arena[i]? s.scheduler.arena[i]? := by
  have same : ∀ {σ : Scheduler}, σ.arena = δ.scheduler.arena →
      Option.Rel (Becomes w.pools δ.scheduler δ.board.clock i act) δ.scheduler.arena[i]? σ.arena[i]? := by
    intro σ e
    rw [e]
    exact rel_self fun _ _ => .same
  have other : ∀ {k : Nat} (j : Nat) (t : Task), k ≠ j → Becomes w.pools δ.scheduler δ.board.clock j act t t :=
    fun _ _ _ => .same
  cases l with
  | update ref re _ =>
    obtain ⟨bound, ⟨t, found, configured⟩, altered⟩ := relength_alters re
    refine rel_alter altered (fun u hu => ?_) other i
    cases found.symm.trans hu
    exact .relength ref bound configured
  | stop ref st =>
    obtain ⟨bound, altered⟩ := lt_declared_of_stop st
    exact rel_alter altered (fun t _ => .stop ref bound) other i
  | stamp st => exact rel_alter st (fun t _ => .stamp) other i
  | renew st => exact rel_alter st (fun t _ => .renew) other i
  | dispatched found active once st =>
    refine rel_alter st (fun u hu => ?_) other i
    cases (Arena.slot_eq_ok_iff.1 found).symm.trans hu
    exact .dispatch active once
  | settled st => exact rel_alter st (fun t _ => .settle) other i
  | configured conf => exact configure_slots conf i
  | attached a => exact attach_slots a i
  | written a => exact write_slots a i
  | claimed c => exact rel_alter c (fun t _ => .handOut) other i
  | enrolled e => exact enrollPool_slots e i
  | begun b =>
    obtain ⟨l, queued, slots⟩ := beginSession_slots b
    show Option.Rel _ _ _
    rw [slots i]
    exact rel_map fun t _ => .begin queued
  | ended e =>
    obtain ⟨l, queued, -, slots⟩ := endSession_slots e
    rw [slots i]
    exact rel_map fun t _ => .finish queued
  | noted n =>
    obtain ⟨cache, -, n⟩ := bind_eq_ok.1 n
    cases n
    exact same rfl
  | adopted a =>
    obtain ⟨⟨cache, left⟩, -, a⟩ := bind_eq_ok.1 a
    cases a
    exact same rfl
  | declared t =>
    obtain ⟨-, -, rfl⟩ := takeSlots_slots t
    exact same rfl
  | shutdown => exact same (by unfold Scheduler.shutdown; split <;> rfl)
  | _ => exact same rfl

end TimedTasks
