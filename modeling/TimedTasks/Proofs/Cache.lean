import TimedTasks.Proofs.Life

/-!
# What the cache compares

The functions of the cache, and the scan of the queue, said of the lives of the slots. All of them compare the time that
tasks have left at one clock reading; what they find is the least of what they looked at.
-/

namespace TimedTasks

namespace Arena

/-- The time that the task of a slot has left at clock reading `now`. -/
def left (a : Arena) (now : UInt32) (i : Nat) : UInt32 := (a.life i).timing.remaining now

/-- The task of the slot waits for its interval to run out. -/
def Waits (a : Arena) (i : Nat) : Prop := (a.life i).state = .active

instance (a : Arena) (i : Nat) : Decidable (a.Waits i) := inferInstanceAs (Decidable (_ = _))

variable {a : Arena} {i j : Nat} {now : UInt32}

theorem expiresBefore_eq_ok {b : Bool} (h : a.expiresBefore i j now = .ok b) :
    b = true ↔ ((a.life j).state.armed → a.left now i < a.left now j) := by
  obtain ⟨other, ho, h⟩ := bind_eq_ok.1 h
  have lj : a.life j = other.life := life_of_slot ho
  split at h
  · rename_i armed
    obtain ⟨t, ht, h⟩ := bind_eq_ok.1 h
    cases h
    have li : a.life i = t.life := life_of_slot ht
    rw [decide_eq_true_iff, left, left, li, lj]
    exact ⟨fun h _ => h, fun h => h armed⟩
  · rename_i idle
    cases h
    rw [lj]
    exact iff_of_true rfl fun armed => absurd armed idle

theorem Waits.lt_size (h : a.Waits i) : i < a.size := by
  by_contra out
  rw [Waits, life, Array.getElem?_eq_none (Nat.le_of_not_lt out)] at h
  cases h

theorem Waits.armed (h : a.Waits i) : (a.life i).state.armed := by
  rw [Waits] at h
  rw [h]
  rfl

theorem waits_of_armed (armed : (a.life i).state.armed) (idle : (a.life i).state.inHandler = false) : a.Waits i := by
  show (a.life i).state = .active
  cases st : (a.life i).state <;> rw [st] at armed idle <;> first | rfl | cases armed; done | cases idle

end Arena

namespace DueCache

variable {c c' : DueCache} {a : Arena} {i : Nat} {now : UInt32}

/-! ## Taking note of a start -/

/-- Slot `late` is the later start that is kept when slot `i` was started: slot `i`, or the one that was kept before if
that has no more time left. -/
inductive Latest (c : DueCache) (a : Arena) (i : Nat) (now : UInt32) : Nat → Prop
  | new : (∀ j, c.latecomer = some j → j ≠ i → (a.life j).state.armed → a.left now i < a.left now j) →
      Latest c a i now i
  | old {j} : c.latecomer = some j → j ≠ i → (a.life j).state.armed → ¬a.left now i < a.left now j → Latest c a i now j

/-- What the cache makes of a start of slot `i`. -/
inductive Noted (c : DueCache) (a : Arena) (i : Nat) (now : UInt32) : DueCache → Prop
  | sooner {j} : c.soonest = some j → j ≠ i → (a.life j).state.armed → a.left now i < a.left now j →
      Noted c a i now { c with soonest := some i }
  | later {j} : c.soonest = some j → j ≠ i → (a.life j).state.armed → ¬a.left now i < a.left now j → Noted c a i now c
  | alone {late} : (∀ j, c.soonest = some j → j ≠ i → (a.life j).state.armed = false) → Latest c a i now late →
      Noted c a i now ⟨none, some late⟩

theorem lateWith_eq_ok {late : Nat} (h : c.lateWith a i now = .ok late) : Latest c a i now late := by
  unfold lateWith at h
  split at h
  · rename_i none
    cases h
    exact .new fun j some => by rw [none] at some; cases some
  · rename_i j some
    split at h
    · rename_i same
      cases h
      refine .new fun k some' other => absurd ?_ other
      rw [some] at some'
      cases some'
      exact same
    · rename_i other
      obtain ⟨b, hb, h⟩ := bind_eq_ok.1 h
      cases h
      have cmp := Arena.expiresBefore_eq_ok hb
      cases b with
      | true =>
        refine .new fun k some' _ armed => ?_
        rw [some] at some'
        cases some'
        exact cmp.1 rfl armed
      | false =>
        have not : ¬((a.life j).state.armed → a.left now i < a.left now j) := fun h => nomatch cmp.2 h
        rw [Classical.not_imp] at not
        exact .old some other not.1 not.2

theorem noteArmed_eq_ok (h : c.noteArmed a i now = .ok c') : Noted c a i now c' := by
  obtain ⟨rival, hr, h⟩ := bind_eq_ok.1 h
  unfold DueCache.rival at hr
  split at hr
  · rename_i none
    cases hr
    obtain ⟨late, hl, h⟩ := bind_eq_ok.1 h
    cases h
    exact .alone (fun j some => by rw [none] at some; cases some) (lateWith_eq_ok hl)
  · rename_i j some
    split at hr
    · rename_i same
      cases hr
      obtain ⟨late, hl, h⟩ := bind_eq_ok.1 h
      cases h
      refine .alone (fun k some' other => absurd ?_ other) (lateWith_eq_ok hl)
      rw [some] at some'
      cases some'
      exact same
    · rename_i other
      obtain ⟨t, ht, hr⟩ := bind_eq_ok.1 hr
      have life : a.life j = t.life := Arena.life_of_slot ht
      split at hr
      · rename_i armed
        cases hr
        obtain ⟨b, hb, h⟩ := bind_eq_ok.1 h
        cases h
        have cmp := Arena.expiresBefore_eq_ok hb
        have armed : (a.life j).state.armed := by rw [life]; exact armed
        cases b with
        | true => exact .sooner some other armed (cmp.1 rfl armed)
        | false => exact .later some other armed fun lt => nomatch cmp.2 fun _ => lt
      · rename_i idle
        cases hr
        obtain ⟨late, hl, h⟩ := bind_eq_ok.1 h
        cases h
        refine .alone (fun k some' _ => ?_) (lateWith_eq_ok hl)
        rw [some] at some'
        cases some'
        rw [life]
        exact Bool.eq_false_iff.2 idle

/-- After a start the cache knows no slot but the started one and those that it knew before. -/
theorem noteArmed_known (h : c.noteArmed a i now = .ok c') {k : Nat} (same : c'.soonest = some k ∨ c'.latecomer = some k) :
    k = i ∨ c.soonest = some k ∨ c.latecomer = some k := by
  cases noteArmed_eq_ok h with
  | sooner => exact same.elim (fun e => .inl (Option.some.inj e).symm) fun e => .inr (.inr e)
  | later => exact .inr same
  | alone _ latest =>
    rcases same with e | e
    · cases e
    · cases latest with
      | new => exact .inl (Option.some.inj e).symm
      | old late => exact .inr (.inr (late.trans e))

/-! ## Adopting the result of a scan -/

/-- The better of a chosen slot and a candidate. -/
inductive Better (a : Arena) (now : UInt32) (chosen candidate : Option Nat) : Option Nat → Prop
  | kept : (∀ i, candidate = some i → a.Waits i → chosen = some i ∨
      ∃ j, chosen = some j ∧ (a.life j).state.armed ∧ ¬a.left now i < a.left now j) →
      Better a now chosen candidate chosen
  | changed {k} : candidate = some k → a.Waits k →
      (∀ j, chosen = some j → (a.life j).state.armed → a.left now k < a.left now j) →
      Better a now chosen candidate (some k)

theorem better_eq_ok {chosen candidate r : Option Nat} (h : better a now chosen candidate = .ok r) :
    Better a now chosen candidate r := by
  unfold better at h
  split at h
  · cases h
    exact .kept fun i some => nomatch some
  · rename_i i
    split at h
    · rename_i same
      cases h
      exact .kept fun j some _ => by cases some; exact .inl same
    · obtain ⟨t, ht, h⟩ := bind_eq_ok.1 h
      have life : a.life i = t.life := Arena.life_of_slot ht
      split at h
      · rename_i active
        have waits : a.Waits i := by rw [Arena.Waits, life]; exact active
        cases chosen with
        | none =>
          cases h
          exact .changed rfl waits fun j some => nomatch some
        | some j =>
          obtain ⟨b, hb, h⟩ := bind_eq_ok.1 h
          cases h
          have cmp := Arena.expiresBefore_eq_ok hb
          cases b with
          | true => exact .changed rfl waits fun k some armed => by cases some; exact cmp.1 rfl armed
          | false =>
            have not : ¬((a.life j).state.armed → a.left now i < a.left now j) := fun h => nomatch cmp.2 h
            rw [Classical.not_imp] at not
            exact .kept fun k some _ => by cases some; exact .inr ⟨j, rfl, not⟩
      · rename_i idle
        cases h
        refine .kept fun k some waits => absurd ?_ idle
        cases some
        rw [Arena.Waits, life] at waits
        exact waits

/-- The better one of two is one of the two. -/
theorem Better.known {chosen candidate r : Option Nat} (h : Better a now chosen candidate r) {k : Nat} (same : r = some k) :
    chosen = some k ∨ candidate = some k := by
  cases h with
  | kept => exact .inl same
  | changed is => exact .inr (is.trans same)

/-- The slot that is adopted was the result of the scan, or is one that the cache knew. -/
theorem adopt_known {best : Option Nat} {left : Option UInt32} (h : c.adopt a best now = .ok (c', left)) {k : Nat}
    (same : c'.soonest = some k ∨ c'.latecomer = some k) : best = some k ∨ c.soonest = some k ∨ c.latecomer = some k := by
  obtain ⟨r₁, h₁, h⟩ := bind_eq_ok.1 h
  obtain ⟨r₂, h₂, h⟩ := bind_eq_ok.1 h
  cases r₂ with
  | none =>
    cases h
    rcases same with same | same <;> cases same
  | some j =>
    obtain ⟨t, -, h⟩ := bind_eq_ok.1 h
    cases h
    rcases same with same | same
    · cases same
      rcases (better_eq_ok h₂).known rfl with first | late
      · rcases (better_eq_ok h₁).known first with scanned | soon
        · exact .inl scanned
        · exact .inr (.inl soon)
      · exact .inr (.inr late)
    · cases same

/-- An adoption returns the time that the task which is remembered now has left. -/
theorem adopt_left {best : Option Nat} {left : Option UInt32} (h : c.adopt a best now = .ok (c', left)) :
    left = c'.soonest.map (a.left now) := by
  obtain ⟨r₁, -, h⟩ := bind_eq_ok.1 h
  obtain ⟨r₂, -, h⟩ := bind_eq_ok.1 h
  cases r₂ with
  | none => cases h; rfl
  | some k =>
    obtain ⟨t, slot, h⟩ := bind_eq_ok.1 h
    cases h
    rw [Option.map_some, Arena.left, Arena.life_of_slot slot]
    rfl

/-- What a waiting choice and a waiting candidate come to: a waiting slot with no more time left than either. -/
theorem Better.least {chosen candidate r : Option Nat} (h : Better a now chosen candidate r)
    (chosenWaits : ∀ j, chosen = some j → a.Waits j) :
    (∀ k, r = some k → a.Waits k) ∧
      ∀ i, (chosen = some i ∨ candidate = some i ∧ a.Waits i) → ∃ k, r = some k ∧ a.left now k ≤ a.left now i := by
  cases h with
  | kept best =>
    refine ⟨chosenWaits, fun i which => ?_⟩
    rcases which with is | ⟨is, waits⟩
    · exact ⟨i, is, UInt32.le_refl _⟩
    · rcases best i is waits with same | ⟨j, other, -, not⟩
      · exact ⟨i, same, UInt32.le_refl _⟩
      · exact ⟨j, other, UInt32.not_lt.1 not⟩
  | @changed k is waits best =>
    refine ⟨fun j e => by cases e; exact waits, fun i which => ?_⟩
    rcases which with old | ⟨new, -⟩
    · exact ⟨k, rfl, UInt32.le_of_lt (best i old (chosenWaits i old).armed)⟩
    · rw [is] at new
      cases new
      exact ⟨k, rfl, UInt32.le_refl _⟩

/-- The result of a scan that still waits is adopted, or a waiting task with less time left that the cache knows. -/
theorem adopt_eq_ok {best : Option Nat} {left : Option UInt32} (h : c.adopt a best now = .ok (c', left))
    (waits : ∀ b, best = some b → a.Waits b) :
    (c' = .empty ∧ left = none ∨ ∃ k, c' = ⟨some k, none⟩ ∧ left = some (a.left now k) ∧ a.Waits k) ∧
      ∀ i, (best = some i ∨ (c.soonest = some i ∨ c.latecomer = some i) ∧ a.Waits i) →
        ∃ k, c'.soonest = some k ∧ a.left now k ≤ a.left now i := by
  obtain ⟨r₁, h₁, h⟩ := bind_eq_ok.1 h
  obtain ⟨r₂, h₂, h⟩ := bind_eq_ok.1 h
  obtain ⟨waits₁, least₁⟩ := (better_eq_ok h₁).least waits
  obtain ⟨waits₂, least₂⟩ := (better_eq_ok h₂).least waits₁
  have least : ∀ i, (best = some i ∨ (c.soonest = some i ∨ c.latecomer = some i) ∧ a.Waits i) →
      ∃ k, r₂ = some k ∧ a.left now k ≤ a.left now i := by
    rintro i (is | ⟨is | is, wi⟩)
    · obtain ⟨j, hj, le⟩ := least₁ i (.inl is)
      obtain ⟨k, hk, le'⟩ := least₂ j (.inl hj)
      exact ⟨k, hk, UInt32.le_trans le' le⟩
    · obtain ⟨j, hj, le⟩ := least₁ i (.inr ⟨is, wi⟩)
      obtain ⟨k, hk, le'⟩ := least₂ j (.inl hj)
      exact ⟨k, hk, UInt32.le_trans le' le⟩
    · exact least₂ i (.inr ⟨is, wi⟩)
  cases r₂ with
  | none =>
    cases h
    refine ⟨.inl ⟨rfl, rfl⟩, fun i which => ?_⟩
    obtain ⟨k, hk, -⟩ := least i which
    cases hk
  | some k =>
    obtain ⟨t, ht, h⟩ := bind_eq_ok.1 h
    cases h
    have life : a.life k = t.life := Arena.life_of_slot ht
    refine ⟨.inr ⟨k, rfl, ?_, waits₂ k rfl⟩, least⟩
    rw [Arena.left, life]
    rfl

end DueCache

namespace Scheduler

/-! ## The scan -/

/-- The scan of a list finds a waiting slot with the least time left, unless no slot waits. -/
theorem soonestOf_eq_ok {a : Arena} {now : UInt32} {l : List Nat} {best r : Option (Nat × UInt32)}
    (h : soonestOf a now l best = .ok r) (ok : ∀ k m, best = some (k, m) → a.Waits k ∧ m = a.left now k) :
    (∀ k m, r = some (k, m) → a.Waits k ∧ m = a.left now k) ∧
      (∀ k m, best = some (k, m) → ∃ j n, r = some (j, n) ∧ n ≤ m) ∧
      ∀ i ∈ l, a.Waits i → ∃ j n, r = some (j, n) ∧ n ≤ a.left now i := by
  induction l generalizing best with
  | nil =>
    cases h
    exact ⟨ok, fun k m e => ⟨k, m, e, UInt32.le_refl _⟩, by simp⟩
  | cons i l ih =>
    obtain ⟨t, ht, h⟩ := bind_eq_ok.1 h
    have life : a.life i = t.life := Arena.life_of_slot ht
    have own : t.timing.remaining now = a.left now i := by rw [Arena.left, life]; rfl
    dsimp only at h
    split at h
    · rename_i active
      have waits : a.Waits i := by rw [Arena.Waits, life]; exact active
      rw [own] at h
      split at h
      · rename_i j least
        split at h
        · rename_i less
          obtain ⟨good, before, after⟩ := ih h fun k m e => by cases e; exact ⟨waits, rfl⟩
          obtain ⟨j', n, e, le⟩ := before _ _ rfl
          refine ⟨good, fun k m e' => ?_, fun k mk wk => ?_⟩
          · cases e'
            exact ⟨j', n, e, UInt32.le_trans le (UInt32.le_of_lt less)⟩
          · rcases List.mem_cons.1 mk with rfl | mk
            · exact ⟨j', n, e, le⟩
            · exact after k mk wk
        · rename_i notLess
          obtain ⟨good, before, after⟩ := ih h fun k m e => by cases e; exact ok _ _ rfl
          refine ⟨good, fun k m e' => by cases e'; exact before _ _ rfl, fun k mk wk => ?_⟩
          rcases List.mem_cons.1 mk with rfl | mk
          · obtain ⟨j', n, e, le⟩ := before _ _ rfl
            exact ⟨j', n, e, UInt32.le_trans le (UInt32.not_lt.1 notLess)⟩
          · exact after k mk wk
      · obtain ⟨good, before, after⟩ := ih h fun k m e => by cases e; exact ⟨waits, rfl⟩
        refine ⟨good, fun k m e' => (nomatch e'), fun k mk wk => ?_⟩
        rcases List.mem_cons.1 mk with rfl | mk
        · exact before _ _ rfl
        · exact after k mk wk
    · rename_i idle
      obtain ⟨good, before, after⟩ := ih h ok
      refine ⟨good, before, fun k mk wk => ?_⟩
      rcases List.mem_cons.1 mk with rfl | mk
      · rw [Arena.Waits, life] at wk
        exact absurd wk idle
      · exact after k mk wk

theorem scan_eq_ok {σ : Scheduler} {now : UInt32} {best : Option Nat} {l : List Nat} (h : σ.scan now = .ok best)
    (queued : σ.queued = .ok l) :
    (∀ b, best = some b → σ.arena.Waits b) ∧
      ∀ i ∈ l, σ.arena.Waits i → ∃ b, best = some b ∧ σ.arena.left now b ≤ σ.arena.left now i := by
  obtain ⟨l', hl, h⟩ := bind_eq_ok.1 h
  cases queued.symm.trans hl
  obtain ⟨r, hr, h⟩ := bind_eq_ok.1 h
  cases h
  obtain ⟨good, -, least⟩ := soonestOf_eq_ok hr fun k m e => nomatch e
  constructor
  · intro b e
    obtain ⟨⟨k, m⟩, hk, rfl⟩ := Option.map_eq_some_iff.1 e
    exact (good k m hk).1
  · intro i mi wi
    obtain ⟨j, n, hj, le⟩ := least i mi wi
    refine ⟨j, by rw [hj]; rfl, ?_⟩
    rw [← (good j n hj).2]
    exact le

end Scheduler

end TimedTasks
