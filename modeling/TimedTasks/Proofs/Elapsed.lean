import Mathlib.Algebra.Group.Nat.Defs
import TimedTasks.Interval

/-!
# Intervals in true time

A clock shows the true time modulo `2 ^ 32`, and all that an interval says is computed from differences of two readings.
As long as the interval is younger than one turn of the clock these are differences of true times, wherever the wrap
falls: `Interval.toNat_elapsed`, `Interval.expired_iff` and `Interval.toNat_remaining`. So the time that is left falls
with the true time until nothing is left, and of two intervals the one that has less time left has no more of it at any
later reading (`Interval.measures_true_time`).
-/

namespace TimedTasks

namespace Interval

/-! ## Differences of readings -/

variable {t u : Interval} {stamp stamp' now later : Nat}

theorem toNat_elapsed (start : t.start = UInt32.ofNat stamp) (le : stamp ≤ now) (young : now < stamp + 2 ^ 32) :
    (t.elapsed (UInt32.ofNat now)).toNat = now - stamp := by
  rw [elapsed, start, UInt32.toNat_sub]
  have hn : (UInt32.ofNat now).toNat = now % 2 ^ 32 := by simp
  have hs : (UInt32.ofNat stamp).toNat = stamp % 2 ^ 32 := by simp
  rw [hn, hs]
  have rn : now % 2 ^ 32 < 2 ^ 32 := Nat.mod_lt _ (by decide)
  have rs : stamp % 2 ^ 32 < 2 ^ 32 := Nat.mod_lt _ (by decide)
  have en := Nat.div_add_mod now (2 ^ 32)
  have es := Nat.div_add_mod stamp (2 ^ 32)
  omega

/-- The time that is left until the interval is over, none afterwards. -/
theorem toNat_remaining (start : t.start = UInt32.ofNat stamp) (le : stamp ≤ now) (young : now < stamp + 2 ^ 32) :
    (t.remaining (UInt32.ofNat now)).toNat = stamp + t.length.toNat - now := by
  have age := toNat_elapsed start le young
  have bound := t.length.toNat_lt
  unfold remaining
  split
  · rename_i early
    rw [UInt32.lt_iff_toNat_lt, age] at early
    rw [UInt32.toNat_sub_of_le _ _ (by rw [UInt32.le_iff_toNat_le, age]; omega), age]
    omega
  · rename_i late
    rw [UInt32.lt_iff_toNat_lt, age] at late
    show 0 = _
    omega

theorem expired_iff (start : t.start = UInt32.ofNat stamp) (le : stamp ≤ now) (young : now < stamp + 2 ^ 32) :
    t.expired (UInt32.ofNat now) = true ↔ stamp + t.length.toNat ≤ now := by
  rw [expired, decide_eq_true_iff, UInt32.le_iff_toNat_le, toNat_elapsed start le young]
  omega

theorem remaining_eq_zero_iff (t : Interval) (now : UInt32) : t.remaining now = 0 ↔ t.expired now = true := by
  have diff := UInt32.toNat_sub_of_le t.length (t.elapsed now)
  rw [expired, decide_eq_true_iff, UInt32.le_iff_toNat_le, ← UInt32.toNat_inj, remaining]
  rw [UInt32.le_iff_toNat_le] at diff
  have zero : (0 : UInt32).toNat = 0 := rfl
  split
  · rename_i early
    rw [UInt32.lt_iff_toNat_lt] at early
    rw [diff (Nat.le_of_lt early)]
    omega
  · rename_i late
    rw [UInt32.lt_iff_toNat_lt] at late
    omega

/-- No more time is left than the interval lasts. -/
theorem remaining_le_length (t : Interval) (now : UInt32) : t.remaining now ≤ t.length := by
  unfold remaining
  split
  · rename_i early
    rw [UInt32.lt_iff_toNat_lt] at early
    rw [UInt32.le_iff_toNat_le, UInt32.toNat_sub_of_le _ _ (UInt32.le_iff_toNat_le.2 (Nat.le_of_lt early))]
    exact Nat.sub_le _ _
  · exact UInt32.zero_le

theorem expired_start_iff (t : Interval) : t.expired t.start = true ↔ t.length = 0 := by
  rw [expired, decide_eq_true_iff, elapsed, UInt32.sub_self]
  exact UInt32.le_zero_iff

/-! ## As time passes -/

/-- The time that is left falls as time passes, until nothing is left. -/
theorem remaining_falls (start : t.start = UInt32.ofNat stamp) (le : stamp ≤ now) (passes : now ≤ later)
    (young : later < stamp + 2 ^ 32) :
    (t.remaining (UInt32.ofNat later)).toNat + min (later - now) (t.remaining (UInt32.ofNat now)).toNat =
      (t.remaining (UInt32.ofNat now)).toNat := by
  have before := toNat_remaining start le (Nat.lt_of_le_of_lt passes young)
  have after := toNat_remaining start (Nat.le_trans le passes) young
  omega

/-- Of two intervals, the one that has less time left has no more of it later. -/
theorem remaining_le_later (start : t.start = UInt32.ofNat stamp) (start' : u.start = UInt32.ofNat stamp')
    (le : stamp ≤ now) (le' : stamp' ≤ now) (passes : now ≤ later) (young : later < stamp + 2 ^ 32)
    (young' : later < stamp' + 2 ^ 32) (less : t.remaining (UInt32.ofNat now) ≤ u.remaining (UInt32.ofNat now)) :
    t.remaining (UInt32.ofNat later) ≤ u.remaining (UInt32.ofNat later) := by
  rw [UInt32.le_iff_toNat_le] at less ⊢
  rw [toNat_remaining start le (Nat.lt_of_le_of_lt passes young),
    toNat_remaining start' le' (Nat.lt_of_le_of_lt passes young')] at less
  rw [toNat_remaining start (Nat.le_trans le passes) young, toNat_remaining start' (Nat.le_trans le' passes) young']
  omega

/-- An interval of `length` milliseconds that began at true time `stamp`. -/
def began (stamp : Nat) (length : UInt32) : Interval := ⟨.ofNat stamp, length⟩

/-- What an interval says at the clock reading of a true time at which it is younger than one turn of the clock: its age is
the time since its stamp, it is over just when its length has passed, and it has the rest of its length left, none just when
it is over. Up to any later time at which it is still as young, the time that is left falls by the time that passes, as far
as there is any, and no other interval that had at least as much of it, and is as young, comes to have less. -/
theorem measures_true_time (length : UInt32) (le : stamp ≤ now) (young : now - stamp < 2 ^ 32) :
    ((began stamp length).elapsed (.ofNat now)).toNat = now - stamp ∧
    ((began stamp length).expired (.ofNat now) = true ↔ stamp + length.toNat ≤ now) ∧
    ((began stamp length).remaining (.ofNat now)).toNat = stamp + length.toNat - now ∧
    ((began stamp length).expired (.ofNat now) = true ↔ (began stamp length).remaining (.ofNat now) = 0) ∧
    ∀ later, now ≤ later → later - stamp < 2 ^ 32 →
      ((began stamp length).remaining (.ofNat later)).toNat +
          min (later - now) ((began stamp length).remaining (.ofNat now)).toNat =
        ((began stamp length).remaining (.ofNat now)).toNat ∧
      ∀ stamp' length', stamp' ≤ now → later - stamp' < 2 ^ 32 →
        (began stamp length).remaining (.ofNat now) ≤ (began stamp' length').remaining (.ofNat now) →
        (began stamp length).remaining (.ofNat later) ≤ (began stamp' length').remaining (.ofNat later) := by
  have young : now < stamp + 2 ^ 32 := by omega
  refine ⟨toNat_elapsed rfl le young, expired_iff rfl le young, toNat_remaining rfl le young,
    (remaining_eq_zero_iff _ _).symm, fun later passes youngLater => ⟨?_, ?_⟩⟩
  · exact remaining_falls rfl le passes (by omega)
  · intro stamp' length' le' youngLater' less
    exact remaining_le_later rfl rfl le le' passes (by omega) (by omega) less

/-- Two intervals that began before and after the clock wrapped, 201 and 50 milliseconds ago, and what is left of them
another 400 milliseconds later. -/
theorem measures_true_time_over_wrap :
    ((began (2 ^ 32 - 101) 1000).elapsed 100).toNat = 201 ∧ (began (2 ^ 32 - 101) 1000).expired 100 = false ∧
    ((began (2 ^ 32 - 101) 1000).remaining 100).toNat = 799 ∧
    ((began (2 ^ 32 - 101) 1000).remaining 500).toNat + 400 = 799 ∧
    (began (2 ^ 32 - 101) 1000).remaining 500 ≤ (began (2 ^ 32 + 50) 900).remaining 500 := by
  have wraps : UInt32.ofNat (2 ^ 32 + 100) = 100 ∧ UInt32.ofNat (2 ^ 32 + 500) = 500 := by decide
  obtain ⟨age, expired, left, -, passes⟩ :=
    measures_true_time 1000 (show 2 ^ 32 - 101 ≤ 2 ^ 32 + 100 by decide) (by decide)
  obtain ⟨falls, order⟩ := passes (2 ^ 32 + 500) (by decide) (by decide)
  have less := order (2 ^ 32 + 50) 900 (by decide) (by decide) (by decide)
  rw [wraps.1] at age expired left falls
  rw [wraps.2] at falls less
  rw [left] at falls
  exact ⟨age, Bool.eq_false_iff.2 fun isOver => absurd (expired.1 isOver) (by decide), left, falls, less⟩

/-- After a whole turn of the clock an interval looks as if it had just begun. -/
example : (began 7 1000).remaining (.ofNat (7 + 2 ^ 32)) = 1000 := by decide

/-! ## Lengths -/

theorem toNat_longest : longest.toNat = 604800000 := rfl

theorem toNat_clamp (ms : UInt32) (repeats : Bool) :
    (clamp ms repeats).toNat = max (min ms.toNat longest.toNat) (if repeats then 1 else 0) := by
  have capped : (if longest < ms then longest else ms).toNat = min ms.toNat longest.toNat := by
    split <;> (rename_i h; rw [UInt32.lt_iff_toNat_lt] at h; omega)
  unfold clamp
  dsimp only
  rw [← capped]
  generalize (if longest < ms then longest else ms) = c
  have one : shortestRepeating.toNat = 1 := rfl
  cases repeats with
  | false => simp
  | true =>
    by_cases h : c < shortestRepeating
    · simp only [h, decide_true, Bool.and_self, if_true]
      rw [UInt32.lt_iff_toNat_lt] at h
      omega
    · simp only [h, decide_false, Bool.and_false, if_true]
      rw [UInt32.lt_iff_toNat_lt] at h
      show c.toNat = max c.toNat 1
      omega

theorem clamp_le_longest (ms : UInt32) (repeats : Bool) : (clamp ms repeats).toNat ≤ longest.toNat := by
  have week := toNat_longest
  rw [toNat_clamp]
  split <;> omega

theorem one_le_clamp (ms : UInt32) : 1 ≤ (clamp ms true).toNat := by
  rw [toNat_clamp]
  exact Nat.le_max_right _ _

end Interval

end TimedTasks
