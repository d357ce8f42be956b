import Coap.Proofs.TransmitTime

namespace Coap.Strategy

/-- The longest interval after a number of retries, as if durations had no end. -/
def longestInterval (s : Strategy) (retries : Nat) : Nat :=
  match s.backoff with
  | .exponential => s.max.toNat * Nat.pow 2 retries
  | .constant => s.max.toNat

/-- What a number of longest intervals add up to, as if durations had no end. -/
def longestTime (s : Strategy) : Nat → Nat
  | 0 => 0
  | n + 1 => s.longestTime n + s.longestInterval n

theorem longestTime_constant {s : Strategy} (h : s.backoff = .constant) (n : Nat) :
    s.longestTime n = s.max.toNat * n := by
  induction n with
  | zero => rfl
  | succ n ih => rw [longestTime, ih, longestInterval, h, Nat.mul_succ]

theorem longestTime_exponential {s : Strategy} (h : s.backoff = .exponential) (n : Nat) :
    s.longestTime n = s.max.toNat * (Nat.pow 2 n - 1) := by
  induction n with
  | zero => rfl
  | succ n ih =>
    have hp : Nat.pow 2 (n + 1) = Nat.pow 2 n * 2 := rfl
    have hpos : 0 < Nat.pow 2 n := Nat.pow_pos (by omega)
    have hsum : Nat.pow 2 (n + 1) - 1 = (Nat.pow 2 n - 1) + Nat.pow 2 n := by omega
    rw [longestTime, ih, longestInterval, h, hsum, Nat.mul_add]

/-- A timer takes the longest interval that is a duration. -/
theorem intervalAfter_max (s : Strategy) (retries : Nat) : s.intervalAfter s.max retries =
    Min.min (UInt64.size - 1) (s.longestInterval retries) := by
  cases h : s.backoff with
  | exponential => rw [intervalAfter_exponential h, longestInterval, h]
  | constant =>
    have hlt := s.max.toNat_lt_size
    rw [intervalAfter_constant h, longestInterval, h]
    dsimp only
    omega

/-- It makes no difference whether the intervals are cut to the longest duration one by one or only
their sum is. -/
theorem min_elapsed_max (s : Strategy) (n : Nat) :
    Min.min (UInt64.size - 1) (s.elapsed s.max n) =
      Min.min (UInt64.size - 1) (s.longestTime n) := by
  induction n with
  | zero => rfl
  | succ n ih =>
    rw [elapsed, longestTime, intervalAfter_max]
    omega

/-- From 64 doublings on their count is cut off before one is taken from it, which is lost unless
the sum does not fit anyway. -/
theorem toNat_maxTime_of_cut {s : Strategy} (h : s.backoff = .exponential) {n : UInt16}
    (hn : 64 ≤ n.toNat) : (s.maxTime n).toNat + (if s.max = 1 then 1 else 0) =
      Min.min (UInt64.size - 1) (s.longestTime n.toNat) := by
  have hpow : UInt64.size ≤ Nat.pow 2 n.toNat := Nat.pow_le_pow_right (n := 2) (by omega) hn
  rw [toNat_maxTime_of_le h hn, longestTime_exponential h]
  by_cases hone : s.max = 1
  · have hm : s.max.toNat = 1 := by rw [hone]; rfl
    rw [if_pos hone, hm, Nat.one_mul, Nat.one_mul]
    simp only [UInt64.size] at *
    omega
  · have hm : s.max.toNat ≠ 1 := fun he => hone (UInt64.toNat_inj.mp he)
    rw [if_neg hone]
    rcases Nat.eq_zero_or_pos s.max.toNat with hz | hpos
    · rw [hz, Nat.zero_mul, Nat.zero_mul, Nat.add_zero]
    · have hcut : 2 * (UInt64.size - 2) ≤ s.max.toNat * (UInt64.size - 2) :=
        Nat.mul_le_mul_right _ (by omega)
      have htrue : 2 * (Nat.pow 2 n.toNat - 1) ≤ s.max.toNat * (Nat.pow 2 n.toNat - 1) :=
        Nat.mul_le_mul_right _ (by omega)
      simp only [UInt64.size] at *
      omega

/-- The longest time of a number of intervals in a row is what the longest intervals add up to, or
the longest duration if that is less. One millisecond is missing if the first of 64 or more
intervals that double is a single one. The intervals of a timer add up to the same, though each of
them ends at the longest duration. -/
theorem maxTime_saturatedSum (s : Strategy) (n : UInt16) :
    (s.maxTime n).toNat +
        (if s.backoff = .exponential ∧ s.max = 1 ∧ 64 ≤ n.toNat then 1 else 0) =
      Min.min (UInt64.size - 1) (s.longestTime n.toNat) ∧
    Min.min (UInt64.size - 1) (s.elapsed s.max n.toNat) =
      Min.min (UInt64.size - 1) (s.longestTime n.toNat) := by
  refine ⟨?_, s.min_elapsed_max n.toNat⟩
  cases h : s.backoff with
  | constant =>
    rw [if_neg (fun hc => absurd hc.1 (by decide)), Nat.add_zero, toNat_maxTime_constant h,
      longestTime_constant h]
  | exponential =>
    by_cases hn : 64 ≤ n.toNat
    · have hcut := toNat_maxTime_of_cut h hn
      simp only [hn, true_and, and_true]
      exact hcut
    · rw [if_neg (fun hc => hn hc.2.2), Nat.add_zero, toNat_maxTime_of_lt h (Nat.lt_of_not_le hn),
        longestTime_exponential h]

/-- Intervals of 1, 2, 4 milliseconds and so on, 64 of them, add up to the longest duration, of
which one is missing. -/
theorem maxTime_one_short :
    let s : Strategy := ⟨.exponential, 1, 1⟩
    (s.maxTime 64).toNat = UInt64.size - 2 ∧
      Min.min (UInt64.size - 1) (s.longestTime (64 : UInt16).toNat) = UInt64.size - 1 := by
  decide

end Coap.Strategy
