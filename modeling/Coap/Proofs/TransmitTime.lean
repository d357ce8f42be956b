import Coap.Proofs.RetryInterval

namespace Coap

theorem Instant.half_lt : half.toNat < UInt64.size - 2 := by decide

namespace Strategy

/-- The time that a number of intervals in a row take, from the first one on. -/
def elapsed (s : Strategy) (first : Millis) : Nat → Nat
  | 0 => 0
  | n + 1 => s.elapsed first n + s.intervalAfter first n

theorem elapsed_mono (s : Strategy) (first : Millis) {k n : Nat} (h : k ≤ n) :
    s.elapsed first k ≤ s.elapsed first n := by
  induction h with
  | refl => exact Nat.le_refl _
  | step h ih => exact Nat.le_add_right_of_le ih

theorem elapsed_constant {s : Strategy} (h : s.backoff = .constant) (first : Millis) (n : Nat) :
    s.elapsed first n = first.toNat * n := by
  induction n with
  | zero => rfl
  | succ n ih => rw [elapsed, ih, intervalAfter_constant h, Nat.mul_succ]

/-- Doubled intervals sum up to less than the next one. -/
theorem elapsed_exponential_le {s : Strategy} (h : s.backoff = .exponential) (first : Millis)
    (n : Nat) : s.elapsed first n + first.toNat ≤ first.toNat * Nat.pow 2 n := by
  induction n with
  | zero => exact Nat.le_of_eq (by rw [elapsed]; simp)
  | succ n ih =>
    have hp : first.toNat * Nat.pow 2 (n + 1) = first.toNat * Nat.pow 2 n * 2 :=
      (Nat.mul_assoc _ _ _).symm
    rw [elapsed, intervalAfter_exponential h, hp]
    omega

/-- They sum up to what is missing to the next one, as long as none is cut to the longest duration.
-/
theorem elapsed_exponential_eq {s : Strategy} (h : s.backoff = .exponential) (first : Millis)
    {n : Nat} (hn : s.elapsed first n < UInt64.size - 1) :
    s.elapsed first n + first.toNat = first.toNat * Nat.pow 2 n := by
  induction n with
  | zero => rw [elapsed]; simp
  | succ n ih =>
    have hp : first.toNat * Nat.pow 2 (n + 1) = first.toNat * Nat.pow 2 n * 2 :=
      (Nat.mul_assoc _ _ _).symm
    rw [elapsed, intervalAfter_exponential h] at hn ⊢
    have hprev := ih (by omega)
    omega

theorem toNat_maxTime_constant {s : Strategy} (h : s.backoff = .constant) (n : UInt16) :
    (s.maxTime n).toNat = Min.min (UInt64.size - 1) (s.max.toNat * n.toNat) := by
  rw [maxTime, h]
  exact Millis.toNat_saturate _

theorem toNat_maxTime_exponential {s : Strategy} (h : s.backoff = .exponential) (n : UInt16) :
    (s.maxTime n).toNat = Min.min (UInt64.size - 1)
      (s.max.toNat * (Min.min (UInt64.size - 1) (Nat.pow 2 n.toNat) - 1)) := by
  rw [maxTime, h]
  dsimp only
  rw [Millis.toNat_saturate, Millis.toNat_saturate]

/-- Up to 63 doublings the number of shortest intervals is a duration. -/
theorem toNat_maxTime_of_lt {s : Strategy} (h : s.backoff = .exponential) {n : UInt16}
    (hn : n.toNat < 64) :
    (s.maxTime n).toNat = Min.min (UInt64.size - 1) (s.max.toNat * (Nat.pow 2 n.toNat - 1)) := by
  have hp : Nat.pow 2 n.toNat ≤ Nat.pow 2 63 := Nat.pow_le_pow_right (by omega) (by omega)
  have hc : Nat.pow 2 63 ≤ UInt64.size - 1 := by decide
  rw [toNat_maxTime_exponential h, Nat.min_eq_right (Nat.le_trans hp hc)]

theorem toNat_maxTime_of_le {s : Strategy} (h : s.backoff = .exponential) {n : UInt16}
    (hn : 64 ≤ n.toNat) :
    (s.maxTime n).toNat = Min.min (UInt64.size - 1) (s.max.toNat * (UInt64.size - 2)) := by
  have hp : Nat.pow 2 64 ≤ Nat.pow 2 n.toNat := Nat.pow_le_pow_right (by omega) hn
  have hc : UInt64.size - 1 ≤ Nat.pow 2 64 := by decide
  rw [toNat_maxTime_exponential h, Nat.min_eq_left (Nat.le_trans hc hp)]
  rfl

theorem elapsed_le_mul {s : Strategy} (h : s.backoff = .exponential) (first : Millis) (n : Nat) :
    s.elapsed first n ≤ first.toNat * (Nat.pow 2 n - 1) := by
  have hle := elapsed_exponential_le h first n
  rw [Nat.mul_sub_one]
  omega

theorem elapsed_le_maxTime_constant {s : Strategy} (h : s.backoff = .constant) {first : Millis}
    (hle : first ≤ s.max) {k : Nat} {n : UInt16} (hk : k ≤ n.toNat)
    (near : s.elapsed first k ≤ Instant.half.toNat) :
    s.elapsed first k ≤ (s.maxTime n).toNat := by
  have hhalf := Instant.half_lt
  have hmul : first.toNat * k ≤ s.max.toNat * n.toNat :=
    Nat.mul_le_mul (UInt64.le_iff_toNat_le.mp hle) hk
  rw [toNat_maxTime_constant h]
  rw [elapsed_constant h] at near ⊢
  omega

/-- Intervals that double are also bounded by the time of 64 of them, for only those of nothing fit
into half of the clock's range in that number. -/
theorem elapsed_le_maxTime_exponential {s : Strategy} (h : s.backoff = .exponential)
    {first : Millis} (hle : first ≤ s.max) {k : Nat} {n : UInt16}
    (hk : k ≤ n.toNat ∨ 64 ≤ n.toNat) (near : s.elapsed first k ≤ Instant.half.toNat) :
    s.elapsed first k ≤ (s.maxTime n).toNat := by
  have hhalf := Instant.half_lt
  have hmax : first.toNat ≤ s.max.toNat := UInt64.le_iff_toNat_le.mp hle
  have hsum := elapsed_le_mul h first k
  by_cases hn : n.toNat < 64
  · have hpow : Nat.pow 2 k ≤ Nat.pow 2 n.toNat := Nat.pow_le_pow_right (by omega) (by omega)
    have hmul : first.toNat * (Nat.pow 2 k - 1) ≤ s.max.toNat * (Nat.pow 2 n.toNat - 1) :=
      Nat.mul_le_mul hmax (Nat.sub_le_sub_right hpow 1)
    rw [toNat_maxTime_of_lt h hn]
    omega
  · -- The closed form is cut off, but still more than half of the range, unless it is nothing.
    rw [toNat_maxTime_of_le h (by omega)]
    rcases Nat.eq_zero_or_pos s.max.toNat with hz | hpos
    · have hfirst : first.toNat = 0 := by omega
      rw [hfirst, Nat.zero_mul] at hsum
      omega
    · have hmul : UInt64.size - 2 ≤ s.max.toNat * (UInt64.size - 2) :=
        Nat.le_mul_of_pos_left _ hpos
      omega

theorem elapsed_max_eq_constant {s : Strategy} (h : s.backoff = .constant) {n : UInt16}
    (near : s.elapsed s.max n.toNat ≤ Instant.half.toNat) :
    s.elapsed s.max n.toNat = (s.maxTime n).toNat := by
  have hhalf := Instant.half_lt
  rw [toNat_maxTime_constant h]
  rw [elapsed_constant h] at near ⊢
  omega

/-- Of 64 intervals that double, only those of nothing fit into half of the clock's range. -/
theorem toNat_eq_zero_of_elapsed {s : Strategy} (h : s.backoff = .exponential) {first : Millis}
    {k : Nat} (hk : 64 ≤ k) (near : s.elapsed first k ≤ Instant.half.toNat) :
    first.toNat = 0 := by
  have hhalf := Instant.half_lt
  have hsum := elapsed_exponential_eq h first (n := k) (by omega)
  apply Nat.eq_zero_of_not_pos
  intro hpos
  have hpow : UInt64.size ≤ Nat.pow 2 k := Nat.pow_le_pow_right (n := 2) (by omega) hk
  have hmul : first.toNat * UInt64.size ≤ first.toNat * Nat.pow 2 k := Nat.mul_le_mul_left _ hpow
  have hone : UInt64.size - 1 ≤ first.toNat * (UInt64.size - 1) := Nat.le_mul_of_pos_left _ hpos
  rw [Nat.mul_sub_one] at hone
  omega

theorem elapsed_max_eq_exponential {s : Strategy} (h : s.backoff = .exponential) {k : Nat}
    {n : UInt16} (hk : k = n.toNat ∨ 64 ≤ k ∧ 64 ≤ n.toNat)
    (near : s.elapsed s.max k ≤ Instant.half.toNat) :
    s.elapsed s.max k = (s.maxTime n).toNat := by
  have hhalf := Instant.half_lt
  have hsum := elapsed_exponential_eq h s.max (n := k) (by omega)
  by_cases hn : n.toNat < 64
  · obtain rfl : k = n.toNat := by omega
    rw [toNat_maxTime_of_lt h hn, Nat.mul_sub_one]
    omega
  · have hzero := toNat_eq_zero_of_elapsed h (by omega) near
    rw [toNat_maxTime_of_le h (by omega), hzero, Nat.zero_mul]
    rw [hzero, Nat.zero_mul] at hsum
    omega

theorem elapsed_le_maxTime {s : Strategy} {first : Millis} (hle : first ≤ s.max) {k : Nat}
    {n : UInt16} (hk : k ≤ n.toNat) (near : s.elapsed first k ≤ Instant.half.toNat) :
    s.elapsed first k ≤ (s.maxTime n).toNat := by
  cases hb : s.backoff with
  | constant => exact elapsed_le_maxTime_constant hb hle hk near
  | exponential => exact elapsed_le_maxTime_exponential hb hle (Or.inl hk) near

/-- If the first interval is the longest, that time is reached. -/
theorem elapsed_max_eq {s : Strategy} {n : UInt16}
    (near : s.elapsed s.max n.toNat ≤ Instant.half.toNat) :
    s.elapsed s.max n.toNat = (s.maxTime n).toNat := by
  cases hb : s.backoff with
  | constant => exact elapsed_max_eq_constant hb near
  | exponential => exact elapsed_max_eq_exponential hb (Or.inl rfl) near

end Strategy

namespace Config

theorem toNat_waitAttempts {c : Config} (h : c.maxRetransmit ≠ 65535) :
    (c.maxRetransmit + 1).toNat = c.maxRetransmit.toNat + 1 := by
  have hlt := c.maxRetransmit.toNat_lt_size
  have hne : c.maxRetransmit.toNat ≠ 65535 := fun he => h (UInt16.toNat_inj.mp he)
  rw [UInt16.toNat_add]
  simp only [UInt16.size, UInt16.reduceToNat] at *
  omega

/-- The wait for the answer ends within the longest wait, and takes all of it if the first interval
is the longest. One interval is not counted if the intervals stay the same and there are as many
retransmissions as can be counted. -/
theorem elapsed_maxTransmitWait {c : Config} {first : Millis} (hle : first ≤ c.strategy.max)
    (h : c.strategy.backoff = .exponential ∨ c.maxRetransmit ≠ 65535)
    (near : c.strategy.elapsed first (c.maxRetransmit.toNat + 1) ≤ Instant.half.toNat) :
    c.strategy.elapsed first (c.maxRetransmit.toNat + 1) ≤ c.maxTransmitWait.toNat ∧
      (first = c.strategy.max →
        c.strategy.elapsed first (c.maxRetransmit.toNat + 1) = c.maxTransmitWait.toNat) := by
  by_cases hm : c.maxRetransmit = 65535
  · -- The count stays, but it is far more than what fits into the range when the intervals double.
    have hb : c.strategy.backoff = .exponential := h.resolve_right (fun hne => hne hm)
    have hmany : 64 ≤ c.maxRetransmit.toNat + 1 := by
      rw [hm]
      decide
    rw [maxTransmitWait, if_pos hm]
    refine ⟨Strategy.elapsed_le_maxTime_exponential hb hle (Or.inr (by decide)) near, ?_⟩
    rintro rfl
    exact Strategy.elapsed_max_eq_exponential hb (Or.inr ⟨hmany, by decide⟩) near
  · rw [maxTransmitWait, if_neg hm]
    rw [← toNat_waitAttempts hm] at near ⊢
    refine ⟨Strategy.elapsed_le_maxTime hle (Nat.le_refl _) near, ?_⟩
    rintro rfl
    exact Strategy.elapsed_max_eq near

end Config

end Coap
