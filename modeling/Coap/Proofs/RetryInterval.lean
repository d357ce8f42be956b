import Coap.Config

namespace Coap

namespace ChaCha

theorem scaled_lt {width : UInt64} (h : 0 < width) (zone : UInt64) (bound : Nat) (c : ChaCha) :
    (scaled width zone bound c).1 < width := by
  induction bound generalizing c with
  | zero => exact h
  | succ bound ih =>
    unfold scaled
    dsimp only
    split
    next =>
      have hw : 0 < width.toNat := UInt64.lt_iff_toNat_lt.mp h
      have hv : c.next.1.toNat < UInt64.size := c.next.1.toNat_lt_size
      have hp : c.next.1.toNat * width.toNat < UInt64.size * width.toNat :=
        Nat.mul_lt_mul_of_pos_right hv hw
      have hq : c.next.1.toNat * width.toNat / UInt64.size < width.toNat :=
        Nat.div_lt_of_lt_mul hp
      have hs : width.toNat < UInt64.size := width.toNat_lt_size
      rw [UInt64.lt_iff_toNat_lt, UInt64.toNat_ofNat_of_lt' (Nat.lt_trans hq hs)]
      exact hq
    next => exact ih _

/-- What is drawn lies between the bounds. -/
theorem between?_range {low high v : UInt64} {c rest : ChaCha}
    (h : c.between? low high = some (v, rest)) : low ≤ v ∧ v ≤ high := by
  unfold between? at h
  split at h
  next => cases h
  next hle =>
    have hle : low.toNat ≤ high.toNat := UInt64.le_iff_toNat_le.mp (UInt64.not_lt.mp hle)
    have hh : high.toNat < UInt64.size := high.toNat_lt_size
    have hd : (high - low).toNat = high.toNat - low.toNat := by
      rw [UInt64.toNat_sub_of_le _ _ (UInt64.le_iff_toNat_le.mpr hle)]
    dsimp only at h
    split at h
    next hw =>
      -- The width is the whole range: the bounds are its ends.
      have hz : ((high - low).toNat + 1) % UInt64.size = 0 := by
        have := congrArg UInt64.toNat hw
        simpa [UInt64.toNat_add] using this
      have hv : v.toNat < UInt64.size := v.toNat_lt_size
      rw [UInt64.le_iff_toNat_le, UInt64.le_iff_toNat_le]
      simp only [UInt64.size] at *
      omega
    next hw =>
      have hp : 0 < high - low + 1 := UInt64.pos_iff_ne_zero.mpr hw
      have ho := scaled_lt hp (zone (high - low + 1)) period c
      obtain ⟨rfl, rfl⟩ := Prod.mk.inj (Option.some.inj h)
      rw [UInt64.lt_iff_toNat_lt, UInt64.toNat_add, hd] at ho
      rw [UInt64.le_iff_toNat_le, UInt64.le_iff_toNat_le, UInt64.toNat_add]
      simp only [UInt64.size, UInt64.reduceToNat] at *
      omega

theorem between?_of_le {low high : UInt64} (h : low ≤ high) (c : ChaCha) :
    ∃ v rest, c.between? low high = some (v, rest) := by
  unfold between?
  rw [if_neg (UInt64.not_lt.mpr h)]
  dsimp only
  split
  next => exact ⟨_, _, rfl⟩
  next => exact ⟨_, _, rfl⟩

end ChaCha

theorem Millis.toNat_saturate (n : Nat) :
    (Millis.saturate n).toNat = min (UInt64.size - 1) n := by
  have h : min n (UInt64.size - 1) < UInt64.size := by
    simp only [UInt64.size]
    omega
  rw [Millis.saturate, UInt64.toNat_ofNat_of_lt' h, Nat.min_comm]

namespace Strategy

theorem firstInterval?_range {s : Strategy} {rng rest : ChaCha} {first : Millis}
    (h : s.firstInterval? rng = some (first, rest)) : s.min ≤ first ∧ first ≤ s.max := by
  unfold firstInterval? at h
  split at h
  next => exact ChaCha.between?_range h
  next hj =>
    have he : s.min = s.max := by simpa [hasJitter] using hj
    obtain ⟨rfl, rfl⟩ := Prod.mk.inj (Option.some.inj h)
    exact ⟨UInt64.le_refl _, he ▸ UInt64.le_refl _⟩

theorem firstInterval?_of_le {s : Strategy} (h : s.min ≤ s.max) (rng : ChaCha) :
    ∃ first rest, s.firstInterval? rng = some (first, rest) := by
  unfold firstInterval?
  split
  next => exact ChaCha.between?_of_le h rng
  next => exact ⟨_, _, rfl⟩

/-- The interval after a number of retries: it doubles with each, up to the longest duration, or it
stays as it was. -/
def intervalAfter (s : Strategy) (first : Millis) (attempts : Nat) : Nat :=
  match s.backoff with
  | .exponential => Min.min (UInt64.size - 1) (first.toNat * Nat.pow 2 attempts)
  | .constant => first.toNat

theorem intervalAfter_exponential {s : Strategy} (h : s.backoff = .exponential) (first : Millis)
    (attempts : Nat) : s.intervalAfter first attempts =
      Min.min (UInt64.size - 1) (first.toNat * Nat.pow 2 attempts) := by
  rw [intervalAfter, h]

theorem intervalAfter_constant {s : Strategy} (h : s.backoff = .constant) (first : Millis)
    (attempts : Nat) : s.intervalAfter first attempts = first.toNat := by
  rw [intervalAfter, h]

theorem intervalAfter_zero (s : Strategy) (first : Millis) :
    s.intervalAfter first 0 = first.toNat := by
  cases hb : s.backoff with
  | exponential =>
    have hf : first.toNat < UInt64.size := first.toNat_lt_size
    have hp : first.toNat * Nat.pow 2 0 = first.toNat := Nat.mul_one _
    rw [intervalAfter_exponential hb, hp]
    omega
  | constant => exact intervalAfter_constant hb first 0

/-- The interval that a timer goes on with is that of one more attempt. -/
theorem toNat_next {s : Strategy} {first interval : Millis} {attempts : Nat}
    (h : interval.toNat = s.intervalAfter first attempts) :
    (s.next interval).toNat = s.intervalAfter first (attempts + 1) := by
  unfold next
  cases hb : s.backoff with
  | exponential =>
    have hp : Nat.pow 2 (attempts + 1) = Nat.pow 2 attempts * 2 := rfl
    rw [intervalAfter_exponential hb] at h ⊢
    dsimp only
    rw [Millis.toNat_saturate, h, hp, ← Nat.mul_assoc]
    simp only [UInt64.size]
    omega
  | constant =>
    rw [intervalAfter_constant hb] at h ⊢
    exact h

end Strategy

namespace RetryTimer

/-- A timer that a configuration started: within its budget, and with the interval that its attempts
and its first interval give. -/
structure Regular (config : Config) (timer : RetryTimer) : Prop where
  strategy : timer.strategy = config.strategy
  maxAttempts : timer.maxAttempts = config.maxRetransmit
  attempts : timer.attempts ≤ config.maxRetransmit
  interval : ∃ first, config.strategy.min ≤ first ∧ first ≤ config.strategy.max ∧
    timer.interval.toNat = config.strategy.intervalAfter first timer.attempts.toNat

theorem regular_start {config : Config} {now : Instant} {rng rest : ChaCha} {timer : RetryTimer}
    (h : start? config.strategy config.maxRetransmit now rng = some (timer, rest)) :
    timer.Regular config ∧ timer.attempts = 0 := by
  obtain ⟨⟨first, rng'⟩, hf, ht⟩ := Option.map_eq_some_iff.mp h
  obtain ⟨hmin, hmax⟩ := Strategy.firstInterval?_range hf
  cases ht
  have hi : first.toNat = config.strategy.intervalAfter first (0 : UInt16).toNat :=
    (config.strategy.intervalAfter_zero first).symm
  exact ⟨⟨rfl, rfl, UInt16.le_iff_toNat_le.mpr (Nat.zero_le _), first, hmin, hmax, hi⟩, rfl⟩

/-- Without a deadline that has been reached, a timer waits. -/
theorem verdict_eq_wait_iff {c : Clock} {timer : RetryTimer} {now : Instant} :
    timer.verdict c now = .wait ↔ ∀ d, timer.deadline? c = some d → now.reached d = false := by
  have hdue : timer.isDue c now = false ↔
      ∀ d, timer.deadline? c = some d → now.reached d = false := by
    unfold isDue
    cases timer.deadline? c with
    | none => exact iff_of_true rfl fun d hd => nomatch hd
    | some d =>
      constructor
      · rintro h _ ⟨rfl⟩
        exact h
      · exact fun h => h d rfl
  rw [← hdue]
  unfold verdict
  cases timer.isDue c now with
  | false => exact iff_of_true rfl rfl
  | true =>
    refine iff_of_false ?_ (fun h => nomatch h)
    rw [if_neg (by decide)]
    split
    next => exact fun h => nomatch h
    next => exact fun h => nomatch h

theorem attempts_lt_of_retry {c : Clock} {timer : RetryTimer} {now : Instant}
    (h : timer.verdict c now = .retry) :
    timer.attempts.toNat < timer.maxAttempts.toNat := by
  unfold verdict at h
  split at h
  next => cases h
  next =>
    split at h
    next => cases h
    next hlt => exact UInt16.lt_iff_toNat_lt.mp (UInt16.not_le.mp hlt)

theorem le_attempts_of_giveUp {c : Clock} {timer : RetryTimer} {now : Instant}
    (h : timer.verdict c now = .giveUp) : timer.maxAttempts ≤ timer.attempts := by
  unfold verdict at h
  split at h
  next => cases h
  next =>
    split at h
    next hle => exact hle
    next => cases h

/-- A retry is counted without overflow. -/
theorem toNat_attempts_restart {c : Clock} {timer : RetryTimer} {now : Instant}
    (h : timer.verdict c now = .retry) (later : Instant) :
    (timer.restart later).attempts.toNat = timer.attempts.toNat + 1 := by
  have hlt := attempts_lt_of_retry h
  have hmax := timer.maxAttempts.toNat_lt_size
  change (timer.attempts + 1).toNat = _
  rw [UInt16.toNat_add]
  simp only [UInt16.size, UInt16.reduceToNat] at *
  omega

theorem Regular.restart {config : Config} {c : Clock} {timer : RetryTimer} {now : Instant}
    (hr : timer.Regular config) (h : timer.verdict c now = .retry) (later : Instant) :
    (timer.restart later).Regular config := by
  obtain ⟨first, hmin, hmax, hi⟩ := hr.interval
  have hcount := toNat_attempts_restart h later
  have hlt := attempts_lt_of_retry h
  have hnext : (timer.restart later).interval.toNat =
      config.strategy.intervalAfter first (timer.restart later).attempts.toNat := by
    rw [hcount, ← Strategy.toNat_next hi, ← hr.strategy]
    rfl
  refine ⟨hr.strategy, hr.maxAttempts, ?_, first, hmin, hmax, hnext⟩
  rw [UInt16.le_iff_toNat_le, hcount, ← hr.maxAttempts]
  omega

end RetryTimer

end Coap
