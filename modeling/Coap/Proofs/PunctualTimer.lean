import Coap.Proofs.InstantOrder
import Coap.Proofs.TransmitTime

namespace Coap

theorem Instant.add?_milliseconds (t : Instant) (ms : Millis) :
    t.add? .milliseconds ms = if half < ms then none else some ⟨t.ticks + ms⟩ := by
  have hc : Clock.milliseconds.ofMillis? ms = some ms := by
    have hms : ms.toNat * 1 < UInt64.size := by
      rw [Nat.mul_one]
      exact ms.toNat_lt_size
    have hof : UInt64.ofNat (ms.toNat * 1 / 1) = ms := by simp
    rw [Clock.ofMillis?, Clock.convert?]
    change (if ms.toNat * 1 < UInt64.size then some (UInt64.ofNat (ms.toNat * 1 / 1)) else none) = _
    rw [if_pos hms, hof]
  rw [add?, hc]

namespace RetryTimer

theorem verdict_deadline {c : Clock} {timer : RetryTimer} {now : Instant}
    (h : timer.deadline? c = some now) : timer.verdict c now =
      if timer.maxAttempts ≤ timer.attempts then .giveUp else .retry := by
  have hdue : timer.isDue c now = true := by
    rw [isDue, h]
    exact now.reached_self
  rw [verdict, hdue]
  rfl

/-- A timer that was started at an instant, with a first interval, and has always been asked at its
deadline. -/
structure Counts (config : Config) (start : Instant) (first : Millis) (retries : Nat)
    (timer : RetryTimer) : Prop where
  strategy : timer.strategy = config.strategy
  maxAttempts : timer.maxAttempts = config.maxRetransmit
  budget : retries ≤ config.maxRetransmit.toNat
  attempts : timer.attempts.toNat = retries
  interval : timer.interval.toNat = config.strategy.intervalAfter first retries
  last : (timer.last.ticks - start.ticks).toNat = config.strategy.elapsed first retries
  near : config.strategy.elapsed first retries ≤ Instant.half.toNat

theorem counts_start (config : Config) (start : Instant) (first : Millis) :
    Counts config start first 0 ⟨start, first, config.strategy, 0, config.maxRetransmit⟩ where
  strategy := rfl
  maxAttempts := rfl
  budget := Nat.zero_le _
  attempts := rfl
  interval := (config.strategy.intervalAfter_zero first).symm
  last := by simp [Strategy.elapsed]
  near := Nat.zero_le _

variable {config : Config} {start now : Instant} {first : Millis} {retries : Nat}
  {timer : RetryTimer}

/-- Its deadline comes when one more interval has passed. -/
theorem Counts.deadline (h : timer.Counts config start first retries)
    (hd : timer.deadline? .milliseconds = some now) :
    (now.ticks - start.ticks).toNat = config.strategy.elapsed first (retries + 1) := by
  rw [deadline?, Instant.add?_milliseconds] at hd
  split at hd
  next => cases hd
  next hshort =>
    cases hd
    have hi : timer.interval.toNat ≤ Instant.half.toNat :=
      UInt64.le_iff_toNat_le.mp (UInt64.not_lt.mp hshort)
    have hadd : timer.last.ticks + timer.interval - start.ticks =
        timer.last.ticks - start.ticks + timer.interval := by
      rw [UInt64.sub_eq_add_neg, UInt64.sub_eq_add_neg, UInt64.add_assoc,
        UInt64.add_comm timer.interval, UInt64.add_assoc]
    -- What has passed and the interval are each at most half of the range, so the sum is no wrap.
    rw [hadd, UInt64.toNat_add, h.last, Strategy.elapsed, ← h.interval]
    exact Nat.mod_eq_of_lt (Nat.lt_of_le_of_lt (Nat.add_le_add h.near hi) (by decide))

theorem Counts.exists_deadline (h : timer.Counts config start first retries)
    (near : config.strategy.elapsed first (retries + 1) ≤ Instant.half.toNat) :
    ∃ now, timer.deadline? .milliseconds = some now ∧ now.ticks - start.ticks ≤ Instant.half := by
  have hshort : ¬Instant.half < timer.interval := by
    rw [UInt64.not_lt, UInt64.le_iff_toNat_le, h.interval]
    exact Nat.le_trans (Nat.le_add_left _ _) near
  have hd : timer.deadline? .milliseconds = some ⟨timer.last.ticks + timer.interval⟩ := by
    rw [deadline?, Instant.add?_milliseconds, if_neg hshort]
  refine ⟨_, hd, ?_⟩
  rw [UInt64.le_iff_toNat_le, h.deadline hd]
  exact near

theorem Counts.restart {c : Clock} (h : timer.Counts config start first retries)
    (due : timer.verdict c now = .retry)
    (last : (now.ticks - start.ticks).toNat = config.strategy.elapsed first (retries + 1))
    (near : now.ticks - start.ticks ≤ Instant.half) :
    (timer.restart now).Counts config start first (retries + 1) where
  strategy := h.strategy
  maxAttempts := h.maxAttempts
  budget := by
    have hlt := attempts_lt_of_retry due
    rw [h.maxAttempts, h.attempts] at hlt
    exact hlt
  attempts := by rw [toNat_attempts_restart due, h.attempts]
  interval := by
    rw [← Strategy.toNat_next h.interval, ← h.strategy]
    rfl
  last := last
  near := by
    rw [← last]
    exact UInt64.le_iff_toNat_le.mp near

/-- At its deadline it retries as long as the budget lasts, and then gives up. -/
theorem Counts.verdict {c : Clock} (h : timer.Counts config start first retries)
    (hd : timer.deadline? c = some now) :
    timer.verdict c now = .retry ∧ retries < config.maxRetransmit.toNat ∨
      timer.verdict c now = .giveUp ∧ retries = config.maxRetransmit.toNat := by
  have hbudget := h.budget
  have hcount : timer.maxAttempts ≤ timer.attempts ↔ config.maxRetransmit.toNat ≤ retries := by
    rw [UInt16.le_iff_toNat_le, h.maxAttempts, h.attempts]
  rw [verdict_deadline hd]
  by_cases hle : timer.maxAttempts ≤ timer.attempts
  · exact Or.inr ⟨if_pos hle, Nat.le_antisymm hbudget (hcount.mp hle)⟩
  · exact Or.inl ⟨if_neg hle, Nat.lt_of_not_le (fun hc => hle (hcount.mpr hc))⟩

end RetryTimer

end Coap
