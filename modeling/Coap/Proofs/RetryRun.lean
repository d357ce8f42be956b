import Coap.Proofs.InstantOrder
import Coap.Proofs.RetryInterval

namespace Coap

namespace Instant

theorem add?_eq_some_iff {c : Clock} {t d : Instant} {ms : Millis} :
    t.add? c ms = some d ↔ ∃ ticks, c.ofMillis? ms = some ticks ∧ ticks.toNat ≤ half.toNat ∧
      d = ⟨t.ticks + ticks⟩ := by
  unfold add?
  cases c.ofMillis? ms with
  | none => simp
  | some ticks =>
    by_cases hlong : half < ticks
    · have hlt := UInt64.lt_iff_toNat_lt.mp hlong
      simp only [if_pos hlong, Option.some.injEq]
      refine iff_of_false (fun h => nomatch h) ?_
      rintro ⟨_, rfl, hle, _⟩
      omega
    · have hle := UInt64.le_iff_toNat_le.mp (UInt64.not_lt.mp hlong)
      simp only [if_neg hlong, Option.some.injEq]
      exact ⟨fun h => ⟨ticks, rfl, hle, h.symm⟩, fun ⟨_, he, _, hd⟩ => by rw [hd, he]⟩

/-- In a window that holds both, what is added to an instant is what lies between them. -/
theorem since_add {base a : Instant} {ticks : UInt64} (ha : base.Within a)
    (hle : ticks.toNat ≤ half.toNat) :
    base.since ⟨a.ticks + ticks⟩ = base.since a + ticks.toNat := by
  have hhalf : half.toNat = 9223372036854775807 := rfl
  have hadd : a.ticks + ticks - base.ticks = (a.ticks - base.ticks) + ticks := by grind
  unfold Within since at ha
  unfold since
  rw [hadd, UInt64.toNat_add]
  exact Nat.mod_eq_of_lt (by omega)

end Instant

namespace RetryTimer

/-- The timer after it has been asked at some instants, one after the other. -/
def askAll (c : Clock) (timer : RetryTimer) (asked : List Instant) : RetryTimer :=
  asked.foldl (ask c) timer

/-- What it answers at those instants. -/
def answers (c : Clock) (timer : RetryTimer) : List Instant → List Verdict
  | [] => []
  | now :: rest => timer.verdict c now :: (timer.ask c now).answers c rest

/-- The instants at which it grants a retry. -/
def retries (c : Clock) (timer : RetryTimer) (asked : List Instant) : List Instant :=
  ((asked.zip (timer.answers c asked)).filter (·.2 == .retry)).map (·.1)

variable {c : Clock} {s : Strategy} {limit : UInt16} {start now : Instant} {first : Millis}
  {granted asked : List Instant} {timer : RetryTimer}

theorem ask_of_retry (h : timer.verdict c now = .retry) :
    timer.ask c now = timer.restart now := by
  rw [ask, h]

theorem ask_of_ne_retry (h : timer.verdict c now ≠ .retry) : timer.ask c now = timer := by
  unfold ask
  split
  next hr => exact absurd hr h
  next => rfl
  next => rfl

theorem retries_cons_of_retry (h : timer.verdict c now = .retry) (rest : List Instant) :
    timer.retries c (now :: rest) = now :: (timer.restart now).retries c rest := by
  have hask := ask_of_retry h
  simp [retries, answers, hask, h]

theorem retries_cons_of_ne_retry (h : timer.verdict c now ≠ .retry) (rest : List Instant) :
    timer.retries c (now :: rest) = timer.retries c rest := by
  have hask := ask_of_ne_retry h
  simp [retries, answers, hask, h]

theorem askAll_cons (rest : List Instant) :
    timer.askAll c (now :: rest) = (timer.ask c now).askAll c rest := rfl

theorem mem_of_mem_retries (h : now ∈ timer.retries c asked) : now ∈ asked := by
  obtain ⟨⟨_, answer⟩, hp, rfl⟩ := List.mem_map.mp h
  exact (List.of_mem_zip (List.mem_filter.mp hp).1).1

theorem count_answers (c : Clock) (timer : RetryTimer) (asked : List Instant) :
    (timer.answers c asked).count .retry = (timer.retries c asked).length := by
  induction asked generalizing timer with
  | nil => rfl
  | cons now rest ih =>
    by_cases h : timer.verdict c now = .retry
    · rw [answers, retries_cons_of_retry h, ask_of_retry h, h, List.count_cons_self, ih,
        List.length_cons]
    · have hrest := ih (timer.ask c now)
      rw [answers, List.count_cons_of_ne h, hrest, ask_of_ne_retry h, retries_cons_of_ne_retry h]

/-- A timer that was started with a first interval and has granted retries at some instants. -/
structure Granted (s : Strategy) (limit : UInt16) (start : Instant) (first : Millis)
    (granted : List Instant) (timer : RetryTimer) : Prop where
  strategy : timer.strategy = s
  maxAttempts : timer.maxAttempts = limit
  budget : granted.length ≤ limit.toNat
  attempts : timer.attempts.toNat = granted.length
  interval : timer.interval.toNat = s.intervalAfter first granted.length
  last : timer.last = granted.getLast?.getD start

theorem granted_start {rng rest : ChaCha} (h : start? s limit start rng = some (timer, rest)) :
    timer.Granted s limit start timer.interval [] ∧ s.min ≤ timer.interval ∧
      timer.interval ≤ s.max := by
  obtain ⟨⟨first, rng'⟩, hf, ht⟩ := Option.map_eq_some_iff.mp h
  obtain ⟨hmin, hmax⟩ := Strategy.firstInterval?_range hf
  cases ht
  exact ⟨⟨rfl, rfl, Nat.zero_le _, rfl, (s.intervalAfter_zero first).symm, rfl⟩, hmin, hmax⟩

theorem Granted.restart (h : timer.Granted s limit start first granted)
    (due : timer.verdict c now = .retry) :
    (timer.restart now).Granted s limit start first (granted ++ [now]) where
  strategy := h.strategy
  maxAttempts := h.maxAttempts
  budget := by
    have hlt := attempts_lt_of_retry due
    rw [h.maxAttempts, h.attempts] at hlt
    rw [List.length_append]
    exact hlt
  attempts := by
    rw [toNat_attempts_restart due, h.attempts, List.length_append]
    rfl
  interval := by
    have hnext := Strategy.toNat_next h.interval
    rw [← h.strategy] at hnext ⊢
    rw [List.length_append]
    exact hnext
  last := by
    rw [List.getLast?_concat]
    rfl

/-- Whatever it is asked, what it grants is counted, and decides its interval and where it counts
from. -/
theorem Granted.askAll (h : timer.Granted s limit start first granted) (asked : List Instant) :
    (timer.askAll c asked).Granted s limit start first (granted ++ timer.retries c asked) := by
  induction asked generalizing timer granted with
  | nil =>
    rw [retries, List.zip_nil_left, List.filter_nil, List.map_nil, List.append_nil]
    exact h
  | cons now rest ih =>
    rw [askAll_cons]
    by_cases due : timer.verdict c now = .retry
    · have hrest := ih (h.restart due)
      rw [List.append_assoc, List.singleton_append, ← retries_cons_of_retry due] at hrest
      rw [ask_of_retry due]
      exact hrest
    · rw [ask_of_ne_retry due, retries_cons_of_ne_retry due]
      exact ih h

theorem isDue_iff : timer.isDue c now = true ↔
    ∃ d, timer.deadline? c = some d ∧ now.compare d ≠ .lt := by
  rw [isDue, Option.any_eq_true]
  simp only [Instant.reached, bne_iff_ne]

/-- A timer that is due grants a retry as long as it has granted fewer than its limit. -/
theorem Granted.verdict_cases (h : timer.Granted s limit start first granted) (c : Clock)
    (now : Instant) :
    timer.verdict c now = .wait ∧ timer.isDue c now = false ∨
    (timer.verdict c now = .retry ∧ timer.isDue c now = true ∧ granted.length < limit.toNat) ∨
    timer.verdict c now = .giveUp ∧ timer.isDue c now = true ∧ granted.length = limit.toNat := by
  have hbudget := h.budget
  have hspent : timer.maxAttempts ≤ timer.attempts ↔ limit.toNat ≤ granted.length := by
    rw [UInt16.le_iff_toNat_le, h.maxAttempts, h.attempts]
  unfold verdict
  cases hdue : timer.isDue c now with
  | false => exact Or.inl ⟨rfl, rfl⟩
  | true =>
    by_cases hle : timer.maxAttempts ≤ timer.attempts
    · have hlimit := hspent.mp hle
      exact Or.inr (Or.inr ⟨if_pos hle, rfl, by omega⟩)
    · have hroom := mt hspent.mpr hle
      exact Or.inr (Or.inl ⟨if_neg hle, rfl, by omega⟩)

theorem verdict_eq_wait_iff_compare :
    timer.verdict c now = .wait ↔ ∀ d, timer.deadline? c = some d → now.compare d = .lt := by
  rw [verdict_eq_wait_iff]
  simp only [Instant.reached, bne_eq_false_iff_eq]

theorem Granted.verdict_eq_retry_iff (h : timer.Granted s limit start first granted) :
    timer.verdict c now = .retry ↔
      (∃ d, timer.deadline? c = some d ∧ now.compare d ≠ .lt) ∧ granted.length < limit.toNat := by
  rw [← isDue_iff]
  rcases h.verdict_cases c now with ⟨hv, hd⟩ | ⟨hv, hd, hn⟩ | ⟨hv, hd, hn⟩
  · simp [hv, hd]
  · simp [hv, hd, hn]
  · simp [hv, hn]

theorem Granted.verdict_eq_giveUp_iff (h : timer.Granted s limit start first granted) :
    timer.verdict c now = .giveUp ↔
      (∃ d, timer.deadline? c = some d ∧ now.compare d ≠ .lt) ∧ granted.length = limit.toNat := by
  rw [← isDue_iff]
  rcases h.verdict_cases c now with ⟨hv, hd⟩ | ⟨hv, hd, hn⟩ | ⟨hv, hd, hn⟩
  · simp [hv, hd]
  · simp [hv, Nat.ne_of_lt hn]
  · simp [hv, hd, hn]

/-- A retry is granted no earlier than an interval after the one before, however the instants wrap
around. -/
theorem Granted.since_le {base : Instant} (h : timer.Granted s limit start first granted)
    (due : timer.verdict c now = .retry) (hlast : base.Within timer.last) (hnow : base.Within now)
    (hdeadline : ∀ d, timer.deadline? c = some d → base.Within d) :
    ∃ interval ticks, interval.toNat = s.intervalAfter first granted.length ∧
      c.ofMillis? interval = some ticks ∧
      base.since timer.last + ticks.toNat ≤ base.since now := by
  obtain ⟨⟨d, hd, hreached⟩, _⟩ := h.verdict_eq_retry_iff.mp due
  obtain ⟨ticks, hticks, hle, rfl⟩ := Instant.add?_eq_some_iff.mp hd
  have hwithin := hdeadline _ hd
  have hsince := Instant.since_add hlast hle
  have horder := (Instant.reached_iff hnow hwithin).mp (bne_iff_ne.mpr hreached)
  rw [hsince] at horder
  exact ⟨timer.interval, ticks, h.interval, hticks, horder⟩

/-- So the retries that follow one another lie apart. -/
theorem Granted.apart {base : Instant} (h : timer.Granted s limit start first granted)
    (hasked : ∀ now ∈ asked, base.Within now)
    (hdeadlines : ∀ n d, (timer.askAll c (asked.take n)).deadline? c = some d → base.Within d)
    {r : Nat} {a b : Instant} (ha : (timer.last :: timer.retries c asked)[r]? = some a)
    (hb : (timer.retries c asked)[r]? = some b) (hwithin : base.Within a) :
    ∃ interval ticks, interval.toNat = s.intervalAfter first (granted.length + r) ∧
      c.ofMillis? interval = some ticks ∧ base.since a + ticks.toNat ≤ base.since b := by
  induction asked generalizing timer granted r with
  | nil => cases hb
  | cons now rest ih =>
    have hnow := hasked now List.mem_cons_self
    have hrest : ∀ now ∈ rest, base.Within now := fun t ht => hasked t (List.mem_cons_of_mem now ht)
    have hlater (n : Nat) (d : Instant)
        (hd : ((timer.ask c now).askAll c (rest.take n)).deadline? c = some d) : base.Within d :=
      hdeadlines (n + 1) d hd
    by_cases due : timer.verdict c now = .retry
    · rw [retries_cons_of_retry due] at ha hb
      rw [ask_of_retry due] at hlater
      cases r with
      | zero =>
        obtain rfl := Option.some.inj ha
        obtain rfl := Option.some.inj hb
        exact h.since_le due hwithin hnow (hdeadlines 0)
      | succ r =>
        have hnext := ih (h.restart due) hrest hlater ha hb
        have hcount : (granted ++ [now]).length + r = granted.length + (r + 1) := by
          rw [List.length_append, List.length_singleton]
          omega
        rw [hcount] at hnext
        exact hnext
    · rw [retries_cons_of_ne_retry due] at ha hb
      rw [ask_of_ne_retry due] at hlater
      exact ih h hrest hlater ha hb

/-- A timer that has granted all it may stays as it is. -/
theorem Granted.askAll_of_spent (h : timer.Granted s limit start first granted)
    (spent : granted.length = limit.toNat) (c : Clock) (later : List Instant) :
    timer.askAll c later = timer := by
  induction later with
  | nil => rfl
  | cons now rest ih =>
    have hne : timer.verdict c now ≠ .retry := by
      intro due
      obtain ⟨_, hlt⟩ := h.verdict_eq_retry_iff.mp due
      omega
    rw [askAll_cons, ask_of_ne_retry hne, ih]

/-- The law of a timer that is asked at any instants, in any order. It grants at most as many
retries as its limit; the last one is what it counts from, and their number gives the interval.
Before its deadline, or without one, it waits; from then on it grants a retry, or gives up for good
once all are granted. Where the questions and the deadlines lie in a window of less than half of the
clock's range, a retry never comes sooner after the one before than the interval between them. -/
theorem retries_law {s : Strategy} {limit : UInt16} {start : Instant} {rng rest : ChaCha}
    {timer : RetryTimer} (h : start? s limit start rng = some (timer, rest)) (c : Clock)
    (asked : List Instant) :
    let first := timer.interval
    let granted := timer.retries c asked
    let t := timer.askAll c asked
    (s.min ≤ first ∧ first ≤ s.max) ∧
    ((timer.answers c asked).count .retry = granted.length ∧ granted.length ≤ limit.toNat) ∧
    (t.last = granted.getLast?.getD start ∧
      t.interval.toNat = s.intervalAfter first granted.length) ∧
    (∀ now,
      (t.verdict c now = .wait ↔ ∀ d, t.deadline? c = some d → now.compare d = .lt) ∧
      (t.verdict c now = .retry ↔
        (∃ d, t.deadline? c = some d ∧ now.compare d ≠ .lt) ∧ granted.length < limit.toNat) ∧
      (t.verdict c now = .giveUp ↔
        (∃ d, t.deadline? c = some d ∧ now.compare d ≠ .lt) ∧ granted.length = limit.toNat) ∧
      (t.verdict c now = .retry →
        ∃ interval, interval.toNat = s.intervalAfter first (granted.length + 1) ∧
          t.ask c now = { t with last := now, interval, attempts := t.attempts + 1 }) ∧
      (t.verdict c now ≠ .retry → t.ask c now = t) ∧
      (t.verdict c now = .giveUp → ∀ later, t.askAll c later = t ∧
        ∀ again d, t.deadline? c = some d → again.compare d ≠ .lt →
          (t.askAll c later).verdict c again = .giveUp)) ∧
    ∀ base : Instant, (∀ now ∈ asked, base.Within now) →
      (∀ n d, (timer.askAll c (asked.take n)).deadline? c = some d → base.Within d) →
      (∀ r a b, granted[r]? = some a → granted[r + 1]? = some b →
        ∃ interval ticks, interval.toNat = s.intervalAfter first (r + 1) ∧
          c.ofMillis? interval = some ticks ∧ base.since a + ticks.toNat ≤ base.since b) ∧
      ∀ b, base.Within start → granted[0]? = some b →
        ∃ ticks, c.ofMillis? first = some ticks ∧
          base.since start + ticks.toNat ≤ base.since b := by
  intro first granted t
  obtain ⟨hstart, hmin, hmax⟩ := granted_start h
  have hlast : timer.last = start := hstart.last
  have ht : t.Granted s limit start first granted := hstart.askAll asked
  refine ⟨⟨hmin, hmax⟩, ⟨count_answers c timer asked, ht.budget⟩, ⟨ht.last, ht.interval⟩, ?_, ?_⟩
  · intro now
    refine ⟨verdict_eq_wait_iff_compare, ht.verdict_eq_retry_iff, ht.verdict_eq_giveUp_iff,
      fun due => ?_, ask_of_ne_retry, fun dead later => ?_⟩
    · have hnext := (ht.restart due).interval
      rw [List.length_append] at hnext
      exact ⟨_, hnext, ask_of_retry due⟩
    · obtain ⟨_, spent⟩ := ht.verdict_eq_giveUp_iff.mp dead
      have hsame := ht.askAll_of_spent spent c later
      refine ⟨hsame, fun again d hd hagain => ?_⟩
      rw [hsame]
      exact ht.verdict_eq_giveUp_iff.mpr ⟨⟨d, hd, hagain⟩, spent⟩
  · intro base hasked hdeadlines
    constructor
    · intro r a b ha hb
      have hwithin := hasked a (mem_of_mem_retries (List.mem_of_getElem? ha))
      have happart := hstart.apart hasked hdeadlines (r := r + 1) ha hb hwithin
      rw [List.length_nil, Nat.zero_add] at happart
      exact happart
    · intro b hwithin hb
      have ha : (timer.last :: timer.retries c asked)[0]? = some start := congrArg some hlast
      obtain ⟨interval, ticks, hi, hticks, hle⟩ := hstart.apart hasked hdeadlines ha hb hwithin
      have hfirst : interval = first := UInt64.toNat_inj.mp (hi.trans (s.intervalAfter_zero first))
      rw [hfirst] at hticks
      exact ⟨ticks, hticks, hle⟩

/-- A timer that doubles, asked too early and too late: it retries at 15 instead of 10, and then 20
later. -/
theorem retries_law_late :
    let timer : RetryTimer := ⟨⟨0⟩, 10, ⟨.exponential, 10, 10⟩, 0, 2⟩
    let asked : List Instant := [⟨9⟩, ⟨15⟩, ⟨34⟩, ⟨35⟩]
    start? ⟨.exponential, 10, 10⟩ 2 ⟨0⟩ (.ofSeed 0) = some (timer, .ofSeed 0) ∧
    (∀ now ∈ asked, Instant.Within ⟨0⟩ now) ∧
    (∀ n d, (timer.askAll .milliseconds (asked.take n)).deadline? .milliseconds = some d →
      Instant.Within ⟨0⟩ d) ∧
    timer.retries .milliseconds asked = [⟨15⟩, ⟨35⟩] ∧
    (timer.askAll .milliseconds asked).last = ⟨35⟩ ∧
    ∃ interval ticks, interval.toNat = Strategy.intervalAfter ⟨.exponential, 10, 10⟩ 10 1 ∧
      Clock.milliseconds.ofMillis? interval = some ticks ∧ 15 + ticks.toNat ≤ 35 := by
  intro timer asked
  have hstart : start? ⟨.exponential, 10, 10⟩ 2 ⟨0⟩ (.ofSeed 0) = some (timer, .ofSeed 0) := rfl
  have hasked : ∀ now ∈ asked, Instant.Within ⟨0⟩ now := by decide
  have hretries : timer.retries .milliseconds asked = [⟨15⟩, ⟨35⟩] := by decide
  have hdeadlines : ∀ n d, (timer.askAll .milliseconds (asked.take n)).deadline? .milliseconds
      = some d → Instant.Within ⟨0⟩ d := by
    intro n d hd
    have hall : ∀ n < 5, ((timer.askAll .milliseconds (asked.take n)).deadline?
        .milliseconds).all (fun d => decide (Instant.Within ⟨0⟩ d)) = true := by decide
    have htake : asked.take n = asked.take (min n 4) := List.take_eq_take_min
    have hn := hall (min n 4) (by omega)
    rw [htake] at hd
    rw [hd] at hn
    exact of_decide_eq_true hn
  obtain ⟨_, _, ⟨hlast, _⟩, _, hspaced⟩ := retries_law hstart .milliseconds asked
  obtain ⟨hapart, _⟩ := hspaced ⟨0⟩ hasked hdeadlines
  rw [hretries] at hlast hapart
  exact ⟨hstart, hasked, hdeadlines, hretries, hlast, hapart 0 ⟨15⟩ ⟨35⟩ rfl rfl⟩

end RetryTimer

end Coap
