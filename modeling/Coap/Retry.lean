import Coap.Instant
import Coap.Random.Uniform

namespace Coap

/-- How the interval between two attempts goes on. -/
inductive Backoff where
  | exponential
  | constant
  deriving DecidableEq, Repr

/-- How long to wait between attempts: the first interval lies between two bounds, both included. -/
structure Strategy where
  backoff : Backoff
  min : Millis
  max : Millis
  deriving DecidableEq, Repr

namespace Strategy

def hasJitter (s : Strategy) : Bool := s.min != s.max

/-- The longest time that a number of intervals in a row can take. -/
def maxTime (s : Strategy) (attempts : UInt16) : Millis :=
  match s.backoff with
  | .exponential =>
    .saturate (s.max.toNat * ((Millis.saturate (Nat.pow 2 attempts.toNat)).toNat - 1))
  | .constant => .saturate (s.max.toNat * attempts.toNat)

/-- The first interval, drawn only if there is a choice; none if the bounds are in the wrong order.
-/
def firstInterval? (s : Strategy) (rng : ChaCha) : Option (Millis × ChaCha) :=
  if s.hasJitter then rng.between? s.min s.max else some (s.min, rng)

def next (s : Strategy) (interval : Millis) : Millis :=
  match s.backoff with
  | .exponential => .saturate (2 * interval.toNat)
  | .constant => interval

def describe (s : Strategy) : String :=
  match s.backoff with
  | .exponential =>
    s!"Exponential \x7b init_min: Milliseconds({s.min}), init_max: Milliseconds({s.max}) \x7d"
  | .constant => s!"Delay \x7b min: Milliseconds({s.min}), max: Milliseconds({s.max}) \x7d"

end Strategy

inductive Verdict where
  | wait
  | retry
  | giveUp
  deriving DecidableEq, Repr

/-- A timer that counts from the last attempt, so that a late question is never followed by a burst
of retries. -/
structure RetryTimer where
  last : Instant
  interval : Millis
  strategy : Strategy
  attempts : UInt16
  maxAttempts : UInt16
  deriving DecidableEq, Repr

namespace RetryTimer

/-- A timer that counts from a first attempt. -/
def start? (s : Strategy) (maxAttempts : UInt16) (now : Instant) (rng : ChaCha) :
    Option (RetryTimer × ChaCha) :=
  (s.firstInterval? rng).map fun (interval, rng) =>
    ({ last := now, interval, strategy := s, attempts := 0, maxAttempts }, rng)

def deadline? (c : Clock) (t : RetryTimer) : Option Instant := t.last.add? c t.interval

def isDue (c : Clock) (t : RetryTimer) (now : Instant) : Bool := (t.deadline? c).any now.reached

def verdict (c : Clock) (t : RetryTimer) (now : Instant) : Verdict :=
  if !t.isDue c now then .wait
  else if t.maxAttempts ≤ t.attempts then .giveUp
  else .retry

def restart (t : RetryTimer) (now : Instant) : RetryTimer :=
  { t with last := now, interval := t.strategy.next t.interval, attempts := t.attempts + 1 }

/-- The timer after it has been asked: only a granted retry changes it. -/
def ask (c : Clock) (t : RetryTimer) (now : Instant) : RetryTimer :=
  match t.verdict c now with
  | .retry => t.restart now
  | .wait | .giveUp => t

end RetryTimer

end Coap
