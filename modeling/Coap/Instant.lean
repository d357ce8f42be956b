import Coap.Clock

namespace Coap

/-- A point in time: the ticks of a clock since it started, which wrap around. -/
structure Instant where
  ticks : UInt64
  deriving DecidableEq, Repr

namespace Instant

/-- Half of the clock's range, the furthest that one instant can be ahead of another. -/
def half : UInt64 := 9223372036854775807

/-- Of two instants the later one is less than half the range ahead of the other; instants that are
exactly half the range apart count as equal. -/
def compare (a b : Instant) : Ordering :=
  if a = b then .eq
  else
    let ahead := a.ticks - b.ticks
    if ahead < half then .gt else if ahead = half then .eq else .lt

def reached (now deadline : Instant) : Bool := now.compare deadline != .lt

/-- The instant that is a duration later; none if the duration takes more than half the range. -/
def add? (c : Clock) (t : Instant) (ms : Millis) : Option Instant :=
  match c.ofMillis? ms with
  | some ticks => if half < ticks then none else some ⟨t.ticks + ticks⟩
  | none => none

def millis? (c : Clock) (t : Instant) : Option Millis := c.toMillis? t.ticks

/-- The earlier of two instants, the first one unless it is later. -/
def earlier (a b : Instant) : Instant := if a.compare b = .gt then b else a

def earliest : List Instant → Option Instant
  | [] => none
  | t :: rest => some (rest.foldl earlier t)

end Instant

end Coap
