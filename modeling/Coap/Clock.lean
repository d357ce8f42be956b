namespace Coap

abbrev Millis := UInt64

/-- The nearest duration to a number of milliseconds: the number itself or the longest duration. -/
def Millis.saturate (n : Nat) : Millis := UInt64.ofNat (min n (UInt64.size - 1))

/-- The rate of a clock: this many of its ticks take this many milliseconds. -/
structure Clock where
  ticks : Nat
  millis : Nat
  ticks_pos : 0 < ticks
  millis_pos : 0 < millis
  deriving DecidableEq, Repr

namespace Clock

def milliseconds : Clock := ⟨1, 1, by decide, by decide⟩
def microseconds : Clock := ⟨1000, 1, by decide, by decide⟩
def nanoseconds : Clock := ⟨1000000, 1, by decide, by decide⟩
def seconds : Clock := ⟨1, 1000, by decide, by decide⟩
def minutes : Clock := ⟨1, 60000, by decide, by decide⟩

/-- The clock of a watch crystal: 32768 ticks in a second. -/
def watchCrystal : Clock := ⟨4096, 125, by decide, by decide⟩

/-- Converts a number of one unit into another: multiplies, then divides and drops the remainder.
There is no result if the product has more than 64 bits. -/
def convert? (multiplier divisor : Nat) (n : UInt64) : Option UInt64 :=
  if n.toNat * multiplier < UInt64.size then
    some (UInt64.ofNat (n.toNat * multiplier / divisor))
  else none

def ofMillis? (c : Clock) (ms : Millis) : Option UInt64 := convert? c.ticks c.millis ms

def toMillis? (c : Clock) (ticks : UInt64) : Option Millis := convert? c.millis c.ticks ticks

end Clock

end Coap
