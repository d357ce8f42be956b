import Coap.Random.ChaCha

namespace Coap.ChaCha

/-- The numbers after which the stream starts again. -/
def period : Nat := 8 * UInt64.size

/-- Multiplies numbers of the stream by the width until the low half of a product is in the zone,
and gives the high half. Beyond the bound, which is never reached, it gives zero. -/
def scaled (width zone : UInt64) : Nat → ChaCha → UInt64 × ChaCha
  | 0, c => (0, c)
  | bound + 1, c =>
    let (v, rest) := c.next
    let product := v.toNat * width.toNat
    if UInt64.ofNat product ≤ zone then (UInt64.ofNat (product / UInt64.size), rest)
    else scaled width zone bound rest

/-- The largest low half for which every result has as many products as every other: the width
shifted up to the top bit, less one. -/
def zone (width : UInt64) : UInt64 := width <<< (63 - UInt64.ofNat width.toNat.log2) - 1

/-- A number between two bounds, both included, all equally likely; none if the bounds are in the
wrong order. -/
def between? (low high : UInt64) (c : ChaCha) : Option (UInt64 × ChaCha) :=
  if high < low then none
  else
    let width := high - low + 1
    if width = 0 then some c.next
    else
      let (offset, rest) := scaled width (zone width) period c
      some (low + offset, rest)

end Coap.ChaCha
