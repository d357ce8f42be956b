import Coap.Bytes
import Coap.Limits
import Coap.Registry

namespace Coap

/-- An option as it stands in a datagram: its number and its value. -/
structure WireOption where
  number : Nat
  value : Bytes
  deriving DecidableEq, Repr

namespace WireOption

/-- The bytes that a header field needs beside its four bits. -/
def extensionLength (n : Nat) : Nat := if 269 ≤ n then 2 else if 13 ≤ n then 1 else 0

/-- The bytes that an option takes: its head, the extensions of delta and length, its value. -/
def size (delta length : Nat) : Nat :=
  1 + extensionLength delta + extensionLength length + length

/-- The bytes that a series of options takes, each given by number and length, after option `prev`.
-/
def sizes (prev : Nat) : List (Nat × Nat) → Nat
  | [] => 0
  | (number, length) :: rest => size (number - prev) length + sizes number rest

end WireOption

/-- The byte between the options and the payload. -/
def payloadMarker : UInt8 := 0xFF

end Coap
