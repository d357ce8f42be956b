import Coap.Segment
import Coap.WireOption.Basic
import Coap.Written

namespace Coap.WireOption

/-- The four bits and the extension bytes that stand for a delta or a length. -/
def field (n : Nat) : Except EncodeError (Nat × Bytes) :=
  if maxField < n then .error (.optionTooLarge n)
  else if 269 ≤ n then .ok (14, BigEndian.pair (UInt16.ofNat (n - 269)))
  else if 13 ≤ n then .ok (13, [UInt8.ofNat (n - 13)])
  else .ok (n, [])

/-- The bytes of an option that follows option number `prev`. -/
def encode (prev : Nat) (o : WireOption) : Except EncodeError Bytes := do
  if o.number < prev then .error (.optionsOutOfOrder prev o.number)
  let (delta, deltaBytes) ← field (o.number - prev)
  let (length, lengthBytes) ← field o.value.length
  return UInt8.ofNat (16 * delta + length) :: (deltaBytes ++ lengthBytes ++ o.value)

/-- Writes one option, all of it or nothing. -/
def write (prev : Nat) (o : WireOption) (room : Bytes) : Written :=
  match o.encode prev with
  | .ok bytes => .put bytes room
  | .error e => .failed room e

/-- Writes options one after the other up to the first that fails. -/
def writeAll (prev : Nat) : List WireOption → Bytes → Written
  | [], room => .nothing room
  | o :: rest, room => (o.write prev room).andThen (writeAll o.number rest)

/-- An option with the minimal bytes of a number as its value. -/
def ofUint (number : Nat) (n : UInt32) : WireOption := ⟨number, BigEndian.minimal n⟩

/-- One option, or with a separator one for each piece of the value. -/
def ofBytes (number : Nat) (value : Bytes) : Option UInt8 → List WireOption
  | none => [⟨number, value⟩]
  | some sep => (Separated.trimmedPieces sep value).map (WireOption.mk number)

/-- One option for each segment. -/
def ofSegments (number : Nat) (segments : Segments) : List WireOption :=
  segments.map fun s => ⟨number, s.bytes⟩

end Coap.WireOption
