import Coap.Message.Basic
import Coap.WireOption.Write

namespace Coap.Message

/-- The values that the slot of an option writes, in order. -/
def values (m : Message) : KnownOption → List Bytes
  | .ifMatch => [m.ifMatch]
  | .uriHost => [m.uriHost.bytes]
  | .etag => [m.etag]
  | .ifNoneMatch => [[]]
  | .observe => [BigEndian.minimal m.observe]
  | .uriPort => [BigEndian.minimal m.uriPort.toUInt32]
  | .locationPath => m.locationPath.map Segment.bytes
  | .uriPath => m.uriPath.map Segment.bytes
  | .contentType => [BigEndian.minimal m.contentType.toUInt32]
  | .maxAge => [BigEndian.minimal m.maxAge]
  | .uriQuery => m.uriQuery.map Segment.bytes
  | .accept => m.accept.map fun n => BigEndian.minimal n.toUInt32
  | .locationQuery => m.locationQuery.map Segment.bytes
  | .block2 => [BigEndian.minimal m.block2.raw]
  | .block1 => [BigEndian.minimal m.block1.raw]
  | .size => [BigEndian.minimal m.bodySize]
  | .proxyUri => [m.proxyUri.bytes]

/-- The lengths of those values, without making them. -/
def valueLengths (m : Message) : KnownOption → List Nat
  | .ifMatch => [m.ifMatch.length]
  | .uriHost => [m.uriHost.length]
  | .etag => [m.etag.length]
  | .ifNoneMatch => [0]
  | .observe => [BigEndian.minimalLength m.observe]
  | .uriPort => [BigEndian.minimalLength m.uriPort.toUInt32]
  | .locationPath => m.locationPath.map Segment.length
  | .uriPath => m.uriPath.map Segment.length
  | .contentType => [BigEndian.minimalLength m.contentType.toUInt32]
  | .maxAge => [BigEndian.minimalLength m.maxAge]
  | .uriQuery => m.uriQuery.map Segment.length
  | .accept => m.accept.map fun n => BigEndian.minimalLength n.toUInt32
  | .locationQuery => m.locationQuery.map Segment.length
  | .block2 => [BigEndian.minimalLength m.block2.raw]
  | .block1 => [BigEndian.minimalLength m.block1.raw]
  | .size => [BigEndian.minimalLength m.bodySize]
  | .proxyUri => [m.proxyUri.length]

/-- Number and length of every value that a message holds, in ascending order of the numbers. -/
def valueSizes (m : Message) : List (Nat × Nat) :=
  m.present.toList.flatMap fun o => (m.valueLengths o).map (Prod.mk o.number)

/-- The exact number of bytes that a message is written in. -/
def encodedLength (m : Message) : Nat :=
  4 + m.token.length + WireOption.sizes 0 m.valueSizes
    + match m.payload with
      | none => 0
      | some p => 1 + p.length

def header (m : Message) : Bytes :=
  [m.version <<< 6 ||| m.type.bits <<< 4 ||| UInt8.ofNat m.token.length, m.code.toByte,
    (m.id >>> 8).toUInt8, m.id.toUInt8]

def trailer (m : Message) : Bytes :=
  match m.payload with
  | none => []
  | some p => payloadMarker :: p.bytes

/-- Writes the values of some options, ascending by number whatever order they were set in. What
follows an option counts from its number, also when its slot holds no value. -/
def writeSlots (m : Message) (prev : Nat) : List KnownOption → Bytes → Written
  | [], room => .nothing room
  | o :: rest, room =>
    (WireOption.writeAll prev ((m.values o).map (WireOption.mk o.number)) room).andThen
      (m.writeSlots o.number rest)

/-- Writes a message at the front of a buffer. Nothing is written unless all of it fits. -/
def writeTo (m : Message) (buffer : Bytes) : Written :=
  if !m.code.fitsByte then .failed buffer (.invalidCode m.code)
  else if m.code.isLocal then .failed buffer (.localCode m.code)
  else if buffer.length < m.encodedLength then
    .failed buffer (.bufferTooSmall buffer.length m.encodedLength)
  else
    (Written.put (m.header ++ m.token.bytes) buffer).andThen fun room =>
      (m.writeSlots 0 m.present.toList room).andThen (Written.put m.trailer)

/-- The bytes of a message, from a buffer of exactly its length. -/
def encode (m : Message) : Except EncodeError Bytes :=
  let w := m.writeTo (List.replicate m.encodedLength 0)
  match w.fault with
  | none => .ok w.bytes
  | some e => .error e

end Coap.Message
