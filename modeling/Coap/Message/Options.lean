import Coap.ContentFormat
import Coap.Message.Basic

namespace Coap

namespace Message

def get? {α : Type} (m : Message) (o : KnownOption) (value : α) : Option α :=
  if m.has o then some value else none

def ifMatch? (m : Message) : Option Bytes := m.get? .ifMatch m.ifMatch
def uriHost? (m : Message) : Option Segment := m.get? .uriHost m.uriHost
def etag? (m : Message) : Option Bytes := m.get? .etag m.etag
def observeValue? (m : Message) : Option UInt32 := m.get? .observe m.observe
def uriPort? (m : Message) : Option UInt16 := m.get? .uriPort m.uriPort
def contentType? (m : Message) : Option UInt16 := m.get? .contentType m.contentType
def contentFormat? (m : Message) : Option ContentFormat := m.contentType?.map .ofNumber
def maxAge? (m : Message) : Option UInt32 := m.get? .maxAge m.maxAge
def accept? (m : Message) : Option (List UInt16) := m.get? .accept m.accept
def block2? (m : Message) : Option Block := m.get? .block2 m.block2
def block1? (m : Message) : Option Block := m.get? .block1 m.block1
def bodySize? (m : Message) : Option UInt32 := m.get? .size m.bodySize
def proxyUri? (m : Message) : Option Segment := m.get? .proxyUri m.proxyUri

def mark (m : Message) (o : KnownOption) (set : Bool) : Message :=
  { m with present := if set then m.present.insert o else m.present.erase o }

/-- Puts the value of a new message into an option's slot. -/
def clearSlot (m : Message) : KnownOption → Message
  | .ifMatch => { m with ifMatch := [] }
  | .uriHost => { m with uriHost := .empty }
  | .etag => { m with etag := [] }
  | .ifNoneMatch => m
  | .observe => { m with observe := 0 }
  | .uriPort => { m with uriPort := 0 }
  | .locationPath => { m with locationPath := [] }
  | .uriPath => { m with uriPath := [] }
  | .contentType => { m with contentType := 0 }
  | .maxAge => { m with maxAge := 0 }
  | .uriQuery => { m with uriQuery := [] }
  | .accept => { m with accept := [] }
  | .locationQuery => { m with locationQuery := [] }
  | .block2 => { m with block2 := ⟨0⟩ }
  | .block1 => { m with block1 := ⟨0⟩ }
  | .size => { m with bodySize := 0 }
  | .proxyUri => { m with proxyUri := .empty }

/-- A message with an option removed equals one that never had it. -/
def remove (m : Message) (o : KnownOption) : Message := (m.mark o false).clearSlot o

def setToken (m : Message) (bytes : Bytes) : Except SetError Message :=
  match Token.ofBytes? bytes with
  | some token => .ok { m with token }
  | none => .error (.tokenTooLong bytes.length)

/-- Payloads are cut to one chunk; an empty one removes the payload. -/
def setPayload (m : Message) (bytes : Bytes) : Message :=
  match bytes.take maxChunkSize with
  | [] => { m with payload := none }
  | b :: rest => { m with payload := some (.borrowed (b :: rest)) }

def setContentType (m : Message) (n : UInt16) : Message :=
  { m with contentType := n }.mark .contentType true

def setContentFormat (m : Message) (f : ContentFormat) : Message := m.setContentType f.number

def setMaxAge (m : Message) (seconds : UInt32) : Message :=
  { m with maxAge := seconds }.mark .maxAge true

def setUriPort (m : Message) (port : UInt16) : Message :=
  { m with uriPort := port }.mark .uriPort true

def setBodySize (m : Message) (n : UInt32) : Message := { m with bodySize := n }.mark .size true

def setIfNoneMatch (m : Message) (set : Bool) : Message := m.mark .ifNoneMatch set

def setEtag (m : Message) (bytes : Bytes) : Except SetError Message := do
  KnownOption.etag.checkLength bytes.length
  return { m with etag := bytes }.mark .etag true

def setIfMatch (m : Message) (bytes : Bytes) : Except SetError Message := do
  KnownOption.ifMatch.checkLength bytes.length
  return { m with ifMatch := bytes }.mark .ifMatch true

def setUriHost (m : Message) (text : Bytes) : Except SetError Message := do
  KnownOption.uriHost.checkLength text.length
  return { m with uriHost := .borrowed text }.mark .uriHost true

def setProxyUri (m : Message) (text : Bytes) : Except SetError Message := do
  KnownOption.proxyUri.checkLength text.length
  return { m with proxyUri := .borrowed text }.mark .proxyUri true

def setObserve (m : Message) (n : UInt32) : Except SetError Message := do
  KnownOption.observe.checkLength (BigEndian.minimalLength n)
  return { m with observe := n }.mark .observe true

def setBlock1 (m : Message) (b : Block) : Except SetError Message := do
  KnownOption.block1.checkLength (BigEndian.minimalLength b.raw)
  return { m with block1 := b }.mark .block1 true

def setBlock2 (m : Message) (b : Block) : Except SetError Message := do
  KnownOption.block2.checkLength (BigEndian.minimalLength b.raw)
  return { m with block2 := b }.mark .block2 true

def addAccept (m : Message) (n : UInt16) : Except SetError Message :=
  if maxAccept ≤ m.accept.length then .error .acceptFull
  else .ok ({ m with accept := m.accept ++ [n] }.mark .accept true)

/-- Replaces the segments of an option by the pieces of a text; no piece, no option. -/
def setSegments (m : Message) (o : SegmentOption) (text : Bytes) : Except SetError Message := do
  let segments := Segments.split text o.separator
  segments.forM fun s => o.toKnown.checkLength s.length
  return (m.putSegments segments o).mark o.toKnown (!segments.isEmpty)

def addSegment (m : Message) (o : SegmentOption) (text : Bytes) : Except SetError Message := do
  o.toKnown.checkLength text.length
  return (m.putSegments (m.segments o ++ [.borrowed text]) o).mark o.toKnown true

/-- Sets Location-Path from the text before the first question mark and Location-Query from the text
after it. A query that is refused leaves the path set. -/
def setLocation (m : Message) (text : Bytes) : Message × Option SetError :=
  match m.setSegments .locationPath (text.takeWhile (· != 0x3F)) with
  | .error e => (m, some e)
  | .ok m =>
    match text.dropWhile (· != 0x3F) with
    | [] => (m, none)
    | _ :: query =>
      match m.setSegments .locationQuery query with
      | .error e => (m, some e)
      | .ok m => (m, none)

/-- Name and value of a pair, parted by its first equals sign. -/
def splitPair (pair : Bytes) : Option (Bytes × Bytes) :=
  match pair.dropWhile (· != 0x3D) with
  | [] => none
  | _ :: value => some (pair.takeWhile (· != 0x3D), value)

def findVariable (pairs : List Bytes) (name : Bytes) : Option Bytes :=
  ((pairs.filterMap splitPair).find? (·.1 == name)).map (·.2)

def queryVariable (m : Message) (name : Bytes) : Option Bytes :=
  findVariable (m.uriQuery.map Segment.bytes) name

def postVariable (m : Message) (name : Bytes) : Option Bytes :=
  m.payload.bind fun p => findVariable (Separated.trimmedPieces 0x26 p.bytes) name

end Message

/-- A change to a message, as data. -/
inductive Edit where
  | token (bytes : Bytes)
  | payload (bytes : Bytes)
  | contentType (n : UInt16)
  | maxAge (seconds : UInt32)
  | etag (bytes : Bytes)
  | ifMatch (bytes : Bytes)
  | ifNoneMatch (set : Bool)
  | uriHost (text : Bytes)
  | uriPort (port : UInt16)
  | observe (n : UInt32)
  | bodySize (n : UInt32)
  | accept (n : UInt16)
  | proxyUri (text : Bytes)
  | block1 (b : Block)
  | block2 (b : Block)
  | segments (o : SegmentOption) (text : Bytes)
  | segment (o : SegmentOption) (text : Bytes)
  | location (text : Bytes)
  | remove (o : KnownOption)
  | code (c : Code)
  | type (t : MessageType)
  | id (n : UInt16)
  | version (n : UInt8)
  | own

namespace Message

/-- The message that a setter makes, or the old one with the setter's error. -/
def settle (m : Message) : Except SetError Message → Message × Option SetError
  | .ok m => (m, none)
  | .error e => (m, some e)

def edit (m : Message) : Edit → Message × Option SetError
  | .token bytes => m.settle (m.setToken bytes)
  | .payload bytes => (m.setPayload bytes, none)
  | .contentType n => (m.setContentType n, none)
  | .maxAge n => (m.setMaxAge n, none)
  | .etag bytes => m.settle (m.setEtag bytes)
  | .ifMatch bytes => m.settle (m.setIfMatch bytes)
  | .ifNoneMatch set => (m.setIfNoneMatch set, none)
  | .uriHost text => m.settle (m.setUriHost text)
  | .uriPort port => (m.setUriPort port, none)
  | .observe n => m.settle (m.setObserve n)
  | .bodySize n => (m.setBodySize n, none)
  | .accept n => m.settle (m.addAccept n)
  | .proxyUri text => m.settle (m.setProxyUri text)
  | .block1 b => m.settle (m.setBlock1 b)
  | .block2 b => m.settle (m.setBlock2 b)
  | .segments o text => m.settle (m.setSegments o text)
  | .segment o text => m.settle (m.addSegment o text)
  | .location text => m.setLocation text
  | .remove o => (m.remove o, none)
  | .code c => ({ m with code := c }, none)
  | .type t => ({ m with type := t }, none)
  | .id n => ({ m with id := n }, none)
  | .version n => ({ m with version := n }, none)
  | .own => (m.own, none)

end Message

end Coap
