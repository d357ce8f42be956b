import Coap.Block
import Coap.Code
import Coap.MessageType
import Coap.OptionSet
import Coap.Segment
import Coap.Token

namespace Coap

/-- A message: header, token, one slot for each known option, and a payload. A slot counts only
while its option is in `present`. -/
structure Message where
  id : UInt16
  type : MessageType
  version : UInt8
  token : Token
  code : Code
  present : OptionSet
  ifMatch : Bytes
  uriHost : Segment
  etag : Bytes
  observe : UInt32
  uriPort : UInt16
  locationPath : Segments
  uriPath : Segments
  contentType : UInt16
  maxAge : UInt32
  uriQuery : Segments
  accept : List UInt16
  locationQuery : Segments
  block2 : Block
  block1 : Block
  bodySize : UInt32
  proxyUri : Segment
  payload : Option Segment

namespace Message

def new (type : MessageType) (code : Code) (id : UInt16) : Message where
  id
  type
  version := protocolVersion
  token := .empty
  code
  present := .empty
  ifMatch := []
  uriHost := .empty
  etag := []
  observe := 0
  uriPort := 0
  locationPath := []
  uriPath := []
  contentType := 0
  maxAge := 0
  uriQuery := []
  accept := []
  locationQuery := []
  block2 := ⟨0⟩
  block1 := ⟨0⟩
  bodySize := 0
  proxyUri := .empty
  payload := none

/-- The empty acknowledgement of a message. -/
def ack (m : Message) : Message := { new .acknowledgement .empty m.id with token := m.token }

/-- The empty message that rejects a message. -/
def reset (m : Message) : Message := { new .reset .empty m.id with token := m.token }

def has (m : Message) (o : KnownOption) : Bool := m.present.contains o

def own (m : Message) : Message :=
  { m with
    uriHost := m.uriHost.own
    locationPath := m.locationPath.own
    uriPath := m.uriPath.own
    uriQuery := m.uriQuery.own
    locationQuery := m.locationQuery.own
    proxyUri := m.proxyUri.own
    payload := m.payload.map Segment.own }

/-- Messages are equal when all fields are, the slots of absent options included; text values are
compared by content. -/
instance : BEq Message where
  beq m n :=
    m.id == n.id && m.type == n.type && m.version == n.version && m.token == n.token &&
    m.code == n.code && m.present == n.present && m.ifMatch == n.ifMatch &&
    m.uriHost == n.uriHost && m.etag == n.etag && m.observe == n.observe &&
    m.uriPort == n.uriPort && m.locationPath == n.locationPath && m.uriPath == n.uriPath &&
    m.contentType == n.contentType && m.maxAge == n.maxAge && m.uriQuery == n.uriQuery &&
    m.accept == n.accept && m.locationQuery == n.locationQuery && m.block2 == n.block2 &&
    m.block1 == n.block1 && m.bodySize == n.bodySize && m.proxyUri == n.proxyUri &&
    m.payload == n.payload

end Message

/-- The options whose values are lists of segments. -/
inductive SegmentOption where
  | locationPath
  | uriPath
  | uriQuery
  | locationQuery
  deriving DecidableEq, Repr

namespace SegmentOption

def toKnown : SegmentOption → KnownOption
  | locationPath => .locationPath
  | uriPath => .uriPath
  | uriQuery => .uriQuery
  | locationQuery => .locationQuery

/-- Paths are split at slashes, queries at ampersands. -/
def separator : SegmentOption → UInt8
  | locationPath | uriPath => 0x2F
  | uriQuery | locationQuery => 0x26

end SegmentOption

namespace Message

def segments (m : Message) : SegmentOption → Segments
  | .locationPath => m.locationPath
  | .uriPath => m.uriPath
  | .uriQuery => m.uriQuery
  | .locationQuery => m.locationQuery

def putSegments (m : Message) (s : Segments) : SegmentOption → Message
  | .locationPath => { m with locationPath := s }
  | .uriPath => { m with uriPath := s }
  | .uriQuery => { m with uriQuery := s }
  | .locationQuery => { m with locationQuery := s }

end Message

end Coap
