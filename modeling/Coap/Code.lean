import Coap.Bytes

namespace Coap

/-- A message code, written `class.detail`: a method for requests, a status for responses. -/
structure Code where
  /-- The class: 0 for requests, 2 success, 4 client error, 5 server error, 6 local failures. -/
  family : UInt8
  detail : UInt8
  deriving DecidableEq, Ord, Repr

inductive CodeKind where
  | empty
  | request
  | response
  deriving DecidableEq, Repr

namespace CodeKind

def name : CodeKind → String
  | empty => "Empty"
  | request => "Request"
  | response => "Response"

end CodeKind

namespace Code

def kind (c : Code) : CodeKind :=
  if c.family = 0 then if c.detail = 0 then .empty else .request else .response

/-- Class 6 reports failures to the sender itself; such a code never goes on the wire. -/
def isLocal (c : Code) : Bool := c.family == 6

/-- Whether class and detail fit in the three and five bits that the wire has for them. -/
def fitsByte (c : Code) : Bool := c.family ≤ 7 && c.detail ≤ 31

def toByte (c : Code) : UInt8 := c.family <<< 5 ||| c.detail

def ofByte (b : UInt8) : Code := ⟨b >>> 5, b &&& 31⟩

def digit (n : UInt8) : Char := if n < 10 then Char.ofNat (48 + n.toNat) else '?'

/-- Class, point, and two digits of detail, such as `4.04`. -/
def text (c : Code) : String :=
  String.ofList [digit c.family, '.', digit (c.detail / 10), digit (c.detail % 10)]

def describe (c : Code) : String :=
  s!"Code \x7b class: {c.family}, detail: {c.detail} \x7d"

def empty : Code := ⟨0, 0⟩
def get : Code := ⟨0, 1⟩
def post : Code := ⟨0, 2⟩
def put : Code := ⟨0, 3⟩
def delete : Code := ⟨0, 4⟩
def created : Code := ⟨2, 1⟩
def deleted : Code := ⟨2, 2⟩
def valid : Code := ⟨2, 3⟩
def changed : Code := ⟨2, 4⟩
def content : Code := ⟨2, 5⟩
def badRequest : Code := ⟨4, 0⟩
def unauthorized : Code := ⟨4, 1⟩
def badOption : Code := ⟨4, 2⟩
def forbidden : Code := ⟨4, 3⟩
def notFound : Code := ⟨4, 4⟩
def methodNotAllowed : Code := ⟨4, 5⟩
def notAcceptable : Code := ⟨4, 6⟩
def preconditionFailed : Code := ⟨4, 12⟩
def requestEntityTooLarge : Code := ⟨4, 13⟩
def unsupportedMediaType : Code := ⟨4, 15⟩
def internalServerError : Code := ⟨5, 0⟩
def notImplemented : Code := ⟨5, 1⟩
def badGateway : Code := ⟨5, 2⟩
def serviceUnavailable : Code := ⟨5, 3⟩
def gatewayTimeout : Code := ⟨5, 4⟩
def proxyingNotSupported : Code := ⟨5, 5⟩
def memoryAllocationError : Code := ⟨6, 0⟩
def packetSerializationError : Code := ⟨6, 1⟩

def named : List (String × Code) :=
  [("EMPTY", empty), ("GET", get), ("POST", post), ("PUT", put), ("DELETE", delete),
    ("CREATED", created), ("DELETED", deleted), ("VALID", valid), ("CHANGED", changed),
    ("CONTENT", content), ("BAD_REQUEST", badRequest), ("UNAUTHORIZED", unauthorized),
    ("BAD_OPTION", badOption), ("FORBIDDEN", forbidden), ("NOT_FOUND", notFound),
    ("METHOD_NOT_ALLOWED", methodNotAllowed), ("NOT_ACCEPTABLE", notAcceptable),
    ("PRECONDITION_FAILED", preconditionFailed),
    ("REQUEST_ENTITY_TOO_LARGE", requestEntityTooLarge),
    ("UNSUPPORTED_MEDIA_TYPE", unsupportedMediaType),
    ("INTERNAL_SERVER_ERROR", internalServerError), ("NOT_IMPLEMENTED", notImplemented),
    ("BAD_GATEWAY", badGateway), ("SERVICE_UNAVAILABLE", serviceUnavailable),
    ("GATEWAY_TIMEOUT", gatewayTimeout), ("PROXYING_NOT_SUPPORTED", proxyingNotSupported),
    ("MEMORY_ALLOCATION_ERROR", memoryAllocationError),
    ("PACKET_SERIALIZATION_ERROR", packetSerializationError)]

end Code

end Coap
