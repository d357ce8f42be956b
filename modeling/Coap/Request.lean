import Coap.Message.Options
import Coap.Uri

namespace Coap

/-- The request methods. -/
inductive Method where
  | get
  | post
  | put
  | delete
  deriving DecidableEq, Repr

def Method.code : Method → Code
  | get => .get
  | post => .post
  | put => .put
  | delete => .delete

/-- What is said about a request beside its target. -/
inductive RequestStep where
  | confirmable
  | nonConfirmable
  | payload (bytes : Bytes)
  | contentFormat (f : ContentFormat)
  | accept (f : ContentFormat)
  | block2 (num : UInt32)

namespace Request

/-- Sets Uri-Host, Uri-Port, Uri-Path and Uri-Query from a URI. An address literal, the port of the
scheme, and an empty path or query are left out. -/
def target (m : Message) (uri : Uri) : Except SetError Message := do
  let m ← match uri.host with
    | some host => if uri.isAddressLiteral then pure m else m.setUriHost (utf8 host)
    | none => pure m
  let m := if uri.isDefaultPort then m else m.setUriPort uri.port
  let m ← if uri.path.isEmpty then pure m else m.setSegments .uriPath (utf8 uri.path)
  match uri.query with
  | some query => if query.isEmpty then pure m else m.setSegments .uriQuery (utf8 query)
  | none => pure m

def step (m : Message) : RequestStep → Except SetError Message
  | .confirmable => .ok { m with type := .confirmable }
  | .nonConfirmable => .ok { m with type := .nonConfirmable }
  | .payload bytes => .ok (m.setPayload bytes)
  | .contentFormat f => .ok (m.setContentFormat f)
  | .accept f => m.addAccept f.number
  | .block2 num => do m.setBlock2 (← Block.ofParts num false (UInt16.ofNat maxChunkSize))

/-- The request for a URI, confirmable unless a step says otherwise; the first setter that fails
gives the error. -/
def build (method : Method) (uri : Uri) (steps : List RequestStep) (id : UInt16) (token : Token) :
    Except SetError Message := do
  let m ← target (.new .confirmable method.code 0) uri
  let m ← steps.foldlM step m
  return { m with id, token }

end Request

end Coap
