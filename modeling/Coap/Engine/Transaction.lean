import Coap.Message.Encode
import Coap.Net.Socket
import Coap.Retry

namespace Coap

/-- Whether the message of a transaction has gone out. -/
inductive Progress where
  | created
  | sent
  deriving DecidableEq, Repr

namespace Progress

def name : Progress → String
  | created => "Created"
  | sent => "Sent"

end Progress

/-- Who is told about the end of a transaction: its owner, or nobody. -/
inductive Observer where
  | owner
  | nobody
  deriving DecidableEq, Repr

/-- A message on its way to a peer, from its creation to its answer or its end. The context is
handed to the socket with every datagram. -/
structure Transaction (κ : Type) where
  id : UInt16
  peer : Address
  type : MessageType
  progress : Progress
  /-- The datagram; empty before a message is set. -/
  wire : Bytes
  timer : Option RetryTimer
  context : κ
  observer : Observer

inductive TransmitError where
  | nothingToSend (id : UInt16)
  | wouldBlock
  | transport (code : UInt32)
  deriving DecidableEq, Repr

namespace TransmitError

def message : TransmitError → String
  | nothingToSend id => s!"transaction {id} has no message set"
  | wouldBlock => ""
  | transport code => s!"transport error: {code}"

def describe : TransmitError → String
  | nothingToSend id => s!"NothingToSend(Id({id}))"
  | wouldBlock => "WouldBlock"
  | transport code => s!"Transport({code})"

end TransmitError

/-- A datagram that was handed to the socket, and what the socket said to it. -/
structure Transmission (κ : Type) where
  context : κ
  peer : Address
  datagram : Bytes
  reply : SendReply

def SendReply.result : SendReply → Except TransmitError Unit
  | accepted => .ok ()
  | wouldBlock => .error .wouldBlock
  | fault code => .error (.transport code)

namespace Transaction

variable {κ : Type}

def new (id : UInt16) (peer : Address) (context : κ) (observer : Observer) : Transaction κ where
  id
  peer
  type := .confirmable
  progress := .created
  wire := []
  timer := none
  context
  observer

def relabel (id : UInt16) (datagram : Bytes) : Bytes :=
  datagram.take 2 ++ BigEndian.pair id ++ datagram.drop 4

/-- Takes a message for transmission, under the id of the transaction. -/
def setMessage (t : Transaction κ) (m : Message) : Except EncodeError (Transaction κ) :=
  let w := m.writeTo (List.replicate maxPacketSize 0)
  match w.fault with
  | some e => .error e
  | none => .ok { t with wire := relabel t.id w.bytes, type := m.type }

def setContext (t : Transaction κ) (context : κ) : Transaction κ := { t with context }

/-- How often the message was due to be sent again. -/
def retransmissions (t : Transaction κ) : UInt16 :=
  match t.timer with
  | some timer => timer.attempts
  | none => 0

def deadline? (c : Clock) (t : Transaction κ) : Option Instant := t.timer.bind (·.deadline? c)

/-- What is handed to the socket for a transmission: the datagram, if there is one. -/
def transmissions (t : Transaction κ) (reply : SendReply) : List (Transmission κ) :=
  if t.wire.isEmpty then [] else [⟨t.context, t.peer, t.wire, reply⟩]

def transmit (t : Transaction κ) (reply : SendReply) : Except TransmitError Unit :=
  if t.wire.isEmpty then .error (.nothingToSend t.id) else reply.result

def describe (c : Clock) (t : Transaction κ) : String :=
  let deadline := match (t.deadline? c).bind (·.millis? c) with
    | some ms => s!"Some({ms})"
    | none => "None"
  s!"Transaction \x7b id: Id({t.id}), peer: " ++ t.peer.text ++ ", ty: " ++ t.type.name
    ++ ", state: " ++ t.progress.name ++ s!", wire_len: {t.wire.length}"
    ++ s!", retransmissions: {t.retransmissions}, deadline_ms: {deadline} \x7d"

end Transaction

end Coap
