import Coap.Engine.Transaction
import Coap.Message.Decode

namespace Coap

/-- How a transaction ends: with the answer of its peer, or without. -/
inductive Outcome where
  | response (m : Message)
  | timeout

namespace Outcome

def name : Outcome → String
  | response _ => "response"
  | timeout => "timeout"

end Outcome

/-- A message on one line: kind, type, code, id, token, and the amount of options and payload. -/
def Message.summary (m : Message) : String :=
  let payload := match m.payload with
    | some p => p.length
    | none => 0
  m.code.kind.name ++ ": " ++ m.type.name ++ " " ++ m.code.text ++ s!" id {m.id} token "
    ++ Text.bracketed (m.token.bytes.map Text.hexByte)
    ++ s!" with {m.present.size} options, {payload} byte payload"

inductive LogLevel where
  | warn
  | debug
  | trace
  deriving DecidableEq, Repr

namespace LogLevel

def name : LogLevel → String
  | warn => "WARN"
  | debug => "DEBUG"
  | trace => "TRACE"

end LogLevel

/-- What is worth a line in the log. -/
inductive LogEntry where
  | created (id : UInt16) (peer : Address)
  | sent (id : UInt16) (type : MessageType) (peer : Address)
  | retransmission (id count : UInt16)
  | retransmissionFailed (id : UInt16) (cause : TransmitError)
  | abandoned (id : UInt16) (peer : Address) (count : UInt16)
  | completed (id : UInt16) (response : Message)
  | unexpected (response : Message)
  | cleared (id : UInt16)
  | unobserved (id : UInt16) (outcome : Outcome)
  | decoding (note : DecodeNote)

namespace LogEntry

def level : LogEntry → LogLevel
  | created .. | sent .. | retransmission .. | completed .. | cleared .. => .debug
  | retransmissionFailed .. | abandoned .. => .warn
  | unexpected .. | unobserved .. | decoding .. => .trace

def text : LogEntry → String
  | created id peer => s!"transaction {id} created for " ++ peer.text
  | sent id type peer => s!"transaction {id} sent " ++ type.name ++ " to " ++ peer.text
  | retransmission id count => s!"transaction {id} retransmission \x23{count}"
  | retransmissionFailed id cause => s!"transaction {id} retransmission failed: " ++ cause.describe
  | abandoned id peer count =>
    s!"transaction {id} to " ++ peer.text ++ s!" abandoned after {count} retransmissions"
  | completed id response => s!"transaction {id} completed by " ++ response.summary
  | unexpected response => "no transaction for " ++ response.summary
  | cleared id => s!"transaction {id} cleared"
  | unobserved id outcome => s!"transaction {id} finished unobserved: " ++ Text.quote outcome.name
  | decoding note => note.text

def line (e : LogEntry) : String := e.level.name ++ " " ++ e.text

end LogEntry

end Coap
