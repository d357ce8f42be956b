namespace Coap

/-- The four message types, non-confirmable first in their order. -/
inductive MessageType where
  | nonConfirmable
  | confirmable
  | acknowledgement
  | reset
  deriving DecidableEq, Ord, Repr

namespace MessageType

def name : MessageType → String
  | nonConfirmable => "Non"
  | confirmable => "Con"
  | acknowledgement => "Ack"
  | reset => "Reset"

/-- The two header bits of a type. -/
def bits : MessageType → UInt8
  | confirmable => 0
  | nonConfirmable => 1
  | acknowledgement => 2
  | reset => 3

def ofBits (b : UInt8) : MessageType :=
  if b = 0 then confirmable
  else if b = 1 then nonConfirmable
  else if b = 2 then acknowledgement
  else reset

/-- Acknowledgements and resets answer an earlier datagram by its id. -/
def isReply : MessageType → Bool
  | acknowledgement | reset => true
  | nonConfirmable | confirmable => false

end MessageType

end Coap
