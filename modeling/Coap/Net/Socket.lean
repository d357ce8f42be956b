import Coap.Net.Address

namespace Coap

/-- What a socket says to a datagram that is sent. -/
inductive SendReply where
  | accepted
  | wouldBlock
  | fault (code : UInt32)
  deriving DecidableEq, Repr

/-- What a socket has to receive: a datagram, with the length that the socket claims for it, or a
fault. -/
inductive Arrival where
  | datagram (bytes : Bytes) (claimed : Nat) (sender : Address)
  | fault (code : UInt32)
  deriving DecidableEq, Repr

/-- A buffer after bytes were copied to its front; what does not fit is lost. -/
def fill (buffer bytes : Bytes) : Bytes :=
  bytes.take buffer.length ++ buffer.drop bytes.length

end Coap
