import Coap.EncodeError

namespace Coap

/-- What a write into a buffer leaves: the bytes now at its front, the room behind them with what
the buffer held there before, and the fault that ended the write early, if one did. What was written
before the fault stays. -/
structure Written where
  bytes : Bytes
  room : Bytes
  fault : Option EncodeError
  deriving DecidableEq, Repr

namespace Written

def nothing (room : Bytes) : Written := ⟨[], room, none⟩

def failed (room : Bytes) (e : EncodeError) : Written := ⟨[], room, some e⟩

/-- A write of bytes, all of them or nothing. -/
def put (bytes room : Bytes) : Written :=
  if (room.take bytes.length).length < bytes.length then
    failed room (.bufferTooSmall room.length bytes.length)
  else ⟨bytes, room.drop bytes.length, none⟩

/-- Goes on with the next write, into the room that is left, unless there was a fault. -/
def andThen (w : Written) (next : Bytes → Written) : Written :=
  match w.fault with
  | none =>
    let after := next w.room
    ⟨w.bytes ++ after.bytes, after.room, after.fault⟩
  | some _ => w

def buffer (w : Written) : Bytes := w.bytes ++ w.room

end Written

end Coap
