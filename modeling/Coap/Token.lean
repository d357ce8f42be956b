import Coap.Hash.Blake2b
import Coap.Limits

namespace Coap

/-- Up to eight bytes by which a response is matched with its request. -/
structure Token where
  bytes : Bytes
  length_le : bytes.length ≤ maxTokenLength
  deriving DecidableEq

namespace Token

def empty : Token := ⟨[], by decide⟩

def ofBytes? (bytes : Bytes) : Option Token :=
  if h : bytes.length ≤ maxTokenLength then some ⟨bytes, h⟩ else none

def length (t : Token) : Nat := t.bytes.length

def isEmpty (t : Token) : Bool := t.bytes.isEmpty

/-- A full token that shows nothing of the bytes it was made from. -/
def digest (bytes : Bytes) : Token :=
  ⟨Blake2b.digest bytes, Nat.le_of_eq (Blake2b.length_digest bytes)⟩

/-- Tokens are ordered byte by byte, a shorter one before its continuations. -/
instance : Ord Token := ⟨fun s t => compare s.bytes t.bytes⟩

end Token

end Coap
