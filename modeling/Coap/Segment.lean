import Coap.Bytes
import Coap.Separated
import Coap.Text.Quoted

namespace Coap

/-- One piece of a text value, with whether the message holds its own copy of the bytes. -/
inductive Segment where
  | borrowed (bytes : Bytes)
  | owned (bytes : Bytes)
  deriving Repr

namespace Segment

def bytes : Segment → Bytes
  | borrowed b => b
  | owned b => b

def isBorrowed : Segment → Bool
  | borrowed _ => true
  | owned _ => false

def length (s : Segment) : Nat := s.bytes.length

def isEmpty (s : Segment) : Bool := s.bytes.isEmpty

def own (s : Segment) : Segment := owned s.bytes

/-- The value of an absent text option. -/
def empty : Segment := borrowed []

/-- Segments are compared by content alone. -/
instance : BEq Segment := ⟨fun s t => s.bytes == t.bytes⟩

def text? (s : Segment) : Option String := String.fromUTF8? ⟨s.bytes.toArray⟩

/-- The content as text in quotes, or as a list of numbers if it is not UTF-8. -/
def describe (s : Segment) : String :=
  let content := match s.text? with
    | some t => Text.quote t
    | none => Text.bracketed (s.bytes.map fun (b : UInt8) => toString b.toNat)
  if s.isBorrowed then s!"Borrowed({content})" else s!"Owned({content})"

end Segment

/-- The values of a repeatable text option, in order. -/
abbrev Segments := List Segment

namespace Segments

/-- Splits a value at the separator; leading separators and one trailing separator make no piece. -/
def split (value : Bytes) (sep : UInt8) : Segments :=
  (Separated.trimmedPieces sep value).map .borrowed

theorem map_bytes_split (value : Bytes) (sep : UInt8) :
    (split value sep).map Segment.bytes = Separated.trimmedPieces sep value := by
  rw [split, List.map_map]
  exact List.map_id _

def join (s : Segments) (sep : UInt8) : Bytes := [sep].intercalate (s.map Segment.bytes)

def own (s : Segments) : Segments := s.map Segment.own

def describe (s : Segments) : String := Text.bracketed (s.map Segment.describe)

end Segments

end Coap
