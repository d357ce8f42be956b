import Coap.Registry

namespace Coap

/-- A set of known options: one bit of the word for each option number. -/
structure OptionSet where
  bits : BitVec 64
  deriving DecidableEq, Repr

namespace OptionSet

def empty : OptionSet := ⟨0⟩

def contains (s : OptionSet) (o : KnownOption) : Bool := s.bits.getLsbD o.number

def insert (s : OptionSet) (o : KnownOption) : OptionSet := ⟨s.bits ||| BitVec.twoPow 64 o.number⟩

def erase (s : OptionSet) (o : KnownOption) : OptionSet := ⟨s.bits &&& ~~~BitVec.twoPow 64 o.number⟩

/-- The options of the set in ascending order of their numbers. -/
def toList (s : OptionSet) : List KnownOption := KnownOption.all.filter s.contains

/-- The number of bits that are set. -/
def size (s : OptionSet) : Nat := (List.range 64).countP s.bits.getLsbD

def isEmpty (s : OptionSet) : Bool := s.bits == 0

end OptionSet

end Coap
