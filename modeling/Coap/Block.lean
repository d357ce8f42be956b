import Coap.SetError

namespace Coap

/-- The value of a block option: block number, whether more follow, and the size exponent. -/
structure Block where
  raw : UInt32
  deriving DecidableEq, Ord, Repr

namespace Block

/-- The largest block number: twenty bits. -/
def maxNum : UInt32 := 0xFFFFF

def num (b : Block) : UInt32 := b.raw >>> 4

def more (b : Block) : Bool := b.raw &&& 8 != 0

/-- The bytes in a block: sixteen times two to the exponent. -/
def size (b : Block) : UInt16 := 16 <<< (b.raw &&& 7).toUInt16

/-- Where the block starts in the whole body. -/
def offset (b : Block) : UInt64 := b.num.toUInt64 * b.size.toUInt64

/-- A block of the largest admitted size that is not above the given one. -/
def ofParts (num : UInt32) (more : Bool) (size : UInt16) : Except SetError Block :=
  if maxNum < num then .error (.blockNumberTooLarge num)
  else if size < 16 || 2048 < size then .error (.blockSize size)
  else
    let exponent := UInt32.ofNat (size / 16).toNat.log2
    .ok ⟨num <<< 4 ||| (if more then 8 else 0) ||| exponent⟩

end Block

end Coap
