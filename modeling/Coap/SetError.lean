import Coap.Limits
import Coap.Registry

namespace Coap

/-- Why a setter refuses a value. -/
inductive SetError where
  | valueTooLong (number length : Nat)
  | valueTooShort (number length : Nat)
  | acceptFull
  | blockNumberTooLarge (num : UInt32)
  | blockSize (size : UInt16)
  | tokenTooLong (length : Nat)
  deriving DecidableEq, Repr

namespace SetError

def message : SetError → String
  | valueTooLong number length => s!"value of length {length} too long for option {number}"
  | valueTooShort number length => s!"value of length {length} too short for option {number}"
  | acceptFull => s!"Accept already holds {maxAccept} values"
  | blockNumberTooLarge num => s!"block number {num} does not fit in 20 bits"
  | blockSize size => s!"block size {size} not in 16..=2048"
  | tokenTooLong length => s!"token of length {length} longer than {maxTokenLength}"

end SetError

/-- The rule of every setter: a value's length lies in its option's range. -/
def KnownOption.checkLength (o : KnownOption) (length : Nat) : Except SetError Unit :=
  if o.maxLength < length then .error (.valueTooLong o.number length)
  else if length < o.minLength then .error (.valueTooShort o.number length)
  else .ok ()

end Coap
