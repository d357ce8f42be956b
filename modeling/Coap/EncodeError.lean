import Coap.Code
import Coap.Limits

namespace Coap

/-- Why a message or an option cannot be written. -/
inductive EncodeError where
  | bufferTooSmall (capacity size : Nat)
  | optionTooLarge (field : Nat)
  | optionsOutOfOrder (prev number : Nat)
  | localCode (code : Code)
  | invalidCode (code : Code)
  deriving DecidableEq, Repr

namespace EncodeError

def message : EncodeError → String
  | bufferTooSmall capacity size => s!"buffer of {capacity} bytes cannot hold {size} bytes"
  | optionTooLarge field => s!"option length or delta {field} larger than {maxField}"
  | optionsOutOfOrder prev number => s!"option {number} written after option {prev}"
  | localCode code => "local code " ++ code.text ++ " may not be serialized"
  | invalidCode code => "code " ++ code.describe ++ " does not fit in one byte"

end EncodeError

end Coap
