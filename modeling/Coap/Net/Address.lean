import Coap.Bytes
import Coap.Net.Dotted
import Coap.Text.Quoted

namespace Coap

/-- The address of a peer. -/
inductive Address where
  | v4 (octets : Vector UInt8 4) (port : UInt16)
  | v6 (groups : Vector UInt16 8) (port : UInt16) (flow scope : UInt32)
  deriving DecidableEq, Repr

namespace Address

/-- Dotted decimal or bracketed groups, a colon, and the port. -/
def text : Address → String
  | v4 octets port =>
    ".".intercalate (octets.toList.map fun (b : UInt8) => toString b.toNat) ++ s!":{port}"
  | v6 groups port _ _ =>
    let digits := groups.toList.map fun (g : UInt16) => String.ofList (Text.hexDigits g.toNat)
    "[" ++ ":".intercalate digits ++ s!"]:{port}"

/-- The address that a dotted text with a port stands for. -/
def ofText? (s : String) : Option Address :=
  match Separated.pieces ':' s.toList with
  | [host, port] =>
    if port.isEmpty || !port.all Char.isDigit || 65535 < Text.decimal port then none
    else (Dotted.address? host).map fun octets => v4 octets (UInt16.ofNat (Text.decimal port))
  | _ => none

end Address

/-- An address as the host's sockets give it: the octets in network order. -/
inductive HostAddress where
  | v4 (octets : Vector UInt8 4) (port : UInt16)
  | v6 (octets : Vector UInt8 16) (port : UInt16) (flow scope : UInt32)
  deriving DecidableEq, Repr

namespace Address

/-- The octets of eight groups, the high octet of each group first. -/
def octetsOfGroups (groups : Vector UInt16 8) : Vector UInt8 16 :=
  Vector.ofFn fun (i : Fin 16) =>
    if i.val % 2 = 0 then (groups[i.val / 2] >>> 8).toUInt8 else groups[i.val / 2].toUInt8

def groupsOfOctets (octets : Vector UInt8 16) : Vector UInt16 8 :=
  Vector.ofFn fun (i : Fin 8) => octets[2 * i.val].toUInt16 <<< 8 ||| octets[2 * i.val + 1].toUInt16

def ofHost : HostAddress → Address
  | .v4 octets port => v4 octets port
  | .v6 octets port flow scope => v6 (groupsOfOctets octets) port flow scope

def toHost : Address → HostAddress
  | v4 octets port => .v4 octets port
  | v6 groups port flow scope => .v6 (octetsOfGroups groups) port flow scope

end Address

end Coap
