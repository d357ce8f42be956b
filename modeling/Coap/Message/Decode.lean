import Coap.Message.Options
import Coap.WireOption.Read

namespace Coap

/-- What is wrong with the fixed header or the token of a datagram. -/
inductive HeaderError where
  | tooShort (length : Nat)
  | unsupportedVersion (version : UInt8)
  | tokenLength (length : Nat)
  | truncatedToken
  deriving DecidableEq, Repr

namespace HeaderError

def message : HeaderError → String
  | tooShort length => s!"datagram of {length} bytes is shorter than the header"
  | unsupportedVersion version => s!"unsupported protocol version {version}"
  | tokenLength length => s!"token length {length} is greater than {maxTokenLength}"
  | truncatedToken => "datagram ended inside the token"

end HeaderError

/-- Why a datagram is no message. -/
inductive DecodeError where
  | header (e : HeaderError)
  | option (e : OptionError)
  | emptyPayload
  deriving DecidableEq, Repr

namespace DecodeError

def message : DecodeError → String
  | header e => "malformed header: " ++ e.message
  | option e => "bad option: " ++ e.message
  | emptyPayload => "payload marker was not followed by a payload"

/-- The code that answers such a datagram. -/
def status : DecodeError → Code
  | option _ => .badOption
  | header _ | emptyPayload => .badRequest

end DecodeError

/-- What decoding passes over without an error. -/
inductive DecodeNote where
  | ignoredElective (number : Nat)
  | ignoredAccept
  deriving DecidableEq, Repr

namespace DecodeNote

def text : DecodeNote → String
  | ignoredElective number => s!"ignoring unrecognized elective option {number}"
  | ignoredAccept => s!"ignoring Accept beyond the first {maxAccept}"

end DecodeNote

/-- What is wrong with an option that was read: it is not known but critical, or the length of its
value is not in the range of its number. An unknown option that is not critical has no defect. -/
def WireOption.defect? (o : WireOption) : Option OptionError :=
  match KnownOption.ofNumber? o.number with
  | none => if isCritical o.number then some (.unrecognizedCritical o.number) else none
  | some known =>
    if known.admits o.value.length then none
    else some (.valueLength o.number o.value.length)

namespace Message

/-- The values that a series of options gives to a known one, in order. -/
def valuesOf (options : List WireOption) (o : KnownOption) : List Bytes :=
  (options.filter (·.number == o.number)).map (·.value)

/-- The value that counts for an option that is not repeatable: the last one. -/
def lastOf (options : List WireOption) (o : KnownOption) : Bytes :=
  (valuesOf options o).getLast?.getD []

def uintOf (value : Bytes) : UInt32 := UInt32.ofNat (BigEndian.value value)

/-- Fills the slots of a message from a series of options: a list of segments takes every value, the
Accept list the first ones, any other slot the last one. A known option that occurs is present. -/
def withOptions (m : Message) (options : List WireOption) : Message :=
  { m with
    present := (options.filterMap fun o => KnownOption.ofNumber? o.number).foldl .insert .empty
    ifMatch := lastOf options .ifMatch
    uriHost := .borrowed (lastOf options .uriHost)
    etag := lastOf options .etag
    observe := uintOf (lastOf options .observe)
    uriPort := (uintOf (lastOf options .uriPort)).toUInt16
    locationPath := (valuesOf options .locationPath).map .borrowed
    uriPath := (valuesOf options .uriPath).map .borrowed
    contentType := (uintOf (lastOf options .contentType)).toUInt16
    maxAge := uintOf (lastOf options .maxAge)
    uriQuery := (valuesOf options .uriQuery).map .borrowed
    accept := ((valuesOf options .accept).take maxAccept).map fun value => (uintOf value).toUInt16
    locationQuery := (valuesOf options .locationQuery).map .borrowed
    block2 := ⟨uintOf (lastOf options .block2)⟩
    block1 := ⟨uintOf (lastOf options .block1)⟩
    bodySize := uintOf (lastOf options .size)
    proxyUri := .borrowed (lastOf options .proxyUri) }

/-- The notes of taking a series of options in, up to the first defective one, after some Accept
values have been taken. -/
def optionNotes (accepted : Nat) : List WireOption → List DecodeNote
  | [] => []
  | o :: rest =>
    if o.defect?.isSome then []
    else match KnownOption.ofNumber? o.number with
      | none => .ignoredElective o.number :: optionNotes accepted rest
      | some .accept =>
        if accepted < maxAccept then optionNotes (accepted + 1) rest
        else .ignoredAccept :: optionNotes accepted rest
      | some _ => optionNotes accepted rest

/-- Reads the fixed header and the token; also gives the bytes after them. -/
def decodeHeader (datagram : Bytes) : Except HeaderError (Message × Bytes) :=
  match datagram with
  | head :: code :: idHigh :: idLow :: rest =>
    let version := head >>> 6
    let tokenLength := (head &&& 15).toNat
    if version ≠ protocolVersion then .error (.unsupportedVersion version)
    else if maxTokenLength < tokenLength then .error (.tokenLength tokenLength)
    else if rest.length < tokenLength then .error .truncatedToken
    else match Token.ofBytes? (rest.take tokenLength) with
      | none => .error .truncatedToken
      | some token =>
        let id := idHigh.toUInt16 <<< 8 ||| idLow.toUInt16
        let m := new (.ofBits (head >>> 4 &&& 3)) (.ofByte code) id
        .ok ({ m with token }, rest.drop tokenLength)
  | _ => .error (.tooShort datagram.length)

/-- What comes after the options: nothing, or the marker and at least one byte of payload. -/
def decodePayload (m : Message) : Bytes → Except DecodeError Message
  | [] => .ok m
  | [_] => .error .emptyPayload
  | _ :: payload => .ok { m with payload := some (.borrowed payload) }

/-- Reads a datagram. Of several defects the first in reading order is reported: an option is judged
before the next one is read. -/
def decode (datagram : Bytes) : Except DecodeError Message := do
  let (m, rest) ← (decodeHeader datagram).mapError .header
  let walk := WireOption.walk 0 rest
  match (walk.options.findSome? WireOption.defect?).or walk.defect with
  | some e => .error (.option e)
  | none => (m.withOptions walk.options).decodePayload walk.rest

/-- The notes of reading a datagram, in reading order. -/
def decodeNotes (datagram : Bytes) : List DecodeNote :=
  match decodeHeader datagram with
  | .error _ => []
  | .ok (_, rest) => optionNotes 0 (WireOption.walk 0 rest).options

end Message

end Coap
