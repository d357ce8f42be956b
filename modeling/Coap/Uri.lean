import Coap.Limits
import Coap.Net.Dotted

namespace Coap

structure Uri where
  /-- Whether the scheme was `coaps`. -/
  secure : Bool
  /-- Host name in lower case or address literal, with brackets if it had them; none for a path. -/
  host : Option String
  port : UInt16
  path : String
  query : Option String
  deriving DecidableEq, Repr

/-- Why a text is no URI: it cannot be understood from this byte on. -/
inductive UriError where
  | malformed (position : Nat)
  deriving DecidableEq, Repr

def UriError.message : UriError → String
  | malformed position => s!"malformed uri at byte {position}"

namespace Uri

def utf8Length (s : List Char) : Nat := s.foldr (fun c n => c.utf8Size + n) 0

/-- The text after a word, which may stand in any case of ASCII letters. -/
def dropFolded : List Char → List Char → Option (List Char)
  | [], s => some s
  | _ :: _, [] => none
  | w :: word, c :: s => if c.toLower == w then dropFolded word s else none

/-- Whether the scheme is the secure one, and the text after it. -/
def scheme? (s : List Char) : Option (Bool × List Char) :=
  match dropFolded "coaps://".toList s with
  | some rest => some (true, rest)
  | none => (dropFolded "coap://".toList s).map (Prod.mk false)

def schemePort (secure : Bool) : UInt16 := if secure then defaultSecurePort else defaultPort

/-- The host and the text after it. A bracketed host ends with the first closing bracket, any other
before the first colon, slash or question mark and is not empty. A defect is given as the text from
there on, here and below. -/
def takeHost (s : List Char) : Except (List Char) (List Char × List Char) :=
  if s.head? = some '[' then
    match s.dropWhile (· != ']') with
    | [] => .error []
    | close :: rest => .ok (s.takeWhile (· != ']') ++ [close], rest)
  else
    let inHost := fun c => c != ':' && c != '/' && c != '?'
    match s.takeWhile inHost with
    | [] => .error s
    | c :: host => .ok (c :: host, s.dropWhile inHost)

/-- The port and the text after it: a colon and digits, or the default without a colon or digits. -/
def takePort (default : UInt16) : List Char → Except (List Char) (UInt16 × List Char)
  | ':' :: s =>
    match s.takeWhile Char.isDigit with
    | [] => .ok (default, s)
    | d :: digits =>
      if 65535 < Text.decimal (d :: digits) then .error s
      else .ok (UInt16.ofNat (Text.decimal (d :: digits)), s.dropWhile Char.isDigit)
  | s => .ok (default, s)

/-- Path and query: the path starts with a slash and ends before the first question mark. -/
def takePath : List Char → Except (List Char) (List Char × Option (List Char))
  | [] => .ok ([], none)
  | '/' :: s =>
    .ok (s.takeWhile (· != '?'), match s.dropWhile (· != '?') with
      | [] => none
      | _ :: query => some query)
  | '?' :: query => .ok ([], some query)
  | s => .error s

/-- Takes a text apart that starts with a scheme; also gives the text with its host in lower case.
-/
def splitAfterScheme (s : List Char) : Except (List Char) (Uri × List Char) :=
  match scheme? s with
  | none => .error s
  | some (secure, afterScheme) => do
    let (host, afterHost) ← takeHost afterScheme
    let (port, afterPort) ← takePort (schemePort secure) afterHost
    let (path, query) ← takePath afterPort
    let host := host.map Char.toLower
    let scheme := s.take (s.length - afterScheme.length)
    return ({ secure, host := some (String.ofList host), port, path := String.ofList path,
              query := query.map String.ofList },
            scheme ++ host ++ afterHost)

/-- Takes a text apart. One that starts with a slash is a path and perhaps a query. -/
def splitChars (s : List Char) : Except (List Char) (Uri × List Char) :=
  if s.head? = some '/' then do
    let (path, query) ← takePath s
    return ({ secure := false, host := none, port := schemePort false, path := String.ofList path,
              query := query.map String.ofList }, s)
  else splitAfterScheme s

/-- A URI or the reason why there is none, and the text afterwards. -/
structure Split where
  text : String
  uri : Except UriError Uri

/-- Takes a text apart and puts its host into lower case. A text that is no URI stays as it is. -/
def split (text : String) : Split :=
  match splitChars text.toList with
  | .ok (uri, after) => ⟨String.ofList after, .ok uri⟩
  | .error rest => ⟨text, .error (.malformed (utf8Length text.toList - utf8Length rest))⟩

def isAddressLiteral (uri : Uri) : Bool :=
  uri.host.any fun host => host.toList.head? == some '[' || (Dotted.address? host.toList).isSome

def isDefaultPort (uri : Uri) : Bool := uri.port == schemePort uri.secure

end Uri

end Coap
