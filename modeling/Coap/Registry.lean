namespace Coap

inductive ValueFormat where
  | empty
  | octets
  | uint
  | text
  deriving DecidableEq, Repr

namespace ValueFormat

def name : ValueFormat → String
  | empty => "Empty"
  | octets => "Opaque"
  | uint => "Uint"
  | text => "String"

end ValueFormat

/-- The options that are understood, in ascending order of their numbers. -/
inductive KnownOption where
  | ifMatch
  | uriHost
  | etag
  | ifNoneMatch
  | observe
  | uriPort
  | locationPath
  | uriPath
  | contentType
  | maxAge
  | uriQuery
  | accept
  | locationQuery
  | block2
  | block1
  | size
  | proxyUri
  deriving DecidableEq, Ord, Repr

namespace KnownOption

def number : KnownOption → Nat
  | ifMatch => 1
  | uriHost => 3
  | etag => 4
  | ifNoneMatch => 5
  | observe => 6
  | uriPort => 7
  | locationPath => 8
  | uriPath => 11
  | contentType => 12
  | maxAge => 14
  | uriQuery => 15
  | accept => 16
  | locationQuery => 20
  | block2 => 23
  | block1 => 27
  | size => 28
  | proxyUri => 35

def all : List KnownOption :=
  [ifMatch, uriHost, etag, ifNoneMatch, observe, uriPort, locationPath, uriPath, contentType,
    maxAge, uriQuery, accept, locationQuery, block2, block1, size, proxyUri]

def ofNumber? (n : Nat) : Option KnownOption := all.find? (·.number == n)

def name : KnownOption → String
  | ifMatch => "IfMatch"
  | uriHost => "UriHost"
  | etag => "ETag"
  | ifNoneMatch => "IfNoneMatch"
  | observe => "Observe"
  | uriPort => "UriPort"
  | locationPath => "LocationPath"
  | uriPath => "UriPath"
  | contentType => "ContentType"
  | maxAge => "MaxAge"
  | uriQuery => "UriQuery"
  | accept => "Accept"
  | locationQuery => "LocationQuery"
  | block2 => "Block2"
  | block1 => "Block1"
  | size => "Size"
  | proxyUri => "ProxyUri"

def format : KnownOption → ValueFormat
  | ifMatch | etag => .octets
  | ifNoneMatch => .empty
  | observe | uriPort | contentType | maxAge | accept | block2 | block1 | size => .uint
  | uriHost | locationPath | uriPath | uriQuery | locationQuery | proxyUri => .text

def minLength : KnownOption → Nat
  | uriHost | etag | locationQuery | proxyUri => 1
  | _ => 0

def maxLength : KnownOption → Nat
  | ifMatch | etag => 8
  | ifNoneMatch => 0
  | observe | block2 | block1 => 3
  | uriPort | contentType | accept => 2
  | maxAge | size => 4
  | uriHost | locationPath | uriPath => 255
  | uriQuery | locationQuery | proxyUri => 270

/-- Whether a message may carry the option more than once. -/
def repeatable : KnownOption → Bool
  | locationPath | uriPath | uriQuery | accept | locationQuery => true
  | _ => false

def admits (o : KnownOption) (length : Nat) : Bool := o.minLength ≤ length && length ≤ o.maxLength

end KnownOption

/-- Odd option numbers are critical: a receiver that does not know one rejects the message. -/
def isCritical (number : Nat) : Bool := number % 2 == 1

def maxOptionNumber : Nat := UInt32.size - 1

end Coap
