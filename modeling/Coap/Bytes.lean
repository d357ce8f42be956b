namespace Coap

/-- Byte strings, as datagrams, option values and tokens are made of. -/
abbrev Bytes := List UInt8

/-- The bytes of a text. -/
def utf8 (s : String) : Bytes := s.toUTF8.data.toList

namespace BigEndian

/-- The number whose base-256 digits, most significant first, are the bytes. -/
def value (bytes : Bytes) : Nat := bytes.foldl (fun n b => 256 * n + b.toNat) 0

/-- The two bytes of a 16-bit number. -/
def pair (n : UInt16) : Bytes := [(n >>> 8).toUInt8, n.toUInt8]

/-- The eight bytes of a 64-bit number. -/
def octets (n : UInt64) : Bytes :=
  [(n >>> 56).toUInt8, (n >>> 48).toUInt8, (n >>> 40).toUInt8, (n >>> 32).toUInt8,
    (n >>> 24).toUInt8, (n >>> 16).toUInt8, (n >>> 8).toUInt8, n.toUInt8]

/-- The fewest bytes that stand for a number: its four bytes without leading zeros, none for zero.
-/
def minimal (n : UInt32) : Bytes :=
  [(n >>> 24).toUInt8, (n >>> 16).toUInt8, (n >>> 8).toUInt8, n.toUInt8].dropWhile (· == 0)

/-- The number of bytes in the minimal form, from the size of the number alone. -/
def minimalLength (n : UInt32) : Nat :=
  if n < 1 then 0 else if n < 0x100 then 1 else if n < 0x10000 then 2
  else if n < 0x1000000 then 3 else 4

end BigEndian

end Coap
