import Coap.Separated

namespace Coap

/-- The value of decimal digits. -/
def Text.decimal (digits : List Char) : Nat := digits.foldl (fun n c => 10 * n + (c.toNat - 48)) 0

namespace Dotted

/-- A part of a dotted address: one to three digits, at most 255, no leading zero. -/
def part? (s : List Char) : Option UInt8 :=
  if !s.isEmpty && s.length ≤ 3 && s.all Char.isDigit && Text.decimal s ≤ 255
      && (s.length == 1 || s.head? != some '0') then
    some (UInt8.ofNat (Text.decimal s))
  else none

/-- Four parts between dots. -/
def address? (s : List Char) : Option (Vector UInt8 4) :=
  match (Separated.pieces '.' s).map part? with
  | [some a, some b, some c, some d] => some ⟨#[a, b, c, d], rfl⟩
  | _ => none

end Dotted

end Coap
