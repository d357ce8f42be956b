import Coap.WireOption.Basic

namespace Coap

/-- What is wrong with an option in a datagram. -/
inductive OptionError where
  | endOfStream
  | reservedDelta (nibble : Nat)
  | reservedLength (nibble : Nat)
  | unrecognizedCritical (number : Nat)
  | valueLength (number length : Nat)
  | numberOverflow
  deriving DecidableEq, Repr

namespace OptionError

def message : OptionError → String
  | endOfStream => "datagram ended inside an option"
  | reservedDelta nibble => s!"option delta nibble {nibble} is reserved"
  | reservedLength nibble => s!"option length nibble {nibble} is reserved"
  | unrecognizedCritical number => s!"unrecognized critical option {number}"
  | valueLength number length => s!"option {number} may not be {length} bytes long"
  | numberOverflow => "option number overflowed"

end OptionError

namespace WireOption

/-- A delta or length from its four bits and the extension bytes that they ask for; also the bytes
that follow. -/
def readField (nibble : Nat) (reserved : OptionError) (src : Bytes) :
    Except OptionError (Nat × Bytes) :=
  if nibble = 15 then .error reserved
  else if nibble = 14 then
    match src with
    | high :: low :: rest => .ok (269 + 256 * high.toNat + low.toNat, rest)
    | _ => .error .endOfStream
  else if nibble = 13 then
    match src with
    | b :: rest => .ok (13 + b.toNat, rest)
    | [] => .error .endOfStream
  else .ok (nibble, src)

/-- The option whose head byte has been taken, and the bytes after it. -/
def readAfterHead (prev : Nat) (head : UInt8) (src : Bytes) :
    Except OptionError (WireOption × Bytes) := do
  let (delta, src) ← readField (head.toNat / 16) (.reservedDelta 15) src
  let (length, src) ← readField (head.toNat % 16) (.reservedLength 15) src
  if (src.take length).length < length then .error .endOfStream
  else if maxOptionNumber < prev + delta then .error .numberOverflow
  else .ok (⟨prev + delta, src.take length⟩, src.drop length)

/-- The option at the start of the bytes, after option number `prev`, and the bytes after it. There
is none at the end of the bytes or at the payload marker. -/
def read (prev : Nat) : Bytes → Except OptionError (Option (WireOption × Bytes))
  | [] => .ok none
  | head :: src =>
    if head = payloadMarker then .ok none else (readAfterHead prev head src).map some

theorem readField_length_le {nibble : Nat} {reserved : OptionError} {src rest : Bytes} {n : Nat}
    (h : readField nibble reserved src = .ok (n, rest)) : rest.length ≤ src.length := by
  unfold readField at h
  split at h
  next => cases h
  next =>
    split at h
    next =>
      split at h
      next => cases h; simp; omega
      next => cases h
    next =>
      split at h
      next =>
        split at h
        next => cases h; simp
        next => cases h
      next => cases h; exact Nat.le_refl _

theorem readAfterHead_length_le {prev : Nat} {head : UInt8} {src rest : Bytes} {o : WireOption}
    (h : readAfterHead prev head src = .ok (o, rest)) : rest.length ≤ src.length := by
  unfold readAfterHead at h
  cases hd : readField (head.toNat / 16) (.reservedDelta 15) src with
  | error e => simp [hd, bind, Except.bind] at h
  | ok d =>
    obtain ⟨delta, src₁⟩ := d
    cases hl : readField (head.toNat % 16) (.reservedLength 15) src₁ with
    | error e => simp [hd, hl, bind, Except.bind] at h
    | ok l =>
      obtain ⟨length, src₂⟩ := l
      simp only [hd, hl, bind, Except.bind] at h
      have h₁ := readField_length_le hd
      have h₂ := readField_length_le hl
      split at h
      next => cases h
      next =>
        split at h
        next => cases h
        next => cases h; simp; omega

/-- An option takes at least its head. -/
theorem read_length_lt {prev : Nat} {src rest : Bytes} {o : WireOption}
    (h : read prev src = .ok (some (o, rest))) : rest.length < src.length := by
  cases src with
  | nil => cases h
  | cons head src =>
    simp only [read] at h
    split at h
    next => cases h
    next =>
      cases hr : readAfterHead prev head src with
      | error e => rw [hr] at h; cases h
      | ok p =>
        rw [hr] at h
        cases h
        have hl := readAfterHead_length_le hr
        simp only [List.length_cons]
        omega

/-- A walk over consecutive options: those that were read, the bytes where it stopped, and the
defect that stopped it, if it was not the end of the options. -/
structure Walk where
  options : List WireOption
  rest : Bytes
  defect : Option OptionError
  deriving DecidableEq, Repr

/-- Reads option after option, each with the number of the one before it. -/
def walk (prev : Nat) (src : Bytes) : Walk :=
  match _h : read prev src with
  | .ok none => ⟨[], src, none⟩
  | .error e => ⟨[], src, some e⟩
  | .ok (some (o, rest)) =>
    let w := walk o.number rest
    { w with options := o :: w.options }
termination_by src.length
decreasing_by exact read_length_lt _h

end WireOption

end Coap
