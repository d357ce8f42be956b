import Coap.Square

namespace Coap

/-- A stream of numbers from a key of eight words, and how many words have been taken from it. -/
structure ChaCha where
  key : Vector UInt32 8
  position : Nat
  deriving DecidableEq, Repr

namespace ChaCha

abbrev Words := Square UInt32

def rotateLeft (x n : UInt32) : UInt32 := x <<< n ||| x >>> (32 - n)

def rotateRight (x n : UInt32) : UInt32 := x >>> n ||| x <<< (32 - n)

def quarter (v : Words) (a b c d : Fin 16) : Words :=
  let v := Square.put v a (v.get a + v.get b)
  let v := Square.put v d (rotateLeft (v.get d ^^^ v.get a) 16)
  let v := Square.put v c (v.get c + v.get d)
  let v := Square.put v b (rotateLeft (v.get b ^^^ v.get c) 12)
  let v := Square.put v a (v.get a + v.get b)
  let v := Square.put v d (rotateLeft (v.get d ^^^ v.get a) 8)
  let v := Square.put v c (v.get c + v.get d)
  Square.put v b (rotateLeft (v.get b ^^^ v.get c) 7)

def doubleRound (v : Words) : Words := Square.mixAll (fun _ => quarter) v

/-- What a block starts from: the constant "expand 32-byte k", the key, and the block's number. -/
def start (key : Vector UInt32 8) (block : UInt64) : Words :=
  let constant : Vector UInt32 4 := #v[0x61707865, 0x3320646e, 0x79622d32, 0x6b206574]
  let counter : Vector UInt32 4 := #v[block.toUInt32, (block >>> 32).toUInt32, 0, 0]
  constant ++ key ++ counter

/-- A block of the stream with eight rounds. -/
def block (key : Vector UInt32 8) (n : UInt64) : Words :=
  let v := start key n
  v.zipWith (· + ·) (doubleRound (doubleRound (doubleRound (doubleRound v))))

/-- The word of the stream at a position. -/
def word (key : Vector UInt32 8) (position : Nat) : UInt32 :=
  (block key (UInt64.ofNat (position / 16))).get ⟨position % 16, Nat.mod_lt _ (by decide)⟩

/-- The next two words as one number, the first one lowest. -/
def next (c : ChaCha) : UInt64 × ChaCha :=
  ((word c.key c.position).toUInt64 ||| (word c.key (c.position + 1)).toUInt64 <<< 32,
    { c with position := c.position + 2 })

def seedStep (state : UInt64) : UInt64 := state * 6364136223846793005 + 11634580027462260723

/-- The word that a state of the seed gives: a middle part of it, rotated by its top five bits. -/
def seedWord (state : UInt64) : UInt32 :=
  rotateRight (((state >>> 18) ^^^ state) >>> 27).toUInt32 (state >>> 59).toUInt32

/-- The first words of the sequence that a seed starts. -/
def seedWords (seed : UInt64) : Nat → List UInt32
  | 0 => []
  | n + 1 => seedWord (seedStep seed) :: seedWords (seedStep seed) n

theorem length_seedWords (seed : UInt64) (n : Nat) : (seedWords seed n).length = n := by
  induction n generalizing seed with
  | zero => rfl
  | succ n ih => simp [seedWords, ih]

def ofSeed (seed : UInt64) : ChaCha :=
  ⟨⟨(seedWords seed 8).toArray, length_seedWords seed 8⟩, 0⟩

end ChaCha

end Coap
