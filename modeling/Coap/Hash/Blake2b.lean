import Coap.Bytes
import Coap.Square

namespace Coap.Blake2b

abbrev Words := Square UInt64

def rotateRight (x : UInt64) (n : UInt64) : UInt64 := x >>> n ||| x <<< (64 - n)

/-- The initial chain value: the fractional bits of the square roots of the first eight primes. -/
def initial : Vector UInt64 8 :=
  ⟨#[0x6a09e667f3bcc908, 0xbb67ae8584caa73b, 0x3c6ef372fe94f82b, 0xa54ff53a5f1d36f1,
    0x510e527fade682d1, 0x9b05688c2b3e6c1f, 0x1f83d9abfb41bd6b, 0x5be0cd19137e2179], rfl⟩

/-- The pairs in which a round takes the words of the message block, for ten rounds. -/
def schedule : List (Vector (Fin 16 × Fin 16) 8) :=
  [⟨#[(0, 1), (2, 3), (4, 5), (6, 7), (8, 9), (10, 11), (12, 13), (14, 15)], rfl⟩,
    ⟨#[(14, 10), (4, 8), (9, 15), (13, 6), (1, 12), (0, 2), (11, 7), (5, 3)], rfl⟩,
    ⟨#[(11, 8), (12, 0), (5, 2), (15, 13), (10, 14), (3, 6), (7, 1), (9, 4)], rfl⟩,
    ⟨#[(7, 9), (3, 1), (13, 12), (11, 14), (2, 6), (5, 10), (4, 0), (15, 8)], rfl⟩,
    ⟨#[(9, 0), (5, 7), (2, 4), (10, 15), (14, 1), (11, 12), (6, 8), (3, 13)], rfl⟩,
    ⟨#[(2, 12), (6, 10), (0, 11), (8, 3), (4, 13), (7, 5), (15, 14), (1, 9)], rfl⟩,
    ⟨#[(12, 5), (1, 15), (14, 13), (4, 10), (0, 7), (6, 3), (9, 2), (8, 11)], rfl⟩,
    ⟨#[(13, 11), (7, 14), (12, 1), (3, 9), (5, 0), (15, 4), (8, 6), (2, 10)], rfl⟩,
    ⟨#[(6, 15), (14, 9), (11, 3), (0, 8), (12, 2), (13, 7), (1, 4), (10, 5)], rfl⟩,
    ⟨#[(10, 2), (8, 4), (7, 6), (1, 5), (15, 11), (9, 14), (3, 12), (13, 0)], rfl⟩]

/-- Mixes two message words into four of the working words. -/
def mix (v : Words) (a b c d : Fin 16) (x y : UInt64) : Words :=
  let v := Square.put v a (v.get a + v.get b + x)
  let v := Square.put v d (rotateRight (v.get d ^^^ v.get a) 32)
  let v := Square.put v c (v.get c + v.get d)
  let v := Square.put v b (rotateRight (v.get b ^^^ v.get c) 24)
  let v := Square.put v a (v.get a + v.get b + y)
  let v := Square.put v d (rotateRight (v.get d ^^^ v.get a) 16)
  let v := Square.put v c (v.get c + v.get d)
  Square.put v b (rotateRight (v.get b ^^^ v.get c) 63)

/-- One round, which takes the words of the message block in pairs. -/
def round (m : Words) (v : Words) (order : Vector (Fin 16 × Fin 16) 8) : Words :=
  Square.mixAll (fun i v a b c d => mix v a b c d (m.get (order.get i).1) (m.get (order.get i).2)) v

/-- Takes one block of sixteen words into the chain value. The count is that of the bytes so far;
twelve rounds run through the schedule and its first two orders once more. -/
def compress (h : Vector UInt64 8) (block : Words) (count : Nat) (last : Bool) : Vector UInt64 8 :=
  let v : Words := h ++ initial
  let v := v.set 12 (v[12] ^^^ UInt64.ofNat count)
  let v := v.set 13 (v[13] ^^^ UInt64.ofNat (count / UInt64.size))
  let v := if last then v.set 14 (~~~v[14]) else v
  let v := (schedule ++ schedule.take 2).foldl (round block) v
  Vector.ofFn fun (i : Fin 8) => h[i] ^^^ v[i.val] ^^^ v[i.val + 8]

/-- Eight bytes as a word, the first byte lowest; missing bytes are zero. -/
def word (bytes : Bytes) : UInt64 :=
  (bytes.take 8).foldr (fun b n => n <<< 8 ||| b.toUInt64) 0

/-- The words of a block of 128 bytes, padded with zeros. -/
def words (block : Bytes) : Words := Vector.ofFn fun (i : Fin 16) => word (block.drop (8 * i))

/-- Takes all bytes into the chain value, block by block; the last block may be short or empty. -/
def absorb (h : Vector UInt64 8) (count : Nat) (bytes : Bytes) : Vector UInt64 8 :=
  match _h : bytes.drop 128 with
  | [] => compress h (words bytes) (count + bytes.length) true
  | b :: rest =>
    absorb (compress h (words (bytes.take 128)) (count + 128) false) (count + 128) (b :: rest)
termination_by bytes.length
decreasing_by
  have := congrArg List.length _h
  simp only [List.length_drop, List.length_cons] at this
  simp only [List.length_cons]
  omega

def octets (x : UInt64) : Bytes := (BigEndian.octets x).reverse

/-- The digest of eight bytes without a key. -/
def digest (bytes : Bytes) : Bytes :=
  let parameters : UInt64 := 0x01010008
  octets (absorb (initial.set 0 (initial[0] ^^^ parameters)) 0 bytes)[0]

theorem length_digest (bytes : Bytes) : (digest bytes).length = 8 := by
  simp [digest, octets, BigEndian.octets]

end Coap.Blake2b
