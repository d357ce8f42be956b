import Coap.Proofs.BlockFields
import Coap.Proofs.EditOutcome
import Coap.Proofs.RoundTrip
import Mathlib.Order.Bounds.Defs

namespace Coap

namespace Block

variable {num : UInt32} {more : Bool} {size : UInt16} {b : Block}

/-- A block says what it is made of. Its size is the largest power of two that is not above the one
that was asked for, and as many blocks of that size are before it as its number says. -/
structure Holds (b : Block) (num : UInt32) (more : Bool) (size : UInt16) : Prop where
  num_eq : b.num = num
  more_eq : b.more = more
  size_greatest : IsGreatest {p | (∃ e, p = 2 ^ e) ∧ p ≤ size.toNat} b.size.toNat
  offset_eq : b.offset.toNat = num.toNat * b.size.toNat

theorem isGreatest_two_pow_log2 {n : Nat} (hn : n ≠ 0) :
    IsGreatest {p | (∃ e, p = 2 ^ e) ∧ p ≤ n} (2 ^ n.log2) := by
  refine ⟨⟨⟨n.log2, rfl⟩, Nat.log2_self_le hn⟩, ?_⟩
  rintro _ ⟨⟨e, rfl⟩, he⟩
  exact Nat.pow_le_pow_right (by decide) ((Nat.le_log2 hn).mpr he)

theorem holds_of_ofParts (hb : ofParts num more size = .ok b) : b.Holds num more size := by
  obtain ⟨hnum, hlow, hhigh⟩ := exists_ofParts_iff.mp ⟨b, hb⟩
  obtain ⟨made, hmade, hn, hm, hs⟩ := ofParts_fields hnum hlow hhigh more
  obtain rfl : b = made := Except.ok.inj (hb.symm.trans hmade)
  refine ⟨hn, hm, ?_, ?_⟩
  · rw [hs]
    exact isGreatest_two_pow_log2 (by omega)
  · rw [toNat_offset, hn]

end Block

/-- The options whose values are blocks. -/
inductive BlockOption where
  | block1
  | block2
  deriving DecidableEq, Repr

namespace BlockOption

def toKnown : BlockOption → KnownOption
  | block1 => .block1
  | block2 => .block2

/-- The change that sets the option. -/
def set : BlockOption → Block → Edit
  | block1 => .block1
  | block2 => .block2

def get? : BlockOption → Message → Option Block
  | block1 => Message.block1?
  | block2 => Message.block2?

variable {m : Message} {b : Block}

theorem value?_set (o : BlockOption) (b : Block) :
    (o.set b).value? = some (o.toKnown, BigEndian.minimal b.raw) := by
  cases o <;> rfl

/-- A block is taken if it fits in three bytes. -/
theorem edit_set_eq_none_iff {o : BlockOption} :
    (m.edit (o.set b)).2 = none ↔ b.raw.toNat < 2 ^ 24 := by
  have hadmits : o.toKnown.admits (BigEndian.minimal b.raw).length = true ↔
      (BigEndian.minimal b.raw).length ≤ 3 := by
    cases o <;> exact decide_eq_true_iff
  have haccept : o.toKnown ≠ .accept := by cases o <;> decide
  rw [Message.refused_of_value (o.value?_set b), Message.refusal?_eq_none_iff, hadmits,
    BigEndian.length_minimal_le_three]
  simp [haccept]

theorem get?_edit_set {o : BlockOption} (h : (m.edit (o.set b)).2 = none) :
    o.get? (m.edit (o.set b)).1 = some b := by
  have hput := Message.edit_of_taken (o.value?_set b) h
  have hhas : (m.put o.toKnown (BigEndian.minimal b.raw)).has o.toKnown = true := by
    rw [Message.has_put, if_pos rfl]
  have hvalue : (⟨Message.uintOf (BigEndian.minimal b.raw)⟩ : Block) = b := by
    rw [Message.uintOf_minimal]
  rw [hput]
  cases o with
  | block1 | block2 => exact (if_pos hhas).trans (congrArg some hvalue)

/-- Reading a message back gives its blocks back. -/
theorem get?_of_returns {n : Message} (hm : m.Coherent) (hn : m.Returns n) (o : BlockOption) :
    o.get? n = o.get? m := by
  rw [hm.eq_of_returns hn]
  cases o <;> rfl

/-- A block can be made of twenty bits for its number and a size from 16 to 2048; a number that is
too large is found before a size that is not in the range. The block says what it is made of, and
every message takes it. The blocks that a message carries are those that are read back, if the
message may be sent. And of all words those below 2 ^ 24 are taken as blocks, but no word has a
number, a size or an offset that leaves its type. -/
theorem block_survives_wire :
    (∀ (num : UInt32) (more : Bool) (size : UInt16),
      ((∃ b, Block.ofParts num more size = .ok b) ↔
        num.toNat ≤ 0xFFFFF ∧ 16 ≤ size.toNat ∧ size.toNat ≤ 2048) ∧
      (∀ e, Block.ofParts num more size = .error e ↔
        0xFFFFF < num.toNat ∧ e = .blockNumberTooLarge num ∨
        num.toNat ≤ 0xFFFFF ∧ (size.toNat < 16 ∨ 2048 < size.toNat) ∧ e = .blockSize size) ∧
      ∀ b, Block.ofParts num more size = .ok b → b.Holds num more size ∧
        ∀ (o : BlockOption) (m : Message),
          (m.edit (o.set b)).2 = none ∧ o.get? (m.edit (o.set b)).1 = some b) ∧
    (∀ m : Message, m.Reachable →
      ((∃ n, m.Returns n) ↔
        m.version.toNat % 4 = 1 ∧ m.code.fitsByte = true ∧ m.code.isLocal = false) ∧
      ∀ n, m.Returns n → ∀ o : BlockOption, o.get? n = o.get? m) ∧
    ∀ b : Block, b.num.toNat = b.raw.toNat / 16 ∧ b.size.toNat = 2 ^ (4 + b.raw.toNat % 8) ∧
      b.offset.toNat = b.num.toNat * b.size.toNat ∧
      ∀ (o : BlockOption) (m : Message), (m.edit (o.set b)).2 = none ↔ b.raw.toNat < 2 ^ 24 := by
  refine ⟨fun num more size => ⟨Block.exists_ofParts_iff, fun e => Block.ofParts_eq_error_iff,
    fun b hb => ⟨Block.holds_of_ofParts hb, fun o m => ?_⟩⟩, fun m hm => ⟨?_, fun n hn o => ?_⟩,
    fun b => ⟨b.toNat_num, b.toNat_size, b.toNat_offset, fun o m => edit_set_eq_none_iff⟩⟩
  · have htaken : (m.edit (o.set b)).2 = none :=
      edit_set_eq_none_iff.mpr (Block.raw_lt_of_ofParts hb)
    exact ⟨htaken, get?_edit_set htaken⟩
  · exact hm.coherent.exists_returns_iff
  · exact get?_of_returns hm.coherent hn o

/-- The largest number, with a size that is rounded down. -/
theorem block_survives_wire_largest :
    let b : Block := ⟨0xFFFFFE⟩
    let m := ((Message.new .confirmable .get 7).edit (.block1 b)).1
    Block.ofParts 0xFFFFF true 2047 = .ok b ∧ b.Holds 0xFFFFF true 2047 ∧ m.block1? = some b ∧
      (∃ n, m.Returns n ∧ n.block1? = some b) ∧
      (m.edit (.block2 ⟨0x1000000⟩)).2 ≠ none := by
  intro b m
  have hb : Block.ofParts 0xFFFFF true 2047 = .ok b := by decide
  obtain ⟨hparts, hreturns, hwords⟩ := block_survives_wire
  obtain ⟨_, _, hmade⟩ := hparts 0xFFFFF true 2047
  obtain ⟨hholds, hset⟩ := hmade b hb
  obtain ⟨_, hm⟩ := hset .block1 (.new .confirmable .get 7)
  obtain ⟨hsent, hsame⟩ := hreturns m (.edited (.new .confirmable .get 7) (.block1 b))
  obtain ⟨n, hn⟩ := hsent.mpr (by decide)
  obtain ⟨_, _, _, hword⟩ := hwords ⟨0x1000000⟩
  refine ⟨hb, hholds, hm, ⟨n, hn, (hsame n hn .block1).trans hm⟩, fun h => ?_⟩
  exact absurd ((hword .block2 m).mp h) (by decide)

end BlockOption

end Coap
