import Coap.Block
import Mathlib.Data.Nat.Bitwise

namespace Coap.Block

theorem toNat_num (b : Block) : b.num.toNat = b.raw.toNat / 16 := by
  rw [num, UInt32.toNat_shiftRight, Nat.shiftRight_eq_div_pow]
  rfl

theorem more_eq (b : Block) : b.more = decide (b.raw.toNat / 8 % 2 = 1) := by
  have hand : (b.raw &&& 8).toNat = 8 * (decide (b.raw.toNat / 8 % 2 = 1)).toNat := by
    rw [UInt32.toNat_and, Nat.and_comm, ← Nat.testBit_eq_decide_div_mod_eq (i := 3)]
    exact Nat.two_pow_and b.raw.toNat 3
  rw [more, Bool.eq_iff_iff, bne_iff_ne, Ne, ← UInt32.toNat_inj, hand]
  cases decide (b.raw.toNat / 8 % 2 = 1) <;> decide

theorem toNat_size (b : Block) : b.size.toNat = 2 ^ (4 + b.raw.toNat % 8) := by
  have hall : ∀ e : Fin 8,
      ((16 : UInt16) <<< (UInt32.ofNat e.val).toUInt16).toNat = 2 ^ (4 + e.val) := by
    decide
  have hand : (b.raw &&& 7).toNat = b.raw.toNat % 8 := by
    rw [UInt32.toNat_and]
    exact Nat.and_two_pow_sub_one_eq_mod b.raw.toNat 3
  have hlt : b.raw.toNat % 8 < 8 := Nat.mod_lt _ (by decide)
  have he : b.raw &&& 7 = UInt32.ofNat (b.raw.toNat % 8) := by
    rw [← hand, UInt32.ofNat_toNat]
  rw [size, he]
  exact hall ⟨b.raw.toNat % 8, hlt⟩

/-- No offset is too large for its type, not even that of the widest value. -/
theorem toNat_offset (b : Block) : b.offset.toNat = b.num.toNat * b.size.toNat := by
  have hraw := b.raw.toNat_lt
  have hnum : b.num.toNat ≤ 0xFFFFFFF := by
    rw [toNat_num]
    omega
  have hsize : b.size.toNat ≤ 2 ^ 11 := by
    rw [toNat_size]
    exact Nat.pow_le_pow_right (by decide) (by omega)
  have hprod := Nat.mul_le_mul hnum hsize
  rw [offset, UInt64.toNat_mul, UInt32.toNat_toUInt64, UInt16.toNat_toUInt64]
  exact Nat.mod_eq_of_lt (by omega)

/-- The three fields do not overlap. -/
theorem toNat_packed {num exponent : UInt32} (hnum : num ≤ maxNum) (he : exponent.toNat < 8)
    (more : Bool) : (num <<< 4 ||| (if more then 8 else 0) ||| exponent).toNat =
      16 * num.toNat + 8 * more.toNat + exponent.toNat := by
  have hbound : num.toNat ≤ 0xFFFFF := hnum
  have hshift : (num <<< 4).toNat = num.toNat <<< 4 := by
    rw [UInt32.toNat_shiftLeft]
    apply Nat.mod_eq_of_lt
    change num.toNat <<< 4 < 2 ^ 32
    rw [Nat.shiftLeft_eq]
    omega
  have hlow : ((if more then 8 else 0 : UInt32) ||| exponent).toNat =
      8 * more.toNat + exponent.toNat := by
    rw [UInt32.toNat_or]
    cases more with
    | false => simp
    | true => exact (Nat.shiftLeft_add_eq_or_of_lt (i := 3) he 1).symm
  have hmore := more.toNat_le
  have hlt : 8 * more.toNat + exponent.toNat < 2 ^ 4 := by omega
  rw [UInt32.or_assoc, UInt32.toNat_or, hlow, hshift, ← Nat.shiftLeft_add_eq_or_of_lt hlt,
    Nat.shiftLeft_eq]
  omega

theorem size_outside_iff {size : UInt16} : (size < 16 || 2048 < size) = true ↔
    size.toNat < 16 ∨ 2048 < size.toNat := by
  simp only [Bool.or_eq_true, decide_eq_true_eq, UInt16.lt_iff_toNat_lt, UInt16.reduceToNat]

/-- A block holds the number, the flag and the size that it is made of, the size rounded down to a
power of two. -/
theorem ofParts_fields {num : UInt32} {size : UInt16} (hnum : num ≤ maxNum) (hlow : 16 ≤ size)
    (hhigh : size ≤ 2048) (more : Bool) : ∃ b : Block, ofParts num more size = .ok b ∧
      b.num = num ∧ b.more = more ∧ b.size.toNat = 2 ^ size.toNat.log2 := by
  have hfrom : 16 ≤ size.toNat := hlow
  have hto : size.toNat ≤ 2048 := hhigh
  have hdiv : (size / 16).toNat = size.toNat / 16 := UInt16.toNat_div size 16
  have hpos : size.toNat / 16 ≠ 0 := by omega
  have hsmall : (size.toNat / 16).log2 < 8 := (Nat.log2_lt hpos).mpr (by omega)
  have hlog : size.toNat.log2 = 4 + (size.toNat / 16).log2 := by
    rw [Nat.log2_eq_iff (by omega)]
    obtain ⟨hle, hlt⟩ := (Nat.log2_eq_iff hpos).mp rfl
    rw [Nat.pow_succ] at hlt
    rw [Nat.pow_succ, Nat.pow_add]
    omega
  have hexponent : (UInt32.ofNat (size.toNat / 16).log2).toNat = (size.toNat / 16).log2 := by
    rw [UInt32.toNat_ofNat']
    exact Nat.mod_eq_of_lt (by omega)
  have hmore := more.toNat_le
  have hraw := toNat_packed hnum (hexponent.trans_lt hsmall) more
  rw [hexponent] at hraw
  refine ⟨⟨num <<< 4 ||| (if more then 8 else 0) ||| UInt32.ofNat (size.toNat / 16).log2⟩,
    ?_, ?_, ?_, ?_⟩
  · have hsize : ¬((size < 16 || 2048 < size) = true) := by
      rw [size_outside_iff]
      omega
    have hnum' : ¬maxNum < num := UInt32.not_lt.mpr hnum
    rw [ofParts, if_neg hnum', if_neg hsize, hdiv]
  · rw [← UInt32.toNat_inj, toNat_num, hraw]
    omega
  · have hbit : (16 * num.toNat + 8 * more.toNat + (size.toNat / 16).log2) / 8 % 2 =
        more.toNat := by omega
    rw [more_eq, hraw, hbit]
    cases more <;> rfl
  · have hmod : (16 * num.toNat + 8 * more.toNat + (size.toNat / 16).log2) % 8 =
        (size.toNat / 16).log2 := by omega
    rw [toNat_size, hraw, hlog, hmod]

variable {num : UInt32} {more : Bool} {size : UInt16} {b : Block}

theorem ofParts_eq_error_iff {e : SetError} : ofParts num more size = .error e ↔
    0xFFFFF < num.toNat ∧ e = .blockNumberTooLarge num ∨
    num.toNat ≤ 0xFFFFF ∧ (size.toNat < 16 ∨ 2048 < size.toNat) ∧ e = .blockSize size := by
  have hnum : maxNum < num ↔ 0xFFFFF < num.toNat := UInt32.lt_iff_toNat_lt
  unfold ofParts
  simp only [hnum, size_outside_iff]
  by_cases hlarge : 0xFFFFF < num.toNat
  · simp [hlarge, eq_comm]
  · have hsmall := Nat.le_of_not_lt hlarge
    by_cases hrange : size.toNat < 16 ∨ 2048 < size.toNat
    · simp [hlarge, hsmall, hrange, eq_comm]
    · simp [hlarge, hrange]

theorem exists_ofParts_iff : (∃ b, ofParts num more size = .ok b) ↔
    num.toNat ≤ 0xFFFFF ∧ 16 ≤ size.toNat ∧ size.toNat ≤ 2048 := by
  constructor
  · rintro ⟨b, hb⟩
    have hnone (e : SetError) : ofParts num more size ≠ .error e := by
      rw [hb]
      nofun
    have hnum : num.toNat ≤ 0xFFFFF := Nat.le_of_not_lt fun hlarge =>
      hnone _ (ofParts_eq_error_iff.mpr (.inl ⟨hlarge, rfl⟩))
    have hsize : ¬(size.toNat < 16 ∨ 2048 < size.toNat) := fun houtside =>
      hnone _ (ofParts_eq_error_iff.mpr (.inr ⟨hnum, houtside, rfl⟩))
    omega
  · rintro ⟨hnum, hlow, hhigh⟩
    obtain ⟨b, hb, _⟩ := ofParts_fields hnum hlow hhigh more
    exact ⟨b, hb⟩

/-- Twenty bits for the number leave four of the twenty-four that an option holds. -/
theorem raw_lt_of_ofParts (hb : ofParts num more size = .ok b) : b.raw.toNat < 2 ^ 24 := by
  obtain ⟨hnum, hlow, hhigh⟩ := exists_ofParts_iff.mp ⟨b, hb⟩
  obtain ⟨made, hmade, hn, _⟩ := ofParts_fields hnum hlow hhigh more
  obtain rfl : b = made := Except.ok.inj (hb.symm.trans hmade)
  have hraw := b.toNat_num
  rw [hn] at hraw
  omega

end Coap.Block
