import Coap.Proofs.OptionWrites
import Mathlib.Data.Nat.Bitwise

namespace Coap

namespace BigEndian

/-- Shifting in one more byte drops the highest byte of a word. -/
theorem toNat_shiftIn (n : UInt32) (b : UInt8) :
    (n <<< 8 ||| b.toUInt32).toNat = (256 * n.toNat + b.toNat) % 2 ^ 32 := by
  have hb : b.toNat < 2 ^ 8 := b.toNat_lt
  have hn : n.toNat < 2 ^ 32 := n.toNat_lt
  have hlow : n.toNat <<< 8 % 2 ^ 32 = (n.toNat % 2 ^ 24) <<< 8 := by
    rw [Nat.shiftLeft_eq, Nat.shiftLeft_eq]
    omega
  rw [UInt32.toNat_or, UInt32.toNat_shiftLeft, UInt8.toNat_toUInt32]
  change n.toNat <<< 8 % 2 ^ 32 ||| b.toNat = _
  rw [hlow, ← Nat.shiftLeft_add_eq_or_of_lt hb, Nat.shiftLeft_eq]
  omega

/-- Shifting bytes into a word from the right gives the number that they stand for, as far as a word
holds it. -/
theorem foldl_shiftIn (n : UInt32) (bytes : Bytes) :
    bytes.foldl (fun (n : UInt32) b => n <<< 8 ||| b.toUInt32) n =
      UInt32.ofNat (bytes.foldl (fun n b => 256 * n + b.toNat) n.toNat) := by
  induction bytes generalizing n with
  | nil => exact UInt32.ofNat_toNat.symm
  | cons b bytes ih =>
    rw [List.foldl_cons, List.foldl_cons, ih, toNat_shiftIn, value_foldl, value_foldl]
    apply UInt32.toNat_inj.mp
    -- it is all the same whether what is too large is lost at each byte or at the end
    rw [UInt32.toNat_ofNat', UInt32.toNat_ofNat', Nat.add_mod, Nat.mul_mod, Nat.mod_mod,
      ← Nat.mul_mod, ← Nat.add_mod]

/-- The zeros before the first bit that is set tell between which powers of two a word is. -/
theorem lt_two_pow_iff_clz {n : UInt32} {k : Nat} :
    n.toNat < 2 ^ k ↔ 32 ≤ k + n.toBitVec.clz.toNat := by
  constructor
  · intro h
    by_cases hz : n.toBitVec = 0#32
    · have hc : n.toBitVec.clz = 32#32 := BitVec.clz_eq_iff_eq_zero.mpr hz
      have hall : n.toBitVec.clz.toNat = 32 := congrArg BitVec.toNat hc
      omega
    · have hlow : 2 ^ (31 - n.toBitVec.clz.toNat) ≤ n.toNat :=
        BitVec.two_pow_sub_clz_le_toNat_of_ne_zero (by decide) hz
      have hk := (Nat.pow_lt_pow_iff_right (by decide)).mp (Nat.lt_of_le_of_lt hlow h)
      omega
  · intro h
    have hhigh : n.toNat < 2 ^ (32 - n.toBitVec.clz.toNat) := BitVec.toNat_lt_two_pow_sub_clz
    have hpow : 2 ^ (32 - n.toBitVec.clz.toNat) ≤ 2 ^ k :=
      Nat.pow_le_pow_right (by decide) (by omega)
    exact Nat.lt_of_lt_of_le hhigh hpow

/-- The bytes of a word without the whole zero bytes that the leading zero bits fill. -/
theorem minimalLength_eq_clz (n : UInt32) : minimalLength n = 4 - n.toBitVec.clz.toNat / 8 := by
  have h0 := lt_two_pow_iff_clz (n := n) (k := 0)
  have h8 := lt_two_pow_iff_clz (n := n) (k := 8)
  have h16 := lt_two_pow_iff_clz (n := n) (k := 16)
  have h24 := lt_two_pow_iff_clz (n := n) (k := 24)
  rw [minimalLength_eq]
  simp only [Nat.reducePow] at h0 h8 h16 h24
  repeat' split
  all_goals omega

/-- The minimal form is the end of the four bytes of a word. -/
theorem minimal_eq_drop (n : UInt32) : minimal n = (quad n).drop (4 - minimalLength n) := by
  have hsuffix := List.suffix_iff_eq_drop.mp (List.dropWhile_suffix (l := quad n) (· == 0))
  rwa [← minimal_eq, length_minimal] at hsuffix

/-- The bytes that a number is written in: among all of at most four bytes that are read as the
number they are the shortest, and no others are as short. -/
structure Canonical (n : UInt32) (bytes : Bytes) : Prop where
  length_eq : bytes.length = minimalLength n
  head?_ne : bytes.head? ≠ some 0
  value : Message.uintOf bytes = n
  shortest : ∀ other : Bytes, other.length ≤ 4 → Message.uintOf other = n → other ≠ bytes →
    bytes.length < other.length

theorem minimal_canonical (n : UInt32) : Canonical n (minimal n) where
  length_eq := length_minimal n
  head?_ne := head?_minimal n
  value := Message.uintOf_minimal n
  shortest other hlength hvalue hne := by
    have hsuffix : minimal n <:+ other := by
      rw [← hvalue, Message.minimal_uintOf hlength]
      exact List.dropWhile_suffix _
    exact Nat.lt_of_le_of_ne hsuffix.length_le fun h => hne (hsuffix.eq_of_length h).symm

end BigEndian

/-- The value of an option comes last. -/
theorem WireOption.Series.suffix_of_singleton {prev : Nat} {o : WireOption} {bytes : Bytes}
    (h : Series prev [o] bytes) : o.value <:+ bytes := by
  cases h with
  | cons ht hrest =>
    cases hrest
    cases ht
    rw [List.append_nil, ← List.cons_append]
    exact List.suffix_append _ _

namespace OptionWrite

theorem write_uint_done_iff {prev : Nat} {number n : UInt32} {room : Bytes} :
    ((uint number n).write prev room).fault = none ↔
      prev ≤ number.toNat ∧ number.toNat - prev ≤ maxField ∧
      WireOption.size (number.toNat - prev) (BigEndian.minimalLength n) ≤ room.length := by
  have hvalues : (uint number n).values = [BigEndian.minimal n] := rfl
  have hsize : (uint number n).size prev =
      WireOption.size (number.toNat - prev) (BigEndian.minimalLength n) := by
    rw [← BigEndian.length_minimal]
    rfl
  have hlength : (BigEndian.minimal n).length ≤ maxField :=
    Nat.le_trans (BigEndian.length_minimal_le n) (by decide)
  rw [write_done_iff, hvalues, hsize, List.forall_mem_singleton]
  simp only [ne_eq, List.cons_ne_self, not_false_eq_true, true_imp_iff, hlength, true_and,
    and_assoc]
  rfl

/-- Writing a number gives an option with the canonical form of the number as its value, and reading
gives that option back. There is room for it exactly if there is for the length that is computed in
advance. Bytes that are read as a number are written again without their leading zeros. And length,
bytes and number are those that the leading zero bits, the end of the four bytes of the word, and
shifting in byte after byte give. -/
theorem uint_canonical :
    (∀ (prev : Nat) (number n : UInt32) (room : Bytes),
      (((uint number n).write prev room).fault = none ↔
        prev ≤ number.toNat ∧ number.toNat - prev ≤ maxField ∧
        WireOption.size (number.toNat - prev) (BigEndian.minimalLength n) ≤ room.length) ∧
      (((uint number n).write prev room).fault = none →
        ∃ value, value <:+ ((uint number n).write prev room).bytes ∧ BigEndian.Canonical n value ∧
          WireOption.walk prev ((uint number n).write prev room).bytes =
            ⟨[⟨number.toNat, value⟩], [], none⟩)) ∧
    (∀ n, BigEndian.Canonical n (BigEndian.minimal n)) ∧
    (∀ bytes : Bytes, bytes.length ≤ 4 →
      BigEndian.minimal (Message.uintOf bytes) = bytes.dropWhile (· == 0)) ∧
    (∀ n, BigEndian.minimalLength n = 4 - n.toBitVec.clz.toNat / 8 ∧
      BigEndian.minimal n = (BigEndian.quad n).drop (4 - BigEndian.minimalLength n)) ∧
    ∀ bytes, Message.uintOf bytes =
      bytes.foldl (fun (n : UInt32) b => n <<< 8 ||| b.toUInt32) 0 := by
  refine ⟨fun prev number n room => ⟨write_uint_done_iff, fun done => ?_⟩,
    BigEndian.minimal_canonical, fun bytes => Message.minimal_uintOf, fun n => ?_, fun bytes => ?_⟩
  · have hs := series_of_write done
    have hwalk := hs.walk_stops (.inl rfl)
    rw [List.append_nil] at hwalk
    exact ⟨BigEndian.minimal n, hs.suffix_of_singleton, BigEndian.minimal_canonical n, hwalk⟩
  · exact ⟨BigEndian.minimalLength_eq_clz n, BigEndian.minimal_eq_drop n⟩
  · exact (BigEndian.foldl_shiftIn 0 bytes).symm

/-- A lifetime of 256 seconds is written in two bytes, with or without leading zeros before. -/
theorem uint_canonical_lifetime :
    let w := (uint 14 256).write 12 (List.replicate 8 0)
    w.bytes = [0x22, 1, 0] ∧ w.fault = none ∧
      (∃ value, value <:+ w.bytes ∧ BigEndian.Canonical 256 value ∧
        WireOption.walk 12 w.bytes = ⟨[⟨14, value⟩], [], none⟩) ∧
      ((uint 14 256).write 12 [0, 0]).fault ≠ none ∧
      BigEndian.minimal (Message.uintOf [0, 0, 1, 0]) = [1, 0] := by
  intro w
  obtain ⟨hwrite, _, hread, _⟩ := uint_canonical
  obtain ⟨_, hdone⟩ := hwrite 12 14 256 (List.replicate 8 0)
  obtain ⟨hroom, _⟩ := hwrite 12 14 256 [0, 0]
  have done : w.fault = none := by decide
  refine ⟨by decide, done, hdone done, fun h => ?_, hread [0, 0, 1, 0] (by decide)⟩
  exact absurd (hroom.mp h).2.2 (by decide)

end OptionWrite

end Coap
