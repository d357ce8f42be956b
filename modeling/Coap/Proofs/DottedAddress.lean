import Coap.Net.Dotted
import Coap.Proofs.Pieces
import Mathlib.Algebra.Group.Nat.Defs

namespace Coap

namespace Dotted

/-- A number from 0 to 255 as it is usually written: without leading zeros. -/
structure Octet (s : List Char) : Prop where
  filled : s ≠ []
  digits : ∀ c ∈ s, c.isDigit = true
  small : Text.decimal s ≤ 255
  plain : s.head? = some '0' → s = ['0']

/-- Four such numbers with dots between them. -/
def Address (s : List Char) : Prop :=
  ∃ a b c d, (Octet a ∧ Octet b ∧ Octet c ∧ Octet d) ∧
    s = a ++ '.' :: (b ++ '.' :: (c ++ '.' :: d))

theorem foldl_decimal_ge (digits : List Char) (n : Nat) : n * 10 ^ digits.length ≤
    digits.foldl (fun n c => 10 * n + (c.toNat - 48)) n := by
  induction digits generalizing n with
  | nil => exact Nat.le_of_eq (Nat.mul_one n)
  | cons c digits ih =>
    calc
      n * 10 ^ (c :: digits).length = 10 * n * 10 ^ digits.length := by
        rw [List.length_cons, Nat.pow_succ, Nat.mul_comm 10 n, Nat.mul_assoc, Nat.mul_comm 10]
      _ ≤ (10 * n + (c.toNat - 48)) * 10 ^ digits.length :=
        Nat.mul_le_mul_right _ (Nat.le_add_right _ _)
      _ ≤ digits.foldl (fun n c => 10 * n + (c.toNat - 48)) (10 * n + (c.toNat - 48)) := ih _

/-- Without leading zeros, only a number of up to three digits is that small. -/
theorem Octet.length_le {s : List Char} (h : Octet s) : s.length ≤ 3 := by
  obtain ⟨c, rest, rfl⟩ := List.exists_cons_of_ne_nil h.filled
  by_cases hzero : c = '0'
  · subst hzero
    rw [h.plain rfl]
    decide
  · have hdigit := h.digits c List.mem_cons_self
    have hsmall := h.small
    have hge : (0 + (c.toNat - 48)) * 10 ^ rest.length ≤ Text.decimal (c :: rest) :=
      foldl_decimal_ge rest (0 + (c.toNat - 48))
    have hfirst : 1 ≤ c.toNat - 48 := by
      have hne : c.toNat ≠ '0'.toNat := fun he => hzero (Char.toNat_inj.mp he)
      simp only [Char.isDigit, Bool.and_eq_true, decide_eq_true_eq] at hdigit
      have hfrom : 48 ≤ c.toNat := hdigit.1
      have hnum : '0'.toNat = 48 := rfl
      omega
    refine Nat.not_lt.mp fun hlong => ?_
    have hpow : 10 ^ 3 ≤ 10 ^ rest.length := by
      apply Nat.pow_le_pow_right (by decide)
      rw [List.length_cons] at hlong
      omega
    have hmul := Nat.mul_le_mul hfirst hpow
    rw [Nat.zero_add] at hge
    omega

theorem part?_isSome_iff {s : List Char} : (part? s).isSome = true ↔ Octet s := by
  unfold part?
  simp only [Option.isSome_ite, Bool.and_eq_true, Bool.not_eq_true', decide_eq_true_eq,
    List.isEmpty_eq_false_iff, Bool.or_eq_true, beq_iff_eq, bne_iff_ne, List.all_eq_true, and_assoc]
  constructor
  · rintro ⟨filled, _, digits, small, plain⟩
    refine ⟨filled, digits, small, fun hzero => ?_⟩
    obtain ⟨c, rfl⟩ := List.length_eq_one_iff.mp (plain.resolve_right fun hne => hne hzero)
    rw [Option.some.inj hzero]
  · intro h
    have hplain : s.length = 1 ∨ s.head? ≠ some '0' := by
      by_cases hzero : s.head? = some '0'
      · exact Or.inl (by rw [h.plain hzero]; rfl)
      · exact Or.inr hzero
    exact ⟨h.filled, h.length_le, h.digits, h.small, hplain⟩

theorem Octet.dot_notMem {s : List Char} (h : Octet s) : '.' ∉ s := by
  intro hm
  exact absurd (h.digits '.' hm) (by decide)

theorem address?_isSome_iff {s : List Char} : (address? s).isSome = true ↔ Address s := by
  constructor
  · intro h
    unfold address? at h
    rw [Separated.pieces_eq_splitOn] at h
    split at h
    next a' b' c' d' hparts =>
      obtain ⟨a, parts, hs, ha, hparts⟩ := List.map_eq_cons_iff.mp hparts
      obtain ⟨b, parts, rfl, hb, hparts⟩ := List.map_eq_cons_iff.mp hparts
      obtain ⟨c, parts, rfl, hc, hparts⟩ := List.map_eq_cons_iff.mp hparts
      obtain ⟨d, parts, rfl, hd, hparts⟩ := List.map_eq_cons_iff.mp hparts
      obtain rfl := List.map_eq_nil_iff.mp hparts
      have octet {s : List Char} {n : UInt8} (h : part? s = some n) : Octet s :=
        part?_isSome_iff.mp (by rw [h]; rfl)
      refine ⟨a, b, c, d, ⟨octet ha, octet hb, octet hc, octet hd⟩, ?_⟩
      have hjoin : ['.'].intercalate (s.splitOn '.') = s := List.intercalate_splitOn '.'
      rw [hs] at hjoin
      rw [← hjoin]
      simp
    next => cases h
  · rintro ⟨a, b, c, d, ⟨ha, hb, hc, hd⟩, rfl⟩
    have number {s : List Char} (h : Octet s) : ∃ n, part? s = some n :=
      Option.isSome_iff_exists.mp (part?_isSome_iff.mpr h)
    obtain ⟨_, ha'⟩ := number ha
    obtain ⟨_, hb'⟩ := number hb
    obtain ⟨_, hc'⟩ := number hc
    obtain ⟨_, hd'⟩ := number hd
    unfold address?
    rw [Separated.pieces_eq_splitOn, List.splitOn_append_cons_self_of_not_mem ha.dot_notMem,
      List.splitOn_append_cons_self_of_not_mem hb.dot_notMem,
      List.splitOn_append_cons_self_of_not_mem hc.dot_notMem,
      List.splitOn_eq_singleton hd.dot_notMem]
    simp only [List.map_cons, List.map_nil, ha', hb', hc', hd']
    rfl

instance (s : List Char) : Decidable (Address s) := decidable_of_iff _ address?_isSome_iff

end Dotted

end Coap
