import Coap.Bytes

namespace Coap.BigEndian

/-- What a digit counts for that has so many digits behind it. -/
def weight : Nat → Nat
  | 0 => 1
  | n + 1 => 256 * weight n

theorem weight_le {m n : Nat} (h : m ≤ n) : weight m ≤ weight n := by
  induction h with
  | refl => exact Nat.le_refl _
  | step _ ih =>
    rw [weight]
    omega

theorem value_foldl (n : Nat) (bytes : Bytes) :
    bytes.foldl (fun n b => 256 * n + b.toNat) n = n * weight bytes.length + value bytes := by
  induction bytes generalizing n with
  | nil => simp [value, weight]
  | cons b bytes ih =>
    have hb : value (b :: bytes) = b.toNat * weight bytes.length + value bytes := by
      rw [← ih b.toNat]
      simp [value]
    rw [List.foldl_cons, ih, hb, List.length_cons, weight, Nat.add_mul]
    have hc : 256 * n * weight bytes.length = n * (256 * weight bytes.length) := by
      rw [Nat.mul_comm 256 n, Nat.mul_assoc]
    omega

theorem value_cons (b : UInt8) (bytes : Bytes) :
    value (b :: bytes) = b.toNat * weight bytes.length + value bytes := by
  rw [← value_foldl]
  simp [value]

theorem value_lt (bytes : Bytes) : value bytes < weight bytes.length := by
  induction bytes with
  | nil => decide
  | cons b bytes ih =>
    rw [value_cons, List.length_cons, weight]
    have hb : b.toNat + 1 ≤ 256 := b.toNat_lt
    have hm := Nat.mul_le_mul_right (weight bytes.length) hb
    rw [Nat.add_mul] at hm
    omega

theorem value_dropWhile (bytes : Bytes) : value (bytes.dropWhile (· == 0)) = value bytes := by
  induction bytes with
  | nil => rfl
  | cons b bytes ih =>
    by_cases hb : b = 0
    · subst hb
      simp [value_cons, ih]
    · simp [hb]

theorem value_quad (a b c d : UInt8) :
    value [a, b, c, d] = a.toNat * 16777216 + b.toNat * 65536 + c.toNat * 256 + d.toNat := by
  simp [value]
  omega

/-- The four bytes of a word, leading zeros included. -/
def quad (n : UInt32) : Bytes :=
  [(n >>> 24).toUInt8, (n >>> 16).toUInt8, (n >>> 8).toUInt8, n.toUInt8]

theorem minimal_eq (n : UInt32) : minimal n = (quad n).dropWhile (· == 0) := rfl

theorem value_quad_word (n : UInt32) : value (quad n) = n.toNat := by
  have hn := n.toNat_lt
  simp [quad, value_quad, Nat.shiftRight_eq_div_pow]
  omega

theorem quad_value (a b c d : UInt8) : quad (UInt32.ofNat (value [a, b, c, d])) = [a, b, c, d] := by
  have ha := a.toNat_lt
  have hb := b.toNat_lt
  have hc := c.toNat_lt
  have hd := d.toNat_lt
  rw [value_quad]
  simp only [quad, List.cons.injEq, and_true, ← UInt8.toNat_inj]
  simp [Nat.shiftRight_eq_div_pow]
  omega

theorem value_minimal (n : UInt32) : value (minimal n) = n.toNat := by
  rw [minimal_eq, value_dropWhile, value_quad_word]

theorem minimal_inj {m n : UInt32} (h : minimal m = minimal n) : m = n := by
  apply UInt32.toNat_inj.mp
  rw [← value_minimal, ← value_minimal, h]

theorem length_minimal_le (n : UInt32) : (minimal n).length ≤ 4 :=
  (List.dropWhile_sublist _).length_le

/-- Padding with zeros up to four bytes changes neither the number nor its minimal form. -/
theorem minimal_value {bytes : Bytes} (h : bytes.length ≤ 4) :
    minimal (UInt32.ofNat (value bytes)) = bytes.dropWhile (· == 0) := by
  have padded : ∃ a b c d, value bytes = value [a, b, c, d] ∧
      bytes.dropWhile (· == 0) = [a, b, c, d].dropWhile (· == 0) := by
    match bytes, h with
    | [], _ => exact ⟨0, 0, 0, 0, by decide, by decide⟩
    | [d], _ => exact ⟨0, 0, 0, d, by simp [value], by simp⟩
    | [c, d], _ => exact ⟨0, 0, c, d, by simp [value], by simp⟩
    | [b, c, d], _ => exact ⟨0, b, c, d, by simp [value], by simp⟩
    | [a, b, c, d], _ => exact ⟨a, b, c, d, rfl, rfl⟩
    | _ :: _ :: _ :: _ :: _ :: _, h => simp only [List.length_cons] at h; omega
  obtain ⟨a, b, c, d, hv, hd⟩ := padded
  rw [hd, hv, minimal_eq, quad_value]

theorem weight_le_value {b : UInt8} {bytes : Bytes} (h : b ≠ 0) :
    weight bytes.length ≤ value (b :: bytes) := by
  have hb : 1 ≤ b.toNat := by
    have hz : b.toNat ≠ 0 := fun hz => h (UInt8.toNat_inj.mp hz)
    omega
  rw [value_cons]
  have hm := Nat.mul_le_mul_right (weight bytes.length) hb
  omega

theorem dropWhile_eq_self_iff {bytes : Bytes} :
    bytes.dropWhile (· == 0) = bytes ↔ bytes.head? ≠ some 0 := by
  cases bytes with
  | nil => simp
  | cons b bytes =>
    by_cases hb : b = 0
    · subst hb
      have hlen : (bytes.dropWhile (· == 0)).length ≤ bytes.length :=
        (List.dropWhile_sublist _).length_le
      refine iff_of_false (fun he => ?_) fun h => h rfl
      have he' : (bytes.dropWhile (· == 0)).length = bytes.length + 1 := congrArg List.length he
      omega
    · simp [hb]

theorem head?_minimal (n : UInt32) : (minimal n).head? ≠ some 0 := by
  intro h
  have hh := List.head?_dropWhile_not (fun b : UInt8 => b == 0) (quad n)
  rw [← minimal_eq, h] at hh
  cases hh

theorem minimalLength_eq (n : UInt32) : minimalLength n = if n.toNat < 1 then 0
    else if n.toNat < 256 then 1 else if n.toNat < 65536 then 2
    else if n.toNat < 16777216 then 3 else 4 := rfl

theorem length_minimal (n : UInt32) : (minimal n).length = minimalLength n := by
  have hv := value_minimal n
  have hlt := value_lt (minimal n)
  have hle := length_minimal_le n
  have hlow : (minimal n).length = 0 ∨ weight ((minimal n).length - 1) ≤ value (minimal n) := by
    cases hm : minimal n with
    | nil => exact Or.inl rfl
    | cons b bytes =>
      have hb : b ≠ 0 := fun hb => head?_minimal n (by rw [hm, hb, List.head?_cons])
      exact Or.inr (weight_le_value hb)
  rw [hv] at hlt hlow
  rw [minimalLength_eq]
  generalize (minimal n).length = l at hlt hle hlow
  rcases (by omega : l = 0 ∨ l = 1 ∨ l = 2 ∨ l = 3 ∨ l = 4) with rfl | rfl | rfl | rfl | rfl
  all_goals
    simp only [weight, Nat.reduceSub] at hlt hlow
    repeat' split
  all_goals omega

theorem length_minimal_short (n : UInt16) : (minimal n.toUInt32).length ≤ 2 := by
  have hn := n.toNat_lt
  rw [length_minimal, minimalLength_eq, UInt16.toNat_toUInt32]
  repeat' split
  all_goals omega

theorem length_minimal_le_three {n : UInt32} :
    (minimal n).length ≤ 3 ↔ n.toNat < 16777216 := by
  rw [length_minimal, minimalLength_eq]
  repeat' split
  all_goals omega

theorem dropWhile_minimal (n : UInt32) : (minimal n).dropWhile (· == 0) = minimal n := by
  rw [← minimal_value (length_minimal_le n), value_minimal, UInt32.ofNat_toNat]

theorem value_pair (n : UInt16) : value (pair n) = n.toNat := by
  have hn := n.toNat_lt
  simp [pair, value, Nat.shiftRight_eq_div_pow]
  omega

theorem pair_value (high low : UInt8) :
    pair (UInt16.ofNat (256 * high.toNat + low.toNat)) = [high, low] := by
  have hh := high.toNat_lt
  have hl := low.toNat_lt
  simp only [pair, List.cons.injEq, and_true, ← UInt8.toNat_inj]
  simp [Nat.shiftRight_eq_div_pow]
  omega

end Coap.BigEndian
