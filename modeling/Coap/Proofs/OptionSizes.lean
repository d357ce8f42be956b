import Coap.Proofs.OptionSeries

namespace Coap.WireOption

theorem extensionLength_le_of_le {m n : Nat} (h : m ≤ n) :
    extensionLength m ≤ extensionLength n := by
  unfold extensionLength
  repeat' split
  all_goals omega

theorem extensionLength_add (m n : Nat) :
    extensionLength (m + n) ≤ 1 + extensionLength m + extensionLength n := by
  unfold extensionLength
  repeat' split
  all_goals omega

theorem size_le_of_le {delta m n : Nat} (h : m ≤ n) : size delta m ≤ size delta n := by
  have he := extensionLength_le_of_le h
  unfold size
  omega

/-- The option that follows a dropped one grows by no more than the head that is saved. -/
theorem sizes_tail_le {prev number length : Nat} {l : List (Nat × Nat)} (hp : prev ≤ number)
    (hl : ∀ a ∈ l, number ≤ a.1) : sizes prev l ≤ sizes prev ((number, length) :: l) := by
  cases l with
  | nil => exact Nat.zero_le _
  | cons a l =>
    have ha := hl a (by simp)
    have he := extensionLength_add (number - prev) (a.1 - number)
    rw [show number - prev + (a.1 - number) = a.1 - prev by omega] at he
    simp only [sizes, size]
    omega

/-- A part of an ascending series takes no more bytes than the whole. -/
theorem sizes_sublist {l l' : List (Nat × Nat)} (h : l.Sublist l') {prev : Nat}
    (hp : ∀ a ∈ l', prev ≤ a.1) (hs : l'.Pairwise fun a b => a.1 ≤ b.1) :
    sizes prev l ≤ sizes prev l' := by
  induction h generalizing prev with
  | slnil => exact Nat.le_refl _
  | @cons l l' a hsub ih =>
    obtain ⟨ha, hs'⟩ := List.pairwise_cons.mp hs
    calc
      sizes prev l ≤ sizes prev (a :: l) :=
        sizes_tail_le (hp a (by simp)) fun b hb => ha b (hsub.mem hb)
      _ = size (a.1 - prev) a.2 + sizes a.1 l := rfl
      _ ≤ size (a.1 - prev) a.2 + sizes a.1 l' := Nat.add_le_add_left (ih ha hs') _
      _ = sizes prev (a :: l') := rfl
  | @cons_cons l l' a hsub ih =>
    obtain ⟨ha, hs'⟩ := List.pairwise_cons.mp hs
    exact Nat.add_le_add_left (ih ha hs') _

theorem sizes_map_le {f : WireOption → WireOption} (hn : ∀ o, (f o).number = o.number)
    (hv : ∀ o, (f o).value.length ≤ o.value.length) (prev : Nat) (os : List WireOption) :
    sizes prev (outline (os.map f)) ≤ sizes prev (outline os) := by
  induction os generalizing prev with
  | nil => exact Nat.le_refl _
  | cons o os ih =>
    have hi := ih o.number
    have ho := @size_le_of_le (o.number - prev) _ _ (hv o)
    simp only [outline, List.map_cons, sizes, hn] at hi ⊢
    omega

theorem filter_append_filter {p q : WireOption → Bool} {os : List WireOption}
    (hs : os.Pairwise fun o w => o.number ≤ w.number)
    (hpq : ∀ o w, p o = true → q w = true → o.number < w.number) :
    os.filter p ++ os.filter q = os.filter fun o => p o || q o := by
  induction os with
  | nil => rfl
  | cons o os ih =>
    obtain ⟨ho, hs'⟩ := List.pairwise_cons.mp hs
    have hi := ih hs'
    by_cases hp : p o = true
    · have hq : ¬q o = true := fun hq => Nat.lt_irrefl _ (hpq o o hp hq)
      rw [List.filter_cons_of_pos hp, List.filter_cons_of_neg hq,
        List.filter_cons_of_pos (by simp [hp]), List.cons_append, hi]
    · by_cases hq : q o = true
      -- behind the border nothing is left of the first part
      · have hnil : os.filter p = [] := by
          refine List.filter_eq_nil_iff.mpr ?_
          intro w hw hpw
          have hlt := hpq w o hpw hq
          have hle := ho w hw
          omega
        rw [hnil, List.nil_append] at hi
        rw [List.filter_cons_of_neg hp, List.filter_cons_of_pos hq,
          List.filter_cons_of_pos (by simp [hq]), hnil, hi, List.nil_append]
      · rw [List.filter_cons_of_neg hp, List.filter_cons_of_neg hq,
          List.filter_cons_of_neg (by simp [hp, hq]), hi]

end Coap.WireOption
