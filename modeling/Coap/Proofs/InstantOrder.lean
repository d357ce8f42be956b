import Coap.Instant

namespace Coap.Instant

/-- The ticks from an instant on to another. -/
def since (start t : Instant) : Nat := (t.ticks - start.ticks).toNat

/-- Whether an instant comes less than half of the clock's range after a start. -/
def Within (start t : Instant) : Prop := start.since t < half.toNat

instance (start t : Instant) : Decidable (start.Within t) :=
  inferInstanceAs (Decidable (start.since t < half.toNat))

variable {start a b now d : Instant} {l : List Instant}

/-- The ticks between two instants, from the ticks since a start. -/
theorem since_eq (start a b : Instant) : b.since a =
    (18446744073709551616 - start.since b + start.since a) % 18446744073709551616 := by
  have hticks : a.ticks - b.ticks = (a.ticks - start.ticks) - (b.ticks - start.ticks) := by grind
  have hsub := UInt64.toNat_sub (a.ticks - start.ticks) (b.ticks - start.ticks)
  rw [← hticks] at hsub
  exact hsub

/-- Within half of the clock's range, the order of instants is that of the ticks since the start. -/
theorem compare_eq (ha : start.Within a) (hb : start.Within b) :
    a.compare b = Ord.compare (start.since a) (start.since b) := by
  have hhalf : half.toNat = 9223372036854775807 := rfl
  have hab := since_eq start a b
  have heq : a = b ↔ b.since a = 0 := by
    have hsub : a.ticks = b.ticks ↔ a.ticks - b.ticks = 0 := by grind
    rw [Instant.mk.injEq, hsub]
    exact UInt64.toNat_inj.symm
  have hahead : a.ticks - b.ticks < half ↔ b.since a < half.toNat := UInt64.lt_iff_toNat_lt
  have hopposite : a.ticks - b.ticks = half ↔ b.since a = half.toNat := UInt64.toNat_inj.symm
  unfold Within at ha hb
  simp only [compare, heq, hahead, hopposite]
  rcases Nat.lt_trichotomy (start.since a) (start.since b) with h | h | h
  · rw [if_neg (by omega), if_neg (by omega), if_neg (by omega), Nat.compare_eq_lt.mpr h]
  · rw [if_pos (by omega), Nat.compare_eq_eq.mpr h]
  · rw [if_neg (by omega), if_pos (by omega), Nat.compare_eq_gt.mpr h]

theorem reached_iff (hnow : start.Within now) (hd : start.Within d) :
    now.reached d = true ↔ start.since d ≤ start.since now := by
  have hlt : now.compare d = .lt ↔ start.since now < start.since d := by
    rw [compare_eq hnow hd]
    exact Nat.compare_eq_lt
  have hreached : now.reached d = true ↔ now.compare d ≠ .lt := bne_iff_ne
  rw [hreached, Ne, hlt, Nat.not_lt]

theorem reached_self (now : Instant) : now.reached now = true := by
  rw [reached, compare, if_pos rfl]
  rfl

theorem earlier_cases (a b : Instant) : earlier a b = a ∨ earlier a b = b := by
  unfold earlier
  split
  next => exact Or.inr rfl
  next => exact Or.inl rfl

theorem since_earlier (ha : start.Within a) (hb : start.Within b) :
    start.since (earlier a b) = min (start.since a) (start.since b) := by
  have hgt : a.compare b = .gt ↔ start.since b < start.since a := by
    rw [compare_eq ha hb]
    exact Nat.compare_eq_gt
  unfold earlier
  split
  next h =>
    have hlt := hgt.mp h
    omega
  next h =>
    have hle := mt hgt.mpr h
    omega

theorem foldl_earlier_mem (a : Instant) (l : List Instant) : l.foldl earlier a ∈ a :: l := by
  induction l generalizing a with
  | nil => exact List.mem_singleton_self a
  | cons b l ih =>
    rw [List.foldl_cons]
    rcases List.mem_cons.mp (ih (earlier a b)) with h | h
    · rw [h]
      rcases earlier_cases a b with hab | hab
      · rw [hab]
        exact List.mem_cons_self
      · rw [hab]
        exact List.mem_cons_of_mem a List.mem_cons_self
    · exact List.mem_cons_of_mem a (List.mem_cons_of_mem b h)

theorem since_foldl_earlier_le (ha : start.Within a) (hl : ∀ t ∈ l, start.Within t) :
    ∀ t ∈ a :: l, start.since (l.foldl earlier a) ≤ start.since t := by
  induction l generalizing a with
  | nil =>
    intro t ht
    rw [List.mem_singleton.mp ht]
    exact Nat.le_refl _
  | cons b l ih =>
    have hb := hl b List.mem_cons_self
    have hmin := since_earlier ha hb
    have hab : start.Within (earlier a b) := by
      unfold Within at ha ⊢
      omega
    have hrest := ih hab fun t ht => hl t (List.mem_cons_of_mem b ht)
    have hfirst := hrest _ List.mem_cons_self
    intro t ht
    rw [List.foldl_cons]
    rcases List.mem_cons.mp ht with rfl | ht
    · omega
    · rcases List.mem_cons.mp ht with rfl | ht
      · omega
      · exact hrest t (List.mem_cons_of_mem _ ht)

theorem earliest_eq_none_iff : earliest l = none ↔ l = [] := by
  cases l with
  | nil => exact iff_of_true rfl rfl
  | cons a l => exact iff_of_false (fun h => nomatch h) (List.cons_ne_nil a l)

theorem earliest_mem (h : earliest l = some d) : d ∈ l := by
  cases l with
  | nil => cases h
  | cons a l =>
    obtain rfl := Option.some.inj h
    exact foldl_earlier_mem a l

theorem since_earliest_le (hl : ∀ t ∈ l, start.Within t) (h : earliest l = some d) :
    ∀ t ∈ l, start.since d ≤ start.since t := by
  cases l with
  | nil => cases h
  | cons a l =>
    obtain rfl := Option.some.inj h
    exact since_foldl_earlier_le (hl a List.mem_cons_self) fun t ht =>
      hl t (List.mem_cons_of_mem a ht)

end Coap.Instant
