import Coap.OptionSet

namespace Coap

namespace KnownOption

theorem mem_all (o : KnownOption) : o ∈ all := by
  cases o <;> decide

theorem all_ascending : all.Pairwise fun o p => o.number < p.number := by
  decide

theorem number_le (o : KnownOption) : o.number ≤ 35 := by
  cases o <;> decide

theorem ofNumber?_number (o : KnownOption) : ofNumber? o.number = some o := by
  cases o <;> rfl

theorem number_inj {o p : KnownOption} : o.number = p.number ↔ o = p := by
  constructor
  · intro h
    have ho := ofNumber?_number o
    rw [h, ofNumber?_number] at ho
    exact (Option.some.inj ho).symm
  · rintro rfl
    rfl

theorem ofNumber?_eq_some {n : Nat} {o : KnownOption} : ofNumber? n = some o ↔ o.number = n := by
  constructor
  · intro h
    have hn := List.find?_some h
    exact beq_iff_eq.mp hn
  · rintro rfl
    exact ofNumber?_number o

theorem ofNumber?_eq_none {n : Nat} : ofNumber? n = none ↔ ∀ o : KnownOption, o.number ≠ n := by
  constructor
  · intro h o hn
    rw [ofNumber?_eq_some.mpr hn] at h
    cases h
  · intro h
    cases ho : ofNumber? n with
    | none => rfl
    | some o => exact absurd (ofNumber?_eq_some.mp ho) (h o)

end KnownOption

namespace OptionSet

theorem contains_insert (s : OptionSet) (o p : KnownOption) :
    (s.insert o).contains p = (decide (p = o) || s.contains p) := by
  have ho := o.number_le
  simp only [contains, insert, BitVec.getLsbD_or, BitVec.getLsbD_twoPow, KnownOption.number_inj]
  simp [Bool.or_comm, eq_comm, show o.number < 64 by omega]

theorem contains_erase (s : OptionSet) (o p : KnownOption) :
    (s.erase o).contains p = (decide (p ≠ o) && s.contains p) := by
  have ho := o.number_le
  have hp := p.number_le
  simp only [contains, erase, BitVec.getLsbD_and, BitVec.getLsbD_not, BitVec.getLsbD_twoPow,
    KnownOption.number_inj]
  simp [Bool.and_comm, eq_comm, show o.number < 64 by omega, show p.number < 64 by omega]

theorem contains_empty (o : KnownOption) : empty.contains o = false := by
  simp [contains, empty]

theorem mem_toList {s : OptionSet} {o : KnownOption} : o ∈ s.toList ↔ s.contains o = true := by
  simp [toList, KnownOption.mem_all]

theorem toList_ascending (s : OptionSet) : s.toList.Pairwise fun o p => o.number < p.number :=
  KnownOption.all_ascending.sublist List.filter_sublist

theorem toList_nodup (s : OptionSet) : s.toList.Nodup := by
  apply s.toList_ascending.imp
  rintro o _ hlt rfl
  exact Nat.lt_irrefl _ hlt

theorem toList_eq_nil_iff {s : OptionSet} : s.toList = [] ↔ ∀ o, s.contains o = false := by
  rw [List.eq_nil_iff_forall_not_mem]
  exact forall_congr' fun o => by rw [mem_toList, Bool.not_eq_true]

/-- Only the bits of known options are set. -/
def Registered (s : OptionSet) : Prop :=
  ∀ i, s.bits.getLsbD i = true → ∃ o : KnownOption, o.number = i

theorem registered_empty : empty.Registered := by
  intro i h
  simp [empty] at h

theorem Registered.insert {s : OptionSet} (h : s.Registered) (o : KnownOption) :
    (s.insert o).Registered := by
  intro i hi
  simp only [OptionSet.insert, BitVec.getLsbD_or, BitVec.getLsbD_twoPow, Bool.or_eq_true] at hi
  rcases hi with hi | hi
  · exact h i hi
  · exact ⟨o, by simp at hi; exact hi.2⟩

theorem Registered.erase {s : OptionSet} (h : s.Registered) (o : KnownOption) :
    (s.erase o).Registered := by
  intro i hi
  simp only [OptionSet.erase, BitVec.getLsbD_and, Bool.and_eq_true] at hi
  exact h i hi.1

/-- A set of known options is determined by its members. -/
theorem Registered.ext {s t : OptionSet} (hs : s.Registered) (ht : t.Registered)
    (h : ∀ o, s.contains o = t.contains o) : s = t := by
  have bits : s.bits = t.bits := by
    apply BitVec.eq_of_getLsbD_eq
    intro i _
    by_cases hi : ∃ o : KnownOption, o.number = i
    · obtain ⟨o, rfl⟩ := hi
      exact h o
    · have hsi : s.bits.getLsbD i = false := Bool.eq_false_iff.mpr fun hb => hi (hs i hb)
      have hti : t.bits.getLsbD i = false := Bool.eq_false_iff.mpr fun hb => hi (ht i hb)
      rw [hsi, hti]
  cases s
  cases t
  exact congrArg OptionSet.mk bits

/-- Every bit that is set is the bit of one option, so that counting bits counts options. -/
theorem Registered.size_eq {s : OptionSet} (h : s.Registered) : s.size = s.toList.length := by
  have hnumbers : (List.range 64).filter (· ∈ KnownOption.all.map KnownOption.number) =
      KnownOption.all.map KnownOption.number := by decide
  have hbit (i : Nat) : s.bits.getLsbD i = true ↔
      (s.bits.getLsbD i && decide (i ∈ KnownOption.all.map KnownOption.number)) = true := by
    rw [Bool.and_eq_true, decide_eq_true_eq, iff_self_and]
    intro hi
    obtain ⟨o, rfl⟩ := h i hi
    exact List.mem_map_of_mem o.mem_all
  calc
    s.size = (List.range 64).countP fun i =>
        s.bits.getLsbD i && decide (i ∈ KnownOption.all.map KnownOption.number) :=
      List.countP_congr fun i _ => hbit i
    _ = (KnownOption.all.map KnownOption.number).countP s.bits.getLsbD := by
      rw [← List.countP_filter, hnumbers]
    _ = KnownOption.all.countP s.contains := List.countP_map
    _ = s.toList.length := List.countP_eq_length_filter

theorem Registered.isEmpty_iff {s : OptionSet} (h : s.Registered) :
    s.isEmpty = true ↔ s.toList = [] := by
  have hbits : s.isEmpty = true ↔ s = empty := by
    rw [isEmpty, beq_iff_eq]
    exact ⟨congrArg mk, congrArg bits⟩
  rw [hbits, toList_eq_nil_iff]
  constructor
  · rintro rfl o
    exact contains_empty o
  · intro hnone
    exact h.ext registered_empty fun o => (hnone o).trans (contains_empty o).symm

end OptionSet

end Coap
