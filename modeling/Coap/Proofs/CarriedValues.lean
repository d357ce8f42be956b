import Coap.Proofs.Footprint

namespace Coap

theorem KnownOption.select_concat {o : KnownOption} (h : o.repeatable = false)
    (values : List Bytes) (v : Bytes) : o.select (values ++ [v]) = [v] := by
  have ha : o ≠ .accept := by
    rintro rfl
    cases h
  rw [select, if_neg ha, h, if_neg Bool.false_ne_true, List.getLast?_concat]
  rfl

namespace Message

variable {m n : Message} {o : KnownOption}

/-- The values that a message carries for an option: none if it is absent. -/
def carried (m : Message) (o : KnownOption) : List Bytes := if m.has o then m.values o else []

theorem carried_of_has (h : m.has o = true) : m.carried o = m.values o := if_pos h

theorem carried_of_absent (h : m.has o = false) : m.carried o = [] := by
  rw [carried, h, if_neg Bool.false_ne_true]

theorem Coherent.carried_eq_nil_iff (h : m.Coherent) : m.carried o = [] ↔ m.has o = false := by
  cases hhas : m.has o with
  | false => exact iff_of_true (carried_of_absent hhas) rfl
  | true =>
    rw [carried_of_has hhas]
    exact iff_of_false (h.inhabited o hhas) nofun

/-- The slot of a list is empty when its option is absent. -/
theorem Coherent.carried_of_repeatable (h : m.Coherent) (ho : o.repeatable = true) :
    m.carried o = m.values o := by
  cases hhas : m.has o with
  | false => rw [carried_of_absent hhas, h.absent o hhas, KnownOption.unset, if_pos ho]
  | true => exact carried_of_has hhas

/-- The slot of a single value, read as what it stands for. -/
theorem toList_get? {α : Type} {value : α} {f : α → Bytes} (hv : m.values o = [f value]) :
    ((m.get? o value).map f).toList = m.carried o := by
  unfold get? carried
  split
  next => exact hv.symm
  next => rfl

theorem Coherent.carried_put (h : m.Coherent) {value : Bytes}
    (hv : o.admits value.length = true) (hc : o.canonical value = value) (p : KnownOption) :
    (m.put o value).carried p =
      if p = o then o.select (m.carried o ++ [value]) else m.carried p := by
  rw [carried, has_put, values_put h.accept_le hv, hc]
  by_cases hp : p = o
  · rw [if_pos hp, if_pos rfl, if_pos hp, if_pos hp]
    cases hhas : m.has o with
    | true => rw [carried_of_has hhas]
    | false =>
      rw [carried_of_absent hhas, h.absent o hhas,
        KnownOption.select_unset_append o (List.cons_ne_nil value [])]
      rfl
  · rw [if_neg hp, if_neg hp, if_neg hp, carried]

theorem carried_withPieces (m : Message) (o : SegmentOption) (text : Bytes) (p : KnownOption) :
    (m.withPieces o text).carried p =
      if p = o.toKnown then Separated.trimmedPieces o.separator text else m.carried p := by
  rw [carried, has_withPieces, values_withPieces, Segments.map_bytes_split, carried]
  by_cases hp : p = o.toKnown
  · simp only [if_pos hp, Segments.split]
    cases Separated.trimmedPieces o.separator text <;> rfl
  · simp only [if_neg hp]

theorem borrow_put (m : Message) (o : KnownOption) (value : Bytes) :
    (m.put o value).borrow = m.borrow.put o value := by
  rw [put, put, ← borrow_store]
  rfl

theorem borrow_withPieces (m : Message) (o : SegmentOption) (text : Bytes) :
    (m.withPieces o text).borrow = m.borrow.withPieces o text := by
  have hpieces : (Segments.split text o.separator).map Segment.borrow =
      Segments.split text o.separator := by
    rw [Segments.split, List.map_map]
    rfl
  cases o <;> simp only [withPieces, putSegments, mark, borrow, hpieces]

theorem frame_withPieces (m : Message) (o : SegmentOption) (text : Bytes) :
    (m.withPieces o text).frame = m.frame := by
  cases o <;> rfl

/-- Messages with the same header, payload and carried values differ at most in who owns bytes. -/
theorem Coherent.borrow_eq_of_carried (hm : m.Coherent) (hn : n.Coherent)
    (frame : m.borrow.frame = n.borrow.frame) (carried : ∀ o, m.carried o = n.carried o) :
    m.borrow = n.borrow := by
  have hhas (o : KnownOption) : m.has o = n.has o := by
    have hiff : m.has o = false ↔ n.has o = false := by
      rw [← hm.carried_eq_nil_iff, ← hn.carried_eq_nil_iff, carried]
    rw [Bool.eq_false_iff, Bool.eq_false_iff] at hiff
    exact Bool.eq_iff_iff.mpr (Decidable.not_iff_not.mp hiff)
  refine borrow_eq_of_values (hm.registered.ext hn.registered hhas) (fun o => ?_) frame
  cases hmo : m.has o with
  | false => rw [hm.absent o hmo, hn.absent o (hhas o ▸ hmo)]
  | true =>
    have h := carried o
    rwa [carried_of_has hmo, carried_of_has (hhas o ▸ hmo)] at h

end Message

end Coap
