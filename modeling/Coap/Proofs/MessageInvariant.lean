import Coap.Message.Options
import Coap.Proofs.MessageSlots

namespace Coap

namespace Message

/-- Presence and slots agree: an absent option leaves its slot as in a new message, a present one
has values, and all of them are in the option's range. -/
structure Coherent (m : Message) : Prop where
  registered : m.present.Registered
  absent : ∀ o, m.has o = false → m.values o = o.unset
  inhabited : ∀ o, m.has o = true → m.values o ≠ []
  admitted : ∀ o, m.has o = true → ∀ v ∈ m.values o, o.admits v.length = true
  accept_le : m.accept.length ≤ maxAccept
  payload : ∀ p, m.payload = some p → p.bytes ≠ []

theorem coherent_bare (type : MessageType) (code : Code) (id : UInt16) (token : Token) :
    (bare type code id token).Coherent where
  registered := OptionSet.registered_empty
  absent o _ := values_bare type code id token o
  inhabited o h := by
    rw [has_bare] at h
    cases h
  admitted o h := by
    rw [has_bare] at h
    cases h
  accept_le := accept_bare_le type code id token
  payload p h := by cases h

/-- A change that is confined to the slot of one option keeps the rest of the agreement. -/
theorem Coherent.update {m n : Message} (h : m.Coherent) (o : KnownOption)
    (registered : n.present.Registered) (has : ∀ p, p ≠ o → n.has p = m.has p)
    (values : ∀ p, p ≠ o → n.values p = m.values p)
    (absent : n.has o = false → n.values o = o.unset)
    (present : n.has o = true → n.values o ≠ [] ∧ ∀ v ∈ n.values o, o.admits v.length = true)
    (accept : n.accept.length ≤ maxAccept) (payload : n.payload = m.payload) : n.Coherent where
  registered := registered
  absent p hp := by
    by_cases ho : p = o
    · subst ho
      exact absent hp
    · rw [values p ho, h.absent p (has p ho ▸ hp)]
  inhabited p hp := by
    by_cases ho : p = o
    · subst ho
      exact (present hp).1
    · rw [values p ho]
      exact h.inhabited p (has p ho ▸ hp)
  admitted p hp := by
    by_cases ho : p = o
    · subst ho
      exact (present hp).2
    · rw [values p ho]
      exact h.admitted p (has p ho ▸ hp)
  accept_le := accept
  payload p hp := h.payload p (payload ▸ hp)

theorem Coherent.put {m : Message} (h : m.Coherent) {o : KnownOption} {value : Bytes}
    (hv : o.admits value.length = true) : (m.put o value).Coherent := by
  have hval := values_put h.accept_le hv
  apply h.update o
  · rw [Message.put, mark, present_store]
    exact h.registered.insert o
  · intro p hp
    rw [has_put, if_neg hp]
  · intro p hp
    rw [hval, if_neg hp]
  · intro hn
    simp [has_put] at hn
  · intro _
    rw [hval, if_pos rfl]
    refine ⟨o.select_concat_ne_nil _ _, ?_⟩
    intro v hm
    have hc := KnownOption.admits_canonical hv
    cases hp : m.has o with
    | false =>
      rw [h.absent o hp, KnownOption.select_unset_append o (by simp)] at hm
      have he := (o.select_sublist _).mem hm
      rw [List.mem_singleton.mp he]
      exact hc
    | true =>
      rcases List.mem_append.mp ((o.select_sublist _).mem hm) with hm | hm
      · exact h.admitted o hp v hm
      · rw [List.mem_singleton.mp hm]
        exact hc
  · exact accept_put_length h.accept_le o value
  · cases o <;> try rfl
    simp only [Message.put, store]
    split <;> rfl

theorem Coherent.foldl_absorb {m : Message} (h : m.Coherent) {os : List WireOption}
    (hd : ∀ w ∈ os, w.defect? = none) : (os.foldl absorb m).Coherent := by
  induction os generalizing m with
  | nil => exact h
  | cons w os ih =>
    apply ih _ fun v hv => hd v (List.mem_cons_of_mem w hv)
    rcases known_or_unknown w with ⟨o, ho⟩ | hu
    · rw [absorb_of_number ho]
      exact h.put (admits_of_defect (hd w (by simp)) ho)
    · rw [absorb_of_unknown hu]
      exact h

theorem values_remove (m : Message) (o p : KnownOption) :
    (m.remove o).values p = if p = o then o.unset else m.values p := by
  have hz : BigEndian.minimal 0 = [] := by decide
  cases o <;> cases p <;> first
    | rfl
    | simp [remove, mark, clearSlot, values, KnownOption.unset, KnownOption.repeatable, hz]

theorem has_remove (m : Message) (o p : KnownOption) :
    (m.remove o).has p = if p = o then false else m.has p := by
  rw [← has_mark]
  cases o <;> rfl

theorem Coherent.remove {m : Message} (h : m.Coherent) (o : KnownOption) :
    (m.remove o).Coherent := by
  apply h.update o
  · cases o <;> exact h.registered.erase _
  · intro p hp
    rw [has_remove, if_neg hp]
  · intro p hp
    rw [values_remove, if_neg hp]
  · intro _
    rw [values_remove, if_pos rfl]
  · intro hn
    simp [has_remove] at hn
  · cases o
    case accept => exact Nat.zero_le _
    all_goals exact h.accept_le
  · cases o <;> rfl

theorem has_putSegments (m : Message) (s : Segments) (o : SegmentOption) (p : KnownOption) :
    (m.putSegments s o).has p = m.has p := by
  cases o <;> rfl

theorem values_putSegments (m : Message) (s : Segments) (o : SegmentOption) (p : KnownOption) :
    (m.putSegments s o).values p = if p = o.toKnown then s.map Segment.bytes else m.values p := by
  cases o <;> cases p <;> rfl

theorem Coherent.putSegments {m : Message} (h : m.Coherent) (o : SegmentOption) {s : Segments}
    (hs : ∀ p ∈ s, o.toKnown.admits p.length = true) :
    ((m.putSegments s o).mark o.toKnown (!s.isEmpty)).Coherent := by
  apply h.update o.toKnown
  · cases s with
    | nil => cases o <;> exact h.registered.erase _
    | cons p s => cases o <;> exact h.registered.insert _
  · intro p hp
    rw [has_mark, if_neg hp, has_putSegments]
  · intro p hp
    rw [values_mark, values_putSegments, if_neg hp]
  · intro hn
    rw [has_mark, if_pos rfl] at hn
    rw [values_mark, values_putSegments, if_pos rfl]
    cases s with
    | nil => cases o <;> rfl
    | cons p s => cases hn
  · intro hn
    rw [has_mark, if_pos rfl] at hn
    rw [values_mark, values_putSegments, if_pos rfl]
    refine ⟨?_, ?_⟩
    · cases s with
      | nil => cases hn
      | cons p s => simp
    · intro v hv
      obtain ⟨p, hp, rfl⟩ := List.mem_map.mp hv
      exact hs p hp
  · cases o <;> exact h.accept_le
  · cases o <;> rfl

/-- The agreement says nothing about the header, the token and who owns the bytes. -/
theorem Coherent.congr {m n : Message} (h : m.Coherent) (present : n.present = m.present)
    (values : ∀ o, n.values o = m.values o) (accept : n.accept = m.accept)
    (payload : n.payload.map Segment.bytes = m.payload.map Segment.bytes) : n.Coherent := by
  have has (o : KnownOption) : n.has o = m.has o := by rw [Message.has, Message.has, present]
  constructor
  · rw [present]
    exact h.registered
  · intro o ho
    rw [values, h.absent o (has o ▸ ho)]
  · intro o ho
    rw [values]
    exact h.inhabited o (has o ▸ ho)
  · intro o ho
    rw [values]
    exact h.admitted o (has o ▸ ho)
  · rw [accept]
    exact h.accept_le
  · intro p hp
    rw [hp] at payload
    obtain ⟨q, hq, he⟩ := Option.map_eq_some_iff.mp payload.symm
    rw [← he]
    exact h.payload q hq

end Message

end Coap
