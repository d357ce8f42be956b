import Coap.Proofs.Pieces
import Coap.Segment

namespace Coap

def Segment.borrow (s : Segment) : Segment := .borrowed s.bytes

theorem Segment.borrow_eq_iff {s t : Segment} : s.borrow = t.borrow ↔ s.bytes = t.bytes := by
  simp [borrow]

theorem Segment.beq_iff {s t : Segment} : (s == t) = true ↔ s.borrow = t.borrow := by
  rw [borrow_eq_iff]
  change (s.bytes == t.bytes) = true ↔ _
  exact beq_iff_eq

theorem Segments.map_borrow_eq_iff {s t : Segments} :
    s.map Segment.borrow = t.map Segment.borrow ↔ s.map Segment.bytes = t.map Segment.bytes := by
  induction s generalizing t with
  | nil => cases t <;> simp
  | cons a s ih =>
    cases t with
    | nil => simp
    | cons b t => simp [ih, Segment.borrow_eq_iff]

theorem Segments.beq_iff {s t : Segments} :
    (s == t) = true ↔ s.map Segment.borrow = t.map Segment.borrow := by
  induction s generalizing t with
  | nil => cases t <;> simp
  | cons a s ih =>
    cases t with
    | nil => simp
    | cons b t => rw [List.cons_beq_cons, Bool.and_eq_true, Segment.beq_iff, ih]; simp

theorem Segment.option_beq_iff {p q : Option Segment} :
    (p == q) = true ↔ p.map Segment.borrow = q.map Segment.borrow := by
  cases p <;> cases q <;> simp [Segment.beq_iff]

namespace Segments

theorem map_bytes_borrow (s : Segments) :
    (s.map Segment.borrow).map Segment.bytes = s.map Segment.bytes := by
  rw [List.map_map]
  rfl

variable {sep : UInt8}

theorem notMem_of_mem_split {value : Bytes} {s : Segment} (h : s ∈ split value sep) :
    sep ∉ s.bytes := by
  have hpiece := List.mem_map_of_mem (f := Segment.bytes) h
  rw [map_bytes_split] at hpiece
  exact Separated.notMem_of_mem_trimmedPieces hpiece

theorem join_split_eq_iff {value kept : Bytes} :
    (split value sep).join sep = kept ↔ Separated.Trims sep value kept := by
  rw [join, map_bytes_split, Separated.intercalate_trimmedPieces, Separated.trims_iff]

theorem split_join_beq_iff {segments : Segments} :
    (split (segments.join sep) sep == segments) = true ↔
      segments = [] ∨ (∀ s ∈ segments, sep ∉ s.bytes) ∧
        (∀ first, segments.head? = some first → first.bytes ≠ []) ∧
        ∀ last, segments.getLast? = some last → last.bytes ≠ [] := by
  have hempty (s? : Option Segment) : s?.map Segment.bytes ≠ some [] ↔
      ∀ s, s? = some s → s.bytes ≠ [] := by
    cases s? <;> simp
  rw [beq_iff, map_borrow_eq_iff, map_bytes_split, join, Separated.trimmedPieces_intercalate_iff,
    List.forall_mem_map, List.head?_map, List.getLast?_map, hempty, hempty]
  refine ⟨.inr, ?_⟩
  rintro (rfl | h)
  · exact ⟨nofun, nofun, nofun⟩
  · exact h

/-- Splitting a value gives pieces without the separator, and joining them gives back the value
without the separators at its front and without one at its end. Segments that are joined come apart
again exactly if there are none, or none holds the separator and the first and the last are not
empty. -/
theorem split_join (sep : UInt8) :
    (∀ value : Bytes, (∀ s ∈ split value sep, sep ∉ s.bytes) ∧
      ∀ kept, (split value sep).join sep = kept ↔ Separated.Trims sep value kept) ∧
    ∀ segments : Segments, (split (segments.join sep) sep == segments) = true ↔
      segments = [] ∨ (∀ s ∈ segments, sep ∉ s.bytes) ∧
        (∀ first, segments.head? = some first → first.bytes ≠ []) ∧
        ∀ last, segments.getLast? = some last → last.bytes ≠ [] := by
  refine ⟨fun value => ⟨?_, ?_⟩, ?_⟩
  · exact fun s => notMem_of_mem_split
  · exact fun kept => join_split_eq_iff
  · exact fun segments => split_join_beq_iff

/-- The text `/a//b/` loses its outer slashes; the empty segment between the other two stays. -/
theorem split_join_doubled :
    (∀ s ∈ split [0x2F, 0x61, 0x2F, 0x2F, 0x62, 0x2F] 0x2F, 0x2F ∉ s.bytes) ∧
    (split [0x2F, 0x61, 0x2F, 0x2F, 0x62, 0x2F] 0x2F).join 0x2F = [0x61, 0x2F, 0x2F, 0x62] ∧
    (split (join [.owned [0x61], .owned [], .owned [0x62]] 0x2F) 0x2F ==
      [.owned [0x61], .owned [], .owned [0x62]]) = true := by
  have htrims : Separated.Trims (0x2F : UInt8) ([0x2F] ++ ([0x61, 0x2F, 0x2F, 0x62] ++ [0x2F]))
      [0x61, 0x2F, 0x2F, 0x62] := .cut (by simp) (by decide)
  obtain ⟨hsplit, hjoin⟩ := split_join 0x2F
  obtain ⟨hno, hkept⟩ := hsplit [0x2F, 0x61, 0x2F, 0x2F, 0x62, 0x2F]
  refine ⟨hno, (hkept _).mpr htrims, (hjoin _).mpr (.inr ⟨by decide, ?_, ?_⟩)⟩
  · rintro _ ⟨rfl⟩
    decide
  · rintro _ ⟨rfl⟩
    decide

end Segments

end Coap
