import Coap.Proofs.OptionSeries

namespace Coap.WireOption

/-- Four bits that ask for more extension bytes than there are. -/
theorem Field.defect_of_short {nibble n : Nat} {ext src : Bytes} (h : Field nibble n ext)
    (short : src.length < ext.length) (reserved : OptionError) :
    FieldDefect reserved nibble src .endOfStream := by
  cases h with
  | short => exact absurd short (Nat.not_lt_zero _)
  | byte b =>
    obtain rfl : src = [] := List.length_eq_zero_iff.mp (Nat.lt_one_iff.mp short)
    exact .noByte
  | pair high low => exact .noPair short

/-- Wherever the bytes of an option are cut, the field or value that the cut goes through is missed
first. -/
theorem Tlv.broken_take {prev : Nat} {o : WireOption} {bytes : Bytes} (h : Tlv prev o bytes)
    {k : Nat} (hpos : 0 < k) (hlt : k < bytes.length) :
    Broken prev (bytes.take k) .endOfStream := by
  cases h with
  | @mk head delta deltaBytes lengthBytes value hd hl hn =>
    obtain ⟨i, rfl⟩ := Nat.exists_eq_add_of_lt hpos
    simp only [Nat.zero_add, List.take_succ_cons, List.append_assoc]
    simp only [List.length_cons, List.length_append] at hlt
    by_cases hdelta : i < deltaBytes.length
    · have hcut : (deltaBytes ++ (lengthBytes ++ value)).take i = deltaBytes.take i :=
        List.take_append_of_le_length (Nat.le_of_lt hdelta)
      have hshort : (deltaBytes.take i).length < deltaBytes.length := by
        rw [List.length_take]
        omega
      rw [hcut]
      exact .delta (Tlv.head_ne_marker hd) (hd.defect_of_short hshort _)
    obtain ⟨j, rfl⟩ := Nat.exists_eq_add_of_le (Nat.le_of_not_lt hdelta)
    rw [List.take_length_add_append]
    by_cases hlength : j < lengthBytes.length
    · have hcut : (lengthBytes ++ value).take j = lengthBytes.take j :=
        List.take_append_of_le_length (Nat.le_of_lt hlength)
      have hshort : (lengthBytes.take j).length < lengthBytes.length := by
        rw [List.length_take]
        omega
      rw [hcut]
      exact .length hd (hl.defect_of_short hshort _)
    obtain ⟨l, rfl⟩ := Nat.exists_eq_add_of_le (Nat.le_of_not_lt hlength)
    rw [List.take_length_add_append]
    exact .value hd hl (by rw [List.length_take]; omega)

theorem exists_write_iff {prev : Nat} {o : WireOption} {bytes : Bytes}
    (hn : o.number ≤ maxOptionNumber) :
    (∃ room, (o.write prev room).fault = none ∧ (o.write prev room).bytes = bytes) ↔
      Tlv prev o bytes := by
  constructor
  · rintro ⟨room, done, rfl⟩
    exact tlv_of_write hn done
  · intro h
    have hw := h.write (Nat.le_refl bytes.length)
    exact ⟨bytes, by rw [hw], by rw [hw]⟩

/-- What is read as an option is what writing that option gives, byte for byte. There are such bytes
exactly for distances and lengths up to 65804, and the same for every reader. They stand for the
option whatever comes after them, and none of them can be missed. -/
theorem read_prefixFree (prev : Nat) (o : WireOption) :
    (∀ src rest, read prev src = .ok (some (o, rest)) ↔
      o.number ≤ maxOptionNumber ∧ ∃ bytes room, src = bytes ++ rest ∧
        (o.write prev room).fault = none ∧ (o.write prev room).bytes = bytes) ∧
    ((∃ src rest, read prev src = .ok (some (o, rest))) ↔ o.number ≤ maxOptionNumber ∧
      prev ≤ o.number ∧ o.number - prev ≤ 65804 ∧ o.value.length ≤ 65804) ∧
    ∀ bytes rest, read prev (bytes ++ rest) = .ok (some (o, rest)) →
      (∀ room, bytes.length ≤ room.length →
        o.write prev room = ⟨bytes, room.drop bytes.length, none⟩) ∧
      (∀ other, read prev (bytes ++ other) = .ok (some (o, other))) ∧
      (∀ k, 0 < k → k < bytes.length → read prev (bytes.take k) = .error .endOfStream) ∧
      ∀ bytes' rest', read prev (bytes' ++ rest') = .ok (some (o, rest')) → bytes' = bytes := by
  have hread {bytes rest : Bytes} (h : read prev (bytes ++ rest) = .ok (some (o, rest))) :
      Tlv prev o bytes := by
    obtain ⟨bytes', ht, he⟩ := read_eq_some_iff.mp h
    rw [List.append_cancel_right he]
    exact ht
  refine ⟨?_, ?_, ?_⟩
  · intro src rest
    rw [read_eq_some_iff]
    constructor
    · rintro ⟨bytes, ht, hsrc⟩
      obtain ⟨room, done, hbytes⟩ := (exists_write_iff ht.number_le).mpr ht
      exact ⟨ht.number_le, bytes, room, hsrc, done, hbytes⟩
    · rintro ⟨hn, bytes, room, hsrc, done, hbytes⟩
      exact ⟨bytes, (exists_write_iff hn).mp ⟨room, done, hbytes⟩, hsrc⟩
  · constructor
    · rintro ⟨src, rest, h⟩
      obtain ⟨bytes, ht, -⟩ := read_eq_some_iff.mp h
      exact ⟨ht.number_le, (exists_tlv_iff ht.number_le).mp ⟨bytes, ht⟩⟩
    · rintro ⟨hn, hbounds⟩
      obtain ⟨bytes, ht⟩ := (exists_tlv_iff hn).mpr hbounds
      exact ⟨bytes ++ [], [], ht.read []⟩
  · intro bytes rest h
    have ht := hread h
    refine ⟨fun room hroom => ht.write hroom, ht.read, ?_, ?_⟩
    · intro k hpos hlt
      exact (ht.broken_take hpos hlt).read
    · intro bytes' rest' h'
      exact (hread h').unique ht

/-- Option 300 after option 11: both fields are extended, and a cut inside the distance is missed
there. -/
theorem read_prefixFree_extended :
    let o : WireOption := ⟨300, [1, 2, 3, 4, 5, 6, 7, 8, 9, 10, 11, 12, 13]⟩
    let bytes : Bytes := 0xED :: 0x00 :: 0x14 :: 0x00 :: o.value
    read 11 (bytes ++ [0xFF, 1]) = .ok (some (o, [0xFF, 1])) ∧
      o.write 11 (List.replicate 20 0) = ⟨bytes, [0, 0, 0], none⟩ ∧
      read 11 (bytes ++ [0xC0]) = .ok (some (o, [0xC0])) ∧
      read 11 (bytes.take 2) = .error .endOfStream := by
  intro o bytes
  have hread : read 11 (bytes ++ [0xFF, 1]) = .ok (some (o, [0xFF, 1])) := rfl
  obtain ⟨write, other, cut, -⟩ := (read_prefixFree 11 o).2.2 bytes [0xFF, 1] hread
  exact ⟨hread, write (List.replicate 20 0) (by decide), other [0xC0],
    cut 2 (by decide) (by decide)⟩

end Coap.WireOption
