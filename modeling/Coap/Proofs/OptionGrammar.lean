import Coap.WireOption.Read
import Coap.WireOption.Write
import Coap.Proofs.BigEndian

namespace Coap.WireOption

/-- Four bits and the extension bytes that they ask for, with the number that both stand for. -/
inductive Field : Nat → Nat → Bytes → Prop
  | short {n : Nat} (h : n < 13) : Field n n []
  | byte (b : UInt8) : Field 13 (13 + b.toNat) [b]
  | pair (high low : UInt8) : Field 14 (269 + 256 * high.toNat + low.toNat) [high, low]

/-- What is wrong with four bits that no number can be read from. -/
inductive FieldDefect (reserved : OptionError) : Nat → Bytes → OptionError → Prop
  | reserved (src : Bytes) : FieldDefect reserved 15 src reserved
  | noByte : FieldDefect reserved 13 [] .endOfStream
  | noPair {src : Bytes} (h : src.length < 2) : FieldDefect reserved 14 src .endOfStream

/-- The bytes of one option after option number `prev`: a head of two times four bits, the
extension of the delta, that of the length, and the value. -/
inductive Tlv (prev : Nat) : WireOption → Bytes → Prop
  | mk {head : UInt8} {delta : Nat} {deltaBytes lengthBytes value : Bytes}
      (hd : Field (head.toNat / 16) delta deltaBytes)
      (hl : Field (head.toNat % 16) value.length lengthBytes)
      (hn : prev + delta ≤ maxOptionNumber) :
      Tlv prev ⟨prev + delta, value⟩ (head :: (deltaBytes ++ lengthBytes ++ value))

/-- The first defect of bytes that are expected to start with an option. -/
inductive Broken (prev : Nat) : Bytes → OptionError → Prop
  | delta {head : UInt8} {src : Bytes} {e : OptionError} (hm : head ≠ payloadMarker)
      (h : FieldDefect (.reservedDelta 15) (head.toNat / 16) src e) : Broken prev (head :: src) e
  | length {head : UInt8} {delta : Nat} {deltaBytes src : Bytes} {e : OptionError}
      (hd : Field (head.toNat / 16) delta deltaBytes)
      (h : FieldDefect (.reservedLength 15) (head.toNat % 16) src e) :
      Broken prev (head :: (deltaBytes ++ src)) e
  | value {head : UInt8} {delta length : Nat} {deltaBytes lengthBytes src : Bytes}
      (hd : Field (head.toNat / 16) delta deltaBytes)
      (hl : Field (head.toNat % 16) length lengthBytes) (h : src.length < length) :
      Broken prev (head :: (deltaBytes ++ (lengthBytes ++ src))) .endOfStream
  | number {head : UInt8} {delta length : Nat} {deltaBytes lengthBytes src : Bytes}
      (hd : Field (head.toNat / 16) delta deltaBytes)
      (hl : Field (head.toNat % 16) length lengthBytes) (hv : length ≤ src.length)
      (h : maxOptionNumber < prev + delta) :
      Broken prev (head :: (deltaBytes ++ (lengthBytes ++ src))) .numberOverflow

/-- Where the options end: at the end of the bytes or at the payload marker. -/
def Stops (src : Bytes) : Prop := src = [] ∨ src.head? = some payloadMarker

theorem Field.nibble_lt {nibble n : Nat} {ext : Bytes} (h : Field nibble n ext) : nibble < 15 := by
  cases h <;> omega

theorem Field.le_maxField {nibble n : Nat} {ext : Bytes} (h : Field nibble n ext) :
    n ≤ maxField := by
  cases h with
  | short h => unfold maxField; omega
  | byte b => have := b.toNat_lt; unfold maxField; omega
  | pair high low => have := high.toNat_lt; have := low.toNat_lt; unfold maxField; omega

theorem Field.length_ext {nibble n : Nat} {ext : Bytes} (h : Field nibble n ext) :
    ext.length = extensionLength n := by
  unfold extensionLength
  cases h with
  | short h => rw [if_neg (by omega), if_neg (by omega)]; rfl
  | byte b => have := b.toNat_lt; rw [if_neg (by omega), if_pos (by omega)]; rfl
  | pair high low => rw [if_pos (by omega)]; rfl

/-- The number of a field has one spelling, the one that is written. -/
theorem field_eq_ok_iff {n nibble : Nat} {ext : Bytes} :
    field n = .ok (nibble, ext) ↔ Field nibble n ext := by
  constructor
  · intro h
    unfold field at h
    split at h
    next => cases h
    next hmax =>
      split at h
      next hp =>
        cases h
        have hm : maxField = 65804 := rfl
        have hv := BigEndian.value_pair (UInt16.ofNat (n - 269))
        have hw : (UInt16.ofNat (n - 269)).toNat = n - 269 := by
          rw [UInt16.toNat_ofNat']
          exact Nat.mod_eq_of_lt (by omega)
        generalize UInt16.ofNat (n - 269) = w at hv hw ⊢
        have he := Field.pair (w >>> 8).toUInt8 w.toUInt8
        simp only [BigEndian.pair, BigEndian.value, List.foldl_cons, List.foldl_nil] at hv
        rw [show 269 + 256 * (w >>> 8).toUInt8.toNat + w.toUInt8.toNat = n by omega] at he
        exact he
      next =>
        split at h
        next hb =>
          cases h
          have he := Field.byte (UInt8.ofNat (n - 13))
          rw [UInt8.toNat_ofNat', show 13 + (n - 13) % 2 ^ 8 = n by omega] at he
          exact he
        next hs =>
          cases h
          exact .short (by omega)
  · intro h
    have hmax := h.le_maxField
    cases h with
    | short h =>
      rw [field, if_neg (by omega), if_neg (by omega), if_neg (by omega)]
    | byte b =>
      have := b.toNat_lt
      rw [field, if_neg (by omega), if_neg (by omega), if_pos (by omega)]
      simp
    | pair high low =>
      have := high.toNat_lt
      have := low.toNat_lt
      rw [field, if_neg (by omega), if_pos (by omega),
        show 269 + 256 * high.toNat + low.toNat - 269 = 256 * high.toNat + low.toNat by omega,
        BigEndian.pair_value]

theorem exists_field {n : Nat} (h : n ≤ maxField) : ∃ nibble ext, Field nibble n ext := by
  cases hf : field n with
  | ok p => exact ⟨p.1, p.2, field_eq_ok_iff.mp hf⟩
  | error e =>
    unfold field at hf
    rw [if_neg (by omega)] at hf
    split at hf
    next => cases hf
    next => split at hf <;> cases hf

theorem Field.read {nibble n : Nat} {ext : Bytes} (h : Field nibble n ext) (reserved : OptionError)
    (rest : Bytes) : readField nibble reserved (ext ++ rest) = .ok (n, rest) := by
  cases h with
  | short h =>
    unfold readField
    rw [if_neg (by omega), if_neg (by omega), if_neg (by omega), List.nil_append]
  | byte b => rfl
  | pair high low => rfl

theorem FieldDefect.read {nibble : Nat} {reserved e : OptionError} {src : Bytes}
    (h : FieldDefect reserved nibble src e) : readField nibble reserved src = .error e := by
  cases h with
  | reserved => rfl
  | noByte => rfl
  | noPair h =>
    match src, h with
    | [], _ => rfl
    | [_], _ => rfl
    | _ :: _ :: _, h => simp only [List.length_cons] at h; omega

theorem field_or_defect {nibble : Nat} (h : nibble < 16) (reserved : OptionError) (src : Bytes) :
    (∃ n ext rest, Field nibble n ext ∧ src = ext ++ rest) ∨
      ∃ e, FieldDefect reserved nibble src e := by
  by_cases h₁₅ : nibble = 15
  · subst h₁₅
    exact Or.inr ⟨_, .reserved src⟩
  by_cases h₁₄ : nibble = 14
  · subst h₁₄
    match src with
    | high :: low :: rest => exact Or.inl ⟨_, _, rest, .pair high low, rfl⟩
    | [] => exact Or.inr ⟨_, .noPair (by simp)⟩
    | [_] => exact Or.inr ⟨_, .noPair (by simp)⟩
  by_cases h₁₃ : nibble = 13
  · subst h₁₃
    match src with
    | b :: rest => exact Or.inl ⟨_, _, rest, .byte b, rfl⟩
    | [] => exact Or.inr ⟨_, .noByte⟩
  exact Or.inl ⟨nibble, [], src, .short (by omega), rfl⟩

theorem Tlv.head_ne_marker {head : UInt8} {delta : Nat} {ext : Bytes}
    (hd : Field (head.toNat / 16) delta ext) : head ≠ payloadMarker := by
  rintro rfl
  exact absurd hd.nibble_lt (by decide)

theorem Tlv.read {prev : Nat} {o : WireOption} {bytes : Bytes} (h : Tlv prev o bytes)
    (rest : Bytes) : read prev (bytes ++ rest) = .ok (some (o, rest)) := by
  cases h with
  | mk hd hl hn =>
    have hm := Tlv.head_ne_marker hd
    simp only [List.cons_append, List.append_assoc, WireOption.read, if_neg hm, readAfterHead,
      hd.read, hl.read, bind, Except.bind, List.take_left, List.drop_left, Nat.lt_irrefl, if_false]
    rw [if_neg (by omega)]
    rfl

theorem Broken.read {prev : Nat} {src : Bytes} {e : OptionError} (h : Broken prev src e) :
    read prev src = .error e := by
  cases h with
  | delta hm h =>
    simp only [WireOption.read, if_neg hm, readAfterHead, h.read, bind, Except.bind]
    rfl
  | length hd h =>
    have hm := Tlv.head_ne_marker hd
    simp only [WireOption.read, if_neg hm, readAfterHead, hd.read, h.read, bind, Except.bind]
    rfl
  | value hd hl h =>
    have hm := Tlv.head_ne_marker hd
    simp only [WireOption.read, if_neg hm, readAfterHead, hd.read, hl.read, bind, Except.bind]
    rw [if_pos (by rw [List.length_take]; omega)]
    rfl
  | number hd hl hv h =>
    have hm := Tlv.head_ne_marker hd
    simp only [WireOption.read, if_neg hm, readAfterHead, hd.read, hl.read, bind, Except.bind]
    rw [if_neg (by rw [List.length_take]; omega), if_pos h]
    rfl

theorem Stops.read {src : Bytes} (h : Stops src) (prev : Nat) : read prev src = .ok none := by
  rcases h with rfl | h
  · rfl
  · cases src with
    | nil => rfl
    | cons head src =>
      have hm : head = payloadMarker := by simpa using h
      simp only [WireOption.read, if_pos hm]

/-- Bytes start with an option, or have a defect there, or the options end. -/
theorem stops_or_tlv_or_broken (prev : Nat) (src : Bytes) :
    Stops src ∨ (∃ o bytes rest, Tlv prev o bytes ∧ src = bytes ++ rest) ∨
      ∃ e, Broken prev src e := by
  cases src with
  | nil => exact Or.inl (Or.inl rfl)
  | cons head src =>
    by_cases hm : head = payloadMarker
    · subst hm
      exact Or.inl (Or.inr rfl)
    apply Or.inr
    have hb := head.toNat_lt
    rcases field_or_defect (show head.toNat / 16 < 16 by omega) (.reservedDelta 15) src with
      ⟨delta, deltaBytes, src, hd, rfl⟩ | ⟨e, he⟩
    · rcases field_or_defect (show head.toNat % 16 < 16 by omega) (.reservedLength 15) src with
        ⟨length, lengthBytes, src, hl, rfl⟩ | ⟨e, he⟩
      · by_cases hv : src.length < length
        · exact Or.inr ⟨_, .value hd hl hv⟩
        by_cases hn : maxOptionNumber < prev + delta
        · exact Or.inr ⟨_, .number hd hl (by omega) hn⟩
        · have hlen : (src.take length).length = length := by rw [List.length_take]; omega
          have hl' : Field (head.toNat % 16) (src.take length).length lengthBytes := by
            rw [hlen]
            exact hl
          have ht := Tlv.mk hd hl' (show prev + delta ≤ maxOptionNumber by omega)
          exact Or.inl ⟨_, _, src.drop length, ht, by simp⟩
      · exact Or.inr ⟨e, .length hd he⟩
    · exact Or.inr ⟨e, .delta hm he⟩

theorem read_eq_some_iff {prev : Nat} {src rest : Bytes} {o : WireOption} :
    read prev src = .ok (some (o, rest)) ↔ ∃ bytes, Tlv prev o bytes ∧ src = bytes ++ rest := by
  constructor
  · intro h
    rcases stops_or_tlv_or_broken prev src with hs | ⟨o', bytes, rest', ht, rfl⟩ | ⟨e, hb⟩
    · rw [hs.read] at h
      cases h
    · rw [ht.read] at h
      cases h
      exact ⟨bytes, ht, rfl⟩
    · rw [hb.read] at h
      cases h
  · rintro ⟨bytes, ht, rfl⟩
    exact ht.read rest

theorem encode_add (prev delta : Nat) (value : Bytes) :
    encode prev ⟨prev + delta, value⟩ =
      (field delta).bind fun d => (field value.length).bind fun l =>
        .ok (UInt8.ofNat (16 * d.1 + l.1) :: (d.2 ++ l.2 ++ value)) := by
  have hp : ¬prev + delta < prev := by omega
  unfold encode
  simp only [if_neg hp, Nat.add_sub_cancel_left]
  rfl

/-- The bytes that are written for an option are those of the grammar. -/
theorem encode_eq_ok_iff {prev : Nat} {o : WireOption} {bytes : Bytes}
    (hn : o.number ≤ maxOptionNumber) : o.encode prev = .ok bytes ↔ Tlv prev o bytes := by
  constructor
  · intro h
    obtain ⟨number, value⟩ := o
    by_cases hp : number < prev
    · unfold encode at h
      simp only [if_pos hp] at h
      cases h
    · obtain ⟨delta, rfl⟩ := Nat.exists_eq_add_of_le (Nat.le_of_not_lt hp)
      rw [encode_add] at h
      cases hd : field delta with
      | error e => rw [hd] at h; cases h
      | ok d =>
        cases hl : field value.length with
        | error e => rw [hd, hl] at h; cases h
        | ok l =>
          rw [hd, hl] at h
          cases h
          have fd := field_eq_ok_iff.mp hd
          have fl := field_eq_ok_iff.mp hl
          have bd := fd.nibble_lt
          have bl := fl.nibble_lt
          have hh : (UInt8.ofNat (16 * d.1 + l.1)).toNat = 16 * d.1 + l.1 := by
            rw [UInt8.toNat_ofNat']
            exact Nat.mod_eq_of_lt (by omega)
          exact .mk (by rw [hh, show (16 * d.1 + l.1) / 16 = d.1 by omega]; exact fd)
            (by rw [hh, show (16 * d.1 + l.1) % 16 = l.1 by omega]; exact fl) hn
  · intro h
    cases h with
    | @mk head delta deltaBytes lengthBytes value hd hl hn =>
      rw [encode_add, field_eq_ok_iff.mpr hd, field_eq_ok_iff.mpr hl]
      simp only [Except.bind, Nat.div_add_mod, UInt8.ofNat_toNat]

theorem Tlv.number_le {prev : Nat} {o : WireOption} {bytes : Bytes} (h : Tlv prev o bytes) :
    o.number ≤ maxOptionNumber := by
  cases h
  assumption

theorem Tlv.unique {prev : Nat} {o : WireOption} {bytes bytes' : Bytes} (h : Tlv prev o bytes)
    (h' : Tlv prev o bytes') : bytes = bytes' := by
  have hn := h.number_le
  have he := ((encode_eq_ok_iff hn).mpr h).symm.trans ((encode_eq_ok_iff hn).mpr h')
  simpa using he

theorem Tlv.length_eq {prev : Nat} {o : WireOption} {bytes : Bytes} (h : Tlv prev o bytes) :
    bytes.length = size (o.number - prev) o.value.length := by
  cases h with
  | mk hd hl hn =>
    simp only [List.length_cons, List.length_append, hd.length_ext, hl.length_ext, size,
      Nat.add_sub_cancel_left]
    omega

theorem Tlv.le_number {prev : Nat} {o : WireOption} {bytes : Bytes} (h : Tlv prev o bytes) :
    prev ≤ o.number := by
  cases h
  exact Nat.le_add_right _ _

theorem exists_tlv_iff {prev : Nat} {o : WireOption} (hn : o.number ≤ maxOptionNumber) :
    (∃ bytes, Tlv prev o bytes) ↔
      prev ≤ o.number ∧ o.number - prev ≤ maxField ∧ o.value.length ≤ maxField := by
  constructor
  · rintro ⟨bytes, ht⟩
    refine ⟨ht.le_number, ?_⟩
    cases ht with
    | mk hd hl _ =>
      rw [Nat.add_sub_cancel_left]
      exact ⟨hd.le_maxField, hl.le_maxField⟩
  · rintro ⟨hp, hd, hl⟩
    obtain ⟨number, value⟩ := o
    obtain ⟨delta, rfl⟩ := Nat.exists_eq_add_of_le hp
    rw [Nat.add_sub_cancel_left] at hd
    obtain ⟨d, deltaBytes, fd⟩ := exists_field hd
    obtain ⟨l, lengthBytes, fl⟩ := exists_field hl
    have he := encode_add prev delta value
    rw [field_eq_ok_iff.mpr fd, field_eq_ok_iff.mpr fl] at he
    exact ⟨_, (encode_eq_ok_iff hn).mp he⟩

theorem exists_tlv {prev : Nat} {o : WireOption} (hp : prev ≤ o.number) (hn : o.number ≤ maxField)
    (hv : o.value.length ≤ maxField) : ∃ bytes, Tlv prev o bytes := by
  have hm : maxField ≤ maxOptionNumber := by decide
  have hd : o.number - prev ≤ maxField := by omega
  exact (exists_tlv_iff (by omega)).mpr ⟨hp, hd, hv⟩

end Coap.WireOption
