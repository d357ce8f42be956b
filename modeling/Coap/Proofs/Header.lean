import Coap.Proofs.MessageSlots

namespace Coap

theorem MessageType.ofBits_bits (t : MessageType) : ofBits t.bits = t := by
  cases t <;> rfl

theorem MessageType.exists_bits {n : Nat} (h : n < 4) : ∃ t : MessageType, t.bits.toNat = n := by
  match n, h with
  | 0, _ => exact ⟨.confirmable, rfl⟩
  | 1, _ => exact ⟨.nonConfirmable, rfl⟩
  | 2, _ => exact ⟨.acknowledgement, rfl⟩
  | 3, _ => exact ⟨.reset, rfl⟩

theorem MessageType.bits_lt (t : MessageType) : t.bits.toNat < 4 := by
  cases t <;> decide

theorem Code.ofByte_family (b : UInt8) : (ofByte b).family.toNat = b.toNat / 32 := by
  simp [ofByte, Nat.shiftRight_eq_div_pow]

theorem Code.ofByte_detail (b : UInt8) : (ofByte b).detail.toNat = b.toNat % 32 := by
  simpa [ofByte] using Nat.and_two_pow_sub_one_eq_mod b.toNat 5

theorem Code.eq_ofByte {c : Code} {b : UInt8} (hf : c.family.toNat = b.toNat / 32)
    (hd : c.detail.toNat = b.toNat % 32) : c = ofByte b := by
  rw [← ofByte_family] at hf
  rw [← ofByte_detail] at hd
  calc
    c = ⟨c.family, c.detail⟩ := rfl
    _ = ofByte b := by rw [UInt8.toNat_inj.mp hf, UInt8.toNat_inj.mp hd]

theorem Code.fitsByte_iff {c : Code} :
    c.fitsByte = true ↔ c.family.toNat ≤ 7 ∧ c.detail.toNat ≤ 31 := by
  simp [fitsByte, UInt8.le_iff_toNat_le]

theorem Code.toByte_toNat {c : Code} (h : c.fitsByte = true) :
    c.toByte.toNat = 32 * c.family.toNat + c.detail.toNat := by
  obtain ⟨hf, hd⟩ := fitsByte_iff.mp h
  have ho := Nat.shiftLeft_add_eq_or_of_lt (show c.detail.toNat < 2 ^ 5 by omega) c.family.toNat
  have hs : c.family.toNat <<< 5 % 256 = c.family.toNat <<< 5 := by
    rw [Nat.shiftLeft_eq]
    omega
  simp only [toByte, UInt8.toNat_or, UInt8.toNat_shiftLeft, UInt8.toNat_ofNat]
  simp only [Nat.reduceMod, Nat.reducePow, hs]
  rw [← ho, Nat.shiftLeft_eq]
  omega

namespace Message

/-- The fixed header and the token, with the message that they alone stand for. -/
inductive Opening : Bytes → Message → Prop
  | mk {head code idHigh idLow : UInt8} {type : MessageType} {c : Code} {id : UInt16}
      {token : Token} (version : head.toNat / 64 = 1)
      (kind : head.toNat / 16 % 4 = type.bits.toNat)
      (length : head.toNat % 16 = token.length) (family : c.family.toNat = code.toNat / 32)
      (detail : c.detail.toNat = code.toNat % 32)
      (word : id.toNat = 256 * idHigh.toNat + idLow.toNat) :
      Opening (head :: code :: idHigh :: idLow :: token.bytes) (bare type c id token)

/-- The first defect in the fixed header or the token. -/
inductive HeaderDefect : Bytes → HeaderError → Prop
  | tooShort {b : Bytes} (h : b.length < 4) : HeaderDefect b (.tooShort b.length)
  | version {head code idHigh idLow v : UInt8} {rest : Bytes} (hv : v.toNat = head.toNat / 64)
      (h : v ≠ protocolVersion) :
      HeaderDefect (head :: code :: idHigh :: idLow :: rest) (.unsupportedVersion v)
  | tokenLength {head code idHigh idLow : UInt8} {rest : Bytes} (hv : head.toNat / 64 = 1)
      (h : maxTokenLength < head.toNat % 16) :
      HeaderDefect (head :: code :: idHigh :: idLow :: rest) (.tokenLength (head.toNat % 16))
  | truncatedToken {head code idHigh idLow : UInt8} {rest : Bytes} (hv : head.toNat / 64 = 1)
      (hl : head.toNat % 16 ≤ maxTokenLength) (h : rest.length < head.toNat % 16) :
      HeaderDefect (head :: code :: idHigh :: idLow :: rest) .truncatedToken

theorem version_toNat (head : UInt8) : (head >>> 6).toNat = head.toNat / 64 := by
  simp [Nat.shiftRight_eq_div_pow]

theorem version_eq_iff {head : UInt8} : head >>> 6 = protocolVersion ↔ head.toNat / 64 = 1 := by
  rw [← version_toNat, ← UInt8.toNat_inj]
  rfl

theorem kind_toNat (head : UInt8) : (head >>> 4 &&& 3).toNat = head.toNat / 16 % 4 := by
  have h := Nat.and_two_pow_sub_one_eq_mod (head.toNat / 16) 2
  simpa [Nat.shiftRight_eq_div_pow] using h

theorem tokenLength_toNat (head : UInt8) : (head &&& 15).toNat = head.toNat % 16 := by
  simpa using Nat.and_two_pow_sub_one_eq_mod head.toNat 4

theorem id_toNat (high low : UInt8) :
    (high.toUInt16 <<< 8 ||| low.toUInt16).toNat = 256 * high.toNat + low.toNat := by
  have hl := low.toNat_lt
  have hh := high.toNat_lt
  have ho := Nat.shiftLeft_add_eq_or_of_lt (show low.toNat < 2 ^ 8 by omega) high.toNat
  have hs : high.toNat <<< 8 % 65536 = high.toNat <<< 8 := by
    rw [Nat.shiftLeft_eq]
    omega
  simp only [UInt16.toNat_or, UInt16.toNat_shiftLeft, UInt8.toNat_toUInt16, UInt16.toNat_ofNat,
    Nat.reduceMod, Nat.reducePow, hs]
  rw [← ho, Nat.shiftLeft_eq]
  omega

theorem Opening.read {front : Bytes} {m : Message} (h : Opening front m) (rest : Bytes) :
    decodeHeader (front ++ rest) = .ok (m, rest) := by
  cases h with
  | @mk head code idHigh idLow type c id token hv hk hl hf hd hw =>
    have hlen : (head &&& 15).toNat = token.bytes.length := by rw [tokenLength_toNat, hl]; rfl
    have htoken : Token.ofBytes? token.bytes = some token := dif_pos token.length_le
    have hkind : MessageType.ofBits (head >>> 4 &&& 3) = type := by
      rw [UInt8.toNat_inj.mp ((kind_toNat head).trans hk), MessageType.ofBits_bits]
    have hid : idHigh.toUInt16 <<< 8 ||| idLow.toUInt16 = id :=
      UInt16.toNat_inj.mp ((id_toNat idHigh idLow).trans hw.symm)
    have hle := token.length_le
    simp only [decodeHeader, List.cons_append, hlen]
    rw [if_neg (fun hne => hne (version_eq_iff.mpr hv)), if_neg (by omega),
      if_neg (by rw [List.length_append]; omega), List.take_left, htoken, List.drop_left]
    simp only [hkind, hid, ← Code.eq_ofByte hf hd]
    rfl

theorem HeaderDefect.read {b : Bytes} {e : HeaderError} (h : HeaderDefect b e) :
    decodeHeader b = .error e := by
  cases h with
  | tooShort h =>
    match b, h with
    | [], _ => rfl
    | [_], _ => rfl
    | [_, _], _ => rfl
    | [_, _, _], _ => rfl
    | _ :: _ :: _ :: _ :: _, h => simp only [List.length_cons] at h; omega
  | @version head _ _ _ v _ hv h =>
    have he : head >>> 6 = v := UInt8.toNat_inj.mp ((version_toNat head).trans hv.symm)
    simp only [decodeHeader]
    rw [he, if_pos h]
  | tokenLength hv h =>
    simp only [decodeHeader]
    rw [if_neg (fun hne => hne (version_eq_iff.mpr hv)), tokenLength_toNat, if_pos h]
  | truncatedToken hv hl h =>
    simp only [decodeHeader]
    rw [if_neg (fun hne => hne (version_eq_iff.mpr hv)), tokenLength_toNat, if_neg (by omega),
      if_pos h]

theorem opening_or_defect (b : Bytes) :
    (∃ front m rest, Opening front m ∧ b = front ++ rest) ∨ ∃ e, HeaderDefect b e := by
  match b with
  | [] | [_] | [_, _] | [_, _, _] => exact Or.inr ⟨_, .tooShort (by simp)⟩
  | head :: code :: idHigh :: idLow :: rest =>
    by_cases hv : head.toNat / 64 = 1
    · by_cases hl : maxTokenLength < head.toNat % 16
      · exact Or.inr ⟨_, .tokenLength hv hl⟩
      by_cases hr : rest.length < head.toNat % 16
      · exact Or.inr ⟨_, .truncatedToken hv (by omega) hr⟩
      have hlen : (rest.take (head.toNat % 16)).length = head.toNat % 16 := by
        rw [List.length_take]
        omega
      obtain ⟨type, hk⟩ := MessageType.exists_bits (show head.toNat / 16 % 4 < 4 by omega)
      let token : Token := ⟨rest.take (head.toNat % 16), by omega⟩
      have ho : Opening (head :: code :: idHigh :: idLow :: token.bytes)
          (bare type (.ofByte code) (idHigh.toUInt16 <<< 8 ||| idLow.toUInt16) token) :=
        .mk hv hk.symm hlen.symm (Code.ofByte_family code) (Code.ofByte_detail code)
          (id_toNat idHigh idLow)
      exact Or.inl ⟨_, _, rest.drop (head.toNat % 16), ho, by simp [token]⟩
    · have hne : head >>> 6 ≠ protocolVersion := fun he => hv (version_eq_iff.mp he)
      exact Or.inr ⟨_, .version (version_toNat head) hne⟩

end Message

end Coap
