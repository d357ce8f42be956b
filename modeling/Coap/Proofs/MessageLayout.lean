import Coap.Proofs.MessageReachable

namespace Coap

theorem WireOption.writeAll_append (prev : Nat) (os later : List WireOption) (room : Bytes) :
    writeAll prev (os ++ later) room =
      (writeAll prev os room).andThen (writeAll (lastNumber prev os) later) := by
  induction os generalizing prev room with
  | nil => rfl
  | cons o os ih =>
    have ht : writeAll o.number (os ++ later) = fun room =>
        (writeAll o.number os room).andThen (writeAll (lastNumber o.number os) later) :=
      funext fun room => ih o.number room
    rw [List.cons_append, writeAll, ht, lastNumber_cons, writeAll, Written.andThen_assoc]

namespace Message

/-- The options that a message is written as: ascending by number, those of one number in the order
of its slot. -/
def wireOptions (m : Message) : List WireOption :=
  m.present.toList.flatMap fun k => (m.values k).map (WireOption.mk k.number)

theorem valueLengths_eq (m : Message) (k : KnownOption) :
    m.valueLengths k = (m.values k).map List.length := by
  cases k <;>
    simp [valueLengths, values, BigEndian.length_minimal, Segment.length, Function.comp_def]

theorem valueSizes_eq (m : Message) : m.valueSizes = WireOption.outline m.wireOptions := by
  simp only [valueSizes, wireOptions, WireOption.outline, List.map_flatMap, valueLengths_eq,
    List.map_map]
  rfl

theorem lastNumber_values {values : List Bytes} (h : values ≠ []) (prev number : Nat) :
    WireOption.lastNumber prev (values.map (WireOption.mk number)) = number := by
  obtain ⟨init, v, rfl⟩ := List.eq_nil_or_concat values |>.resolve_left h
  simp [WireOption.lastNumber]

/-- Slot after slot or option after option is the same, as long as no slot is empty. -/
theorem writeSlots_eq {m : Message} {ks : List KnownOption} (h : ∀ k ∈ ks, m.values k ≠ [])
    (prev : Nat) (room : Bytes) : m.writeSlots prev ks room = WireOption.writeAll prev
      (ks.flatMap fun k => (m.values k).map (WireOption.mk k.number)) room := by
  induction ks generalizing prev room with
  | nil => rfl
  | cons k ks ih =>
    have ht : m.writeSlots k.number ks = WireOption.writeAll k.number
        (ks.flatMap fun k => (m.values k).map (WireOption.mk k.number)) :=
      funext fun room => ih (fun p hp => h p (List.mem_cons_of_mem k hp)) k.number room
    rw [List.flatMap_cons, WireOption.writeAll_append, lastNumber_values (h k (by simp)),
      writeSlots, ht]

theorem mem_wireOptions {m : Message} {o : WireOption} :
    o ∈ m.wireOptions ↔ ∃ k, m.has k = true ∧ o.number = k.number ∧ o.value ∈ m.values k := by
  simp only [wireOptions, List.mem_flatMap, OptionSet.mem_toList, List.mem_map]
  constructor
  · rintro ⟨k, hk, v, hv, rfl⟩
    exact ⟨k, hk, rfl, hv⟩
  · rintro ⟨k, hk, hn, hv⟩
    exact ⟨k, hk, o.value, hv, by rw [← hn]⟩

theorem wireOptions_ascending (m : Message) :
    m.wireOptions.Pairwise fun o p => o.number ≤ p.number := by
  rw [wireOptions, List.pairwise_flatMap]
  constructor
  · intro k _
    exact List.pairwise_map.mpr (List.pairwise_of_forall fun _ _ => Nat.le_refl _)
  · apply m.present.toList_ascending.imp
    intro k l hkl o ho p hp
    obtain ⟨_, _, rfl⟩ := List.mem_map.mp ho
    obtain ⟨_, _, rfl⟩ := List.mem_map.mp hp
    exact Nat.le_of_lt hkl

theorem valueSizes_ascending (m : Message) : m.valueSizes.Pairwise fun a b => a.1 ≤ b.1 := by
  rw [valueSizes_eq, WireOption.outline, List.pairwise_map]
  exact m.wireOptions_ascending

theorem Coherent.acceptable {m : Message} (h : m.Coherent) :
    ∀ o ∈ m.wireOptions, o.Acceptable := by
  intro o ho
  obtain ⟨k, hk, hn, hv⟩ := mem_wireOptions.mp ho
  have hb := KnownOption.length_le_of_admits (h.admitted k hk o.value hv)
  exact Or.inl ⟨k, hn, hb.1, hb.2⟩

theorem Coherent.exists_series {m : Message} (h : m.Coherent) :
    ∃ body, WireOption.Series 0 m.wireOptions body := by
  apply WireOption.exists_series (fun _ _ => Nat.zero_le _) m.wireOptions_ascending
  intro o ho
  obtain ⟨k, hk, hn, hv⟩ := mem_wireOptions.mp ho
  have hb := (KnownOption.length_le_of_admits (h.admitted k hk o.value hv)).2
  have hm : k.maxLength ≤ maxField := by cases k <;> decide
  have hk : k.number ≤ maxField := Nat.le_trans k.number_le (by decide)
  exact ⟨by omega, by omega⟩

def layout (m : Message) (body : Bytes) : Bytes := m.header ++ m.token.bytes ++ (body ++ m.trailer)

theorem length_layout {m : Message} {body : Bytes} (h : WireOption.Series 0 m.wireOptions body) :
    (m.layout body).length = m.encodedLength := by
  have he : m.encodedLength
      = 4 + m.token.length + WireOption.sizes 0 m.valueSizes + m.trailer.length := by
    unfold encodedLength trailer
    cases m.payload with
    | none => rfl
    | some p => simp only [List.length_cons, Segment.length]; omega
  have hh : m.header.length = 4 := rfl
  rw [he, valueSizes_eq, ← h.length_eq, Token.length, layout]
  simp only [List.length_append, hh]
  omega

theorem Coherent.writeTo {m : Message} (h : m.Coherent) {body : Bytes}
    (hs : WireOption.Series 0 m.wireOptions body) (hc : m.code.fitsByte = true)
    (hl : m.code.isLocal = false) {buffer : Bytes} (hb : m.encodedLength ≤ buffer.length) :
    m.writeTo buffer = ⟨m.layout body, buffer.drop m.encodedLength, none⟩ := by
  have hlen := length_layout hs
  simp only [layout, List.length_append] at hlen
  have hi : ∀ k ∈ m.present.toList, m.values k ≠ [] :=
    fun k hk => h.inhabited k (OptionSet.mem_toList.mp hk)
  have hfront : (m.header ++ m.token.bytes).length ≤ buffer.length := by
    rw [List.length_append]
    omega
  have hbody : body.length ≤ (buffer.drop (m.header ++ m.token.bytes).length).length := by
    rw [List.length_drop, List.length_append]
    omega
  have hback : m.trailer.length
      ≤ ((buffer.drop (m.header ++ m.token.bytes).length).drop body.length).length := by
    rw [List.length_drop, List.length_drop, List.length_append]
    omega
  -- with no empty slot the writer's numbers are those of the options before
  have hw := hs.writeAll hbody
  rw [wireOptions] at hw
  rw [Message.writeTo, hc, hl, if_neg (by decide), if_neg (by decide), if_neg (by omega),
    Written.put_of_le hfront, Written.andThen_of_done rfl]
  simp only [writeSlots_eq hi, hw, Written.andThen_of_done, Written.put_of_le hback]
  rw [List.drop_drop, List.drop_drop, layout, ← hlen, List.length_append]

theorem Coherent.encode {m : Message} (h : m.Coherent) {body : Bytes}
    (hs : WireOption.Series 0 m.wireOptions body) (hc : m.code.fitsByte = true)
    (hl : m.code.isLocal = false) : m.encode = .ok (m.layout body) := by
  have hb : m.encodedLength ≤ (List.replicate m.encodedLength (0 : UInt8)).length :=
    Nat.le_of_eq List.length_replicate.symm
  simp only [Message.encode, h.writeTo hs hc hl hb]

theorem fitsByte_eq_true_iff {c : Code} : c.fitsByte = true ↔ ¬(7 < c.family ∨ 31 < c.detail) := by
  rw [Code.fitsByte_iff, UInt8.lt_iff_toNat_lt, UInt8.lt_iff_toNat_lt]
  simp only [UInt8.toNat_ofNat]
  omega

theorem isLocal_eq_true_iff {c : Code} : c.isLocal = true ↔ c.family = 6 := by
  rw [Code.isLocal, beq_iff_eq]

/-- What a write leaves, by what the writer checks and in the order in which it does. -/
theorem Coherent.writeTo_eq {m : Message} (h : m.Coherent) {body : Bytes}
    (hs : WireOption.Series 0 m.wireOptions body) (dest : Bytes) : m.writeTo dest =
      if 7 < m.code.family ∨ 31 < m.code.detail then .failed dest (.invalidCode m.code)
      else if m.code.family = 6 then .failed dest (.localCode m.code)
      else if dest.length < m.encodedLength then
        .failed dest (.bufferTooSmall dest.length m.encodedLength)
      else ⟨m.layout body, dest.drop m.encodedLength, none⟩ := by
  by_cases hc : m.code.fitsByte = true
  · rw [if_neg (fitsByte_eq_true_iff.mp hc)]
    by_cases hl : m.code.isLocal = true
    · rw [if_pos (isLocal_eq_true_iff.mp hl), Message.writeTo, hc, hl]
      rfl
    · have hl' : m.code.isLocal = false := by simpa using hl
      rw [if_neg fun he => hl (isLocal_eq_true_iff.mpr he)]
      by_cases hb : dest.length < m.encodedLength
      · rw [if_pos hb, Message.writeTo, hc, hl', if_neg (by decide), if_neg (by decide), if_pos hb]
      · rw [if_neg hb, h.writeTo hs hc hl' (by omega)]
  · have hc' : m.code.fitsByte = false := by simpa using hc
    rw [if_pos (Decidable.not_not.mp fun hn => hc (fitsByte_eq_true_iff.mpr hn)),
      Message.writeTo, hc']
    rfl

/-- The size that is computed beforehand and the writer agree, and the writer takes all or nothing:
its only faults are those that it finds before the first byte, in this order, and then the buffer
stays as it was. Otherwise no write inside lacks room, no number is below the one before it, and
exactly as many bytes as computed are written. -/
theorem writeTo_allOrNothing {m : Message} (h : m.Reachable) (dest : Bytes) :
    (m.writeTo dest).fault =
      (if 7 < m.code.family ∨ 31 < m.code.detail then some (.invalidCode m.code)
      else if m.code.family = 6 then some (.localCode m.code)
      else if dest.length < m.encodedLength then some (.bufferTooSmall dest.length m.encodedLength)
      else none) ∧
    ((m.writeTo dest).fault ≠ none → (m.writeTo dest).buffer = dest) ∧
    ((m.writeTo dest).fault = none →
      (m.writeTo dest).bytes.length = m.encodedLength ∧
      (m.writeTo dest).room = dest.drop m.encodedLength ∧
      m.encode = .ok (m.writeTo dest).bytes) ∧
    m.valueSizes.Pairwise fun a b => a.1 ≤ b.1 := by
  obtain ⟨body, hs⟩ := h.coherent.exists_series
  have hlen := length_layout hs
  have ha := m.valueSizes_ascending
  rw [h.coherent.writeTo_eq hs dest]
  by_cases hc : 7 < m.code.family ∨ 31 < m.code.detail
  · simp only [if_pos hc]
    exact ⟨rfl, fun _ => rfl, nofun, ha⟩
  simp only [if_neg hc]
  by_cases hl : m.code.family = 6
  · simp only [if_pos hl]
    exact ⟨rfl, fun _ => rfl, nofun, ha⟩
  simp only [if_neg hl]
  by_cases hb : dest.length < m.encodedLength
  · simp only [if_pos hb]
    exact ⟨rfl, fun _ => rfl, nofun, ha⟩
  rw [if_neg hb, if_neg hb]
  have hl' : m.code.isLocal = false := by simpa [Code.isLocal] using hl
  have he := h.coherent.encode hs (fitsByte_eq_true_iff.mpr hc) hl'
  exact ⟨rfl, fun hne => absurd rfl hne, fun _ => ⟨hlen, rfl, he⟩, ha⟩

/-- Options that were set in any order, and a payload: fifteen bytes are computed and written. Two
bytes that are left over stay as they were, and with one byte too few nothing is written. -/
theorem writeTo_allOrNothing_options :
    let m := (((((new .confirmable .get 7).edit (.accept 60)).1.edit
      (.segments .uriPath [0x61, 0x2F, 0x62])).1.edit (.etag [9])).1.edit
      (.payload [0xAA, 0xBB])).1
    let long : Bytes := List.replicate 17 0xEE
    let short : Bytes := List.replicate 14 0xEE
    m.encodedLength = 15 ∧
      (m.writeTo long).fault = none ∧ (m.writeTo long).room = [0xEE, 0xEE] ∧
      m.encode = .ok (m.writeTo long).bytes ∧
      (m.writeTo long).bytes =
        [0x40, 1, 0, 7, 0x41, 9, 0x71, 0x61, 1, 0x62, 0x51, 60, 0xFF, 0xAA, 0xBB] ∧
      (m.writeTo short).fault = some (.bufferTooSmall 14 15) ∧
      (m.writeTo short).buffer = short := by
  intro m long short
  have hm : m.Reachable :=
    .edited (.edited (.edited (.edited (.new .confirmable .get 7) _) _) _) _
  have hsize : m.encodedLength = 15 := by decide
  obtain ⟨hlong, _, hwritten, _⟩ := writeTo_allOrNothing hm long
  obtain ⟨hshort, hkept, _⟩ := writeTo_allOrNothing hm short
  rw [hsize] at hlong hshort
  have hfits : (m.writeTo long).fault = none := hlong
  have hlacks : (m.writeTo short).fault = some (.bufferTooSmall 14 15) := hshort
  obtain ⟨_, hroom, hencode⟩ := hwritten hfits
  rw [hsize] at hroom
  refine ⟨hsize, hfits, hroom, hencode, by decide, hlacks, hkept ?_⟩
  rw [hlacks]
  exact Option.some_ne_none _

end Message

end Coap
