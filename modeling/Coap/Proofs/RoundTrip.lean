import Coap.Proofs.MessageLayout
import Coap.Proofs.SegmentContent

namespace Coap

namespace Message

/-- The message without a copy of its text values, as it is decoded. -/
def borrow (m : Message) : Message :=
  { m with
    uriHost := m.uriHost.borrow
    locationPath := m.locationPath.map Segment.borrow
    uriPath := m.uriPath.map Segment.borrow
    uriQuery := m.uriQuery.map Segment.borrow
    locationQuery := m.locationQuery.map Segment.borrow
    proxyUri := m.proxyUri.borrow
    payload := m.payload.map Segment.borrow }

/-- Equal messages differ at most in who owns the bytes. -/
theorem beq_iff_borrow_eq {m n : Message} : (m == n) = true ↔ m.borrow = n.borrow := by
  change (_ && m.payload == n.payload) = true ↔ _
  simp only [Bool.and_eq_true, beq_iff_eq, Segment.beq_iff, Segments.beq_iff,
    Segment.option_beq_iff, borrow, Message.mk.injEq, and_assoc]

theorem borrow_borrow (m : Message) : m.borrow.borrow = m.borrow := by
  have hs (s : Segment) : s.borrow.borrow = s.borrow := rfl
  simp [borrow, hs, Function.comp_def]

theorem values_borrow (m : Message) (k : KnownOption) : m.borrow.values k = m.values k := by
  cases k <;> first | rfl | exact Segments.map_bytes_borrow _

theorem trailer_borrow (m : Message) : m.borrow.trailer = m.trailer := by
  have hp : m.borrow.payload = m.payload.map Segment.borrow := rfl
  unfold trailer
  rw [hp]
  cases m.payload <;> rfl

theorem encodedLength_borrow (m : Message) : m.borrow.encodedLength = m.encodedLength := by
  have hp : m.borrow.payload = m.payload.map Segment.borrow := rfl
  have ht : m.borrow.token = m.token := rfl
  have hs : m.borrow.valueSizes = m.valueSizes := by
    simp only [valueSizes, valueLengths_eq, values_borrow]
    rfl
  unfold encodedLength
  rw [hs, hp, ht]
  cases m.payload <;> rfl

theorem writeSlots_borrow (m : Message) (prev : Nat) (ks : List KnownOption) (room : Bytes) :
    m.borrow.writeSlots prev ks room = m.writeSlots prev ks room := by
  induction ks generalizing prev room with
  | nil => rfl
  | cons k ks ih =>
    have ht : m.borrow.writeSlots k.number ks = m.writeSlots k.number ks :=
      funext fun room => ih k.number room
    rw [writeSlots, writeSlots, values_borrow, ht]

/-- What is written does not tell who owns the bytes. -/
theorem writeTo_borrow (m : Message) (buffer : Bytes) :
    m.borrow.writeTo buffer = m.writeTo buffer := by
  have hw : m.borrow.writeSlots 0 m.present.toList = m.writeSlots 0 m.present.toList :=
    funext fun room => m.writeSlots_borrow 0 m.present.toList room
  have hpresent : m.borrow.present = m.present := rfl
  have hcode : m.borrow.code = m.code := rfl
  have hfront : m.borrow.header ++ m.borrow.token.bytes = m.header ++ m.token.bytes := rfl
  simp only [writeTo, encodedLength_borrow, trailer_borrow, hpresent, hw, hcode, hfront]

theorem encode_borrow (m : Message) : m.borrow.encode = m.encode := by
  simp only [encode, writeTo_borrow, encodedLength_borrow]

/-- Slots that write the same values hold the same. -/
theorem borrow_eq_of_values {m n : Message} (hp : m.present = n.present)
    (hv : ∀ k, m.values k = n.values k) (hf : m.borrow.frame = n.borrow.frame) :
    m.borrow = n.borrow := by
  have hword {a b : UInt16} (h : BigEndian.minimal a.toUInt32 = BigEndian.minimal b.toUInt32) :
      a = b := UInt16.toUInt32_inj.mp (BigEndian.minimal_inj h)
  have hone (k : KnownOption) {a b : Bytes} (ha : m.values k = [a]) (hb : n.values k = [b]) :
      a = b := by
    have h := hv k
    rw [ha, hb] at h
    exact List.head_eq_of_cons_eq h
  have hmany (k : KnownOption) {s t : Segments} (hs : m.values k = s.map Segment.bytes)
      (ht : n.values k = t.map Segment.bytes) : s.map Segment.borrow = t.map Segment.borrow := by
    have h := hv k
    rw [hs, ht] at h
    exact Segments.map_borrow_eq_iff.mpr h
  have haccept : m.accept = n.accept :=
    List.map_inj_right (fun _ _ h => hword h) |>.mp (hv .accept)
  simp only [frame, Prod.mk.injEq] at hf
  obtain ⟨hid, htype, hversion, htoken, hcode, hpayload⟩ := hf
  simp only [borrow, Message.mk.injEq]
  exact ⟨hid, htype, hversion, htoken, hcode, hp, hone .ifMatch rfl rfl,
    Segment.borrow_eq_iff.mpr (hone .uriHost rfl rfl), hone .etag rfl rfl,
    BigEndian.minimal_inj (hone .observe rfl rfl), hword (hone .uriPort rfl rfl),
    hmany .locationPath rfl rfl, hmany .uriPath rfl rfl, hword (hone .contentType rfl rfl),
    BigEndian.minimal_inj (hone .maxAge rfl rfl), hmany .uriQuery rfl rfl, haccept,
    hmany .locationQuery rfl rfl, congrArg Block.mk (BigEndian.minimal_inj (hone .block2 rfl rfl)),
    congrArg Block.mk (BigEndian.minimal_inj (hone .block1 rfl rfl)),
    BigEndian.minimal_inj (hone .size rfl rfl),
    Segment.borrow_eq_iff.mpr (hone .proxyUri rfl rfl), hpayload⟩

theorem borrow_store (m : Message) (value : Bytes) (k : KnownOption) :
    (m.store value k).borrow = m.borrow.store value k := by
  cases k
  case accept =>
    have ha : m.borrow.accept = m.accept := rfl
    by_cases h : m.accept.length < maxAccept
    · rw [store, store, ha, if_pos h, if_pos h]
      rfl
    · rw [store, store, ha, if_neg h, if_neg h]
  all_goals simp [store, borrow, Segment.borrow, Segment.bytes]

theorem borrow_absorb (m : Message) (w : WireOption) : (m.absorb w).borrow = m.borrow.absorb w := by
  rcases known_or_unknown w with ⟨k, hk⟩ | hu
  · rw [absorb_of_number hk, absorb_of_number hk, put, put, ← borrow_store]
    rfl
  · rw [absorb_of_unknown hu, absorb_of_unknown hu]

theorem borrow_foldl_absorb (os : List WireOption) (m : Message) :
    (os.foldl absorb m).borrow = os.foldl absorb m.borrow := by
  induction os generalizing m with
  | nil => rfl
  | cons w os ih => rw [List.foldl_cons, ih, borrow_absorb, List.foldl_cons]

theorem borrow_assemble (type : MessageType) (code : Code) (id : UInt16) (token : Token)
    (os : List WireOption) {p : Option Segment} (hp : p.map Segment.borrow = p) :
    ((bare type code id token).assemble os p).borrow = (bare type code id token).assemble os p := by
  have hf := borrow_foldl_absorb os (bare type code id token)
  calc
    ((bare type code id token).assemble os p).borrow
      = { (os.foldl absorb (bare type code id token)).borrow with
          payload := p.map Segment.borrow } := rfl
    _ = (bare type code id token).assemble os p := by rw [hf, hp]; rfl

theorem borrow_decode {b : Bytes} {m : Message} (h : decode b = .ok m) : m.borrow = m := by
  obtain ⟨m₀, os, p, ⟨ho, _, _, ht⟩, rfl⟩ := exists_datagram_of_decode h
  obtain ⟨type, code, id, token, rfl⟩ := ho.exists_bare
  have hp : p.map Segment.borrow = p := by cases ht <;> rfl
  exact borrow_assemble type code id token os hp

theorem valuesOf_map_mk (values : List Bytes) (p k : KnownOption) :
    valuesOf (values.map (WireOption.mk p.number)) k = if p = k then values else [] := by
  by_cases h : p = k
  · subst h
    have hf : (values.map (WireOption.mk p.number)).filter (·.number == p.number)
        = values.map (WireOption.mk p.number) := List.filter_eq_self.mpr (by simp)
    rw [valuesOf, hf, if_pos rfl, List.map_map]
    exact List.map_id values
  · have hn : p.number ≠ k.number := fun he => h (KnownOption.number_inj.mp he)
    simp [valuesOf, h, hn]

theorem valuesOf_flatMap {m : Message} {ks : List KnownOption} (h : ks.Nodup) (k : KnownOption) :
    valuesOf (ks.flatMap fun p => (m.values p).map (WireOption.mk p.number)) k =
      if k ∈ ks then m.values k else [] := by
  induction ks with
  | nil => rfl
  | cons p ks ih =>
    obtain ⟨hp, hks⟩ := List.nodup_cons.mp h
    rw [List.flatMap_cons, valuesOf_append, valuesOf_map_mk, ih hks]
    by_cases he : p = k
    · subst he
      simp [hp]
    · simp [he, Ne.symm he]

theorem valuesOf_wireOptions (m : Message) (k : KnownOption) :
    valuesOf m.wireOptions k = if m.has k then m.values k else [] := by
  rw [wireOptions, valuesOf_flatMap m.present.toList_nodup]
  by_cases hk : m.has k = true
  · rw [if_pos hk, if_pos (OptionSet.mem_toList.mpr hk)]
  · rw [if_neg hk, if_neg fun hm => hk (OptionSet.mem_toList.mp hm)]

theorem canonical_of_mem {m : Message} {k : KnownOption} {value : Bytes} (h : value ∈ m.values k) :
    k.canonical value = value := by
  by_cases hf : k.format = .uint
  · have hm : ∃ n, value = BigEndian.minimal n := by
      cases k <;> first | (cases hf; done) | skip
      case accept =>
        obtain ⟨n, _, rfl⟩ := List.mem_map.mp h
        exact ⟨_, rfl⟩
      all_goals exact ⟨_, List.mem_singleton.mp h⟩
    obtain ⟨n, rfl⟩ := hm
    rw [KnownOption.canonical, if_pos hf, BigEndian.dropWhile_minimal]
  · exact if_neg hf

/-- Taking in the options that a message is written as fills every slot as it was, the slots of
absent options included. -/
theorem Coherent.values_foldl_wireOptions {m : Message} (h : m.Coherent) (type : MessageType)
    (code : Code) (id : UInt16) (token : Token) (k : KnownOption) :
    (m.wireOptions.foldl absorb (bare type code id token)).values k = m.values k := by
  have ha := accept_bare_le type code id token
  have hu := values_bare type code id token k
  rw [values_foldl_absorb ha (fun o ho => (h.acceptable o ho).defect), hu, valuesOf_wireOptions]
  cases hk : m.has k with
  | true =>
    have hc : (m.values k).map k.canonical = m.values k := by
      rw [List.map_congr_left fun v hv => canonical_of_mem hv, List.map_id']
    rw [if_pos rfl, hc, k.select_unset_append (h.inhabited k hk), select_values h.accept_le]
  | false =>
    -- an absent option keeps the slot of a new message, which is why equal messages come back
    rw [if_neg (by decide), List.map_nil, List.append_nil, ← hu, select_values ha, hu,
      h.absent k hk]

theorem Coherent.exists_mem_wireOptions {m : Message} (h : m.Coherent) (k : KnownOption) :
    (∃ o ∈ m.wireOptions, o.number = k.number) ↔ m.has k = true := by
  constructor
  · rintro ⟨o, ho, hn⟩
    obtain ⟨p, hp, hnp, _⟩ := mem_wireOptions.mp ho
    rw [hnp, KnownOption.number_inj] at hn
    rw [← hn]
    exact hp
  · intro hk
    obtain ⟨v, hv⟩ := List.exists_mem_of_ne_nil _ (h.inhabited k hk)
    exact ⟨⟨k.number, v⟩, mem_wireOptions.mpr ⟨k, hk, rfl, hv⟩, rfl⟩

/-- The options that a message is written as make the same message again. -/
theorem Coherent.assemble_wireOptions {m : Message} (h : m.Coherent) (hv : m.version = 1) :
    (bare m.type m.code m.id m.token).assemble m.wireOptions (m.payload.map Segment.borrow)
      = m.borrow := by
  have hr := (coherent_bare m.type m.code m.id m.token).foldl_absorb fun o ho =>
    (h.acceptable o ho).defect
  have hpresent : (m.wireOptions.foldl absorb (bare m.type m.code m.id m.token)).present
      = m.present := by
    apply hr.registered.ext h.registered
    intro k
    have hk := has_foldl_absorb m.wireOptions (bare m.type m.code m.id m.token) k
    rw [has_bare, Bool.false_eq_true, false_or, h.exists_mem_wireOptions] at hk
    exact Bool.eq_iff_iff.mpr hk
  have hpayload : (m.payload.map Segment.borrow).map Segment.borrow
      = m.payload.map Segment.borrow := by
    rw [Option.map_map]
    rfl
  have hframe := frame_assemble (bare m.type m.code m.id m.token) m.wireOptions
    (m.payload.map Segment.borrow)
  rw [← borrow_assemble m.type m.code m.id m.token m.wireOptions hpayload]
  apply borrow_eq_of_values
  · exact hpresent
  · intro k
    rw [← h.values_foldl_wireOptions m.type m.code m.id m.token k]
    cases k <;> rfl
  · rw [borrow_assemble m.type m.code m.id m.token m.wireOptions hpayload, hframe, frame]
    simp only [borrow, hv]
    rfl

/-- Only the last two bits of a version are written. -/
theorem toNat_head (v : UInt8) (t : MessageType) {n : Nat} (h : n < 9) :
    (v <<< 6 ||| t.bits <<< 4 ||| UInt8.ofNat n).toNat
      = 64 * (v.toNat % 4) + 16 * t.bits.toNat + n := by
  have hall : ∀ k : Fin 4, ∀ i : Fin 9,
      (UInt8.ofNat k <<< 6 ||| t.bits <<< 4 ||| UInt8.ofNat i).toNat
        = 64 * k + 16 * t.bits.toNat + i := by
    cases t <;> decide
  have hshift : v <<< 6 = UInt8.ofNat (v.toNat % 4) <<< 6 := by
    apply UInt8.toNat_inj.mp
    simp [Nat.shiftLeft_eq]
    omega
  rw [hshift]
  exact hall ⟨v.toNat % 4, Nat.mod_lt _ (by decide)⟩ ⟨n, h⟩

theorem opening_header {m : Message} (hv : m.version = 1) (hc : m.code.fitsByte = true) :
    Opening (m.header ++ m.token.bytes) (bare m.type m.code m.id m.token) := by
  have hlen : m.token.length ≤ 8 := m.token.length_le
  have hb := m.type.bits_lt
  have hhead := toNat_head m.version m.type (show m.token.length < 9 by omega)
  have hversion : m.version.toNat % 4 = 1 := by rw [hv]; rfl
  have hcode := Code.toByte_toNat hc
  have hfit := Code.fitsByte_iff.mp hc
  have hid := BigEndian.value_pair m.id
  simp only [BigEndian.pair, BigEndian.value, List.foldl_cons, List.foldl_nil] at hid
  refine .mk ?_ ?_ ?_ ?_ ?_ ?_
  all_goals omega

theorem Coherent.trailer {m : Message} (h : m.Coherent) :
    Trailer m.trailer (m.payload.map Segment.borrow) := by
  unfold Message.trailer
  cases hp : m.payload with
  | none => exact .absent
  | some p => exact .payload (h.payload p hp)

theorem Coherent.datagram {m : Message} (h : m.Coherent) {body : Bytes}
    (hs : WireOption.Series 0 m.wireOptions body) (hv : m.version = 1)
    (hc : m.code.fitsByte = true) :
    Datagram (m.layout body) (bare m.type m.code m.id m.token) m.wireOptions
      (m.payload.map Segment.borrow) :=
  .mk (opening_header hv hc) hs h.acceptable h.trailer

theorem Coherent.decode_layout {m : Message} (h : m.Coherent) {body : Bytes}
    (hs : WireOption.Series 0 m.wireOptions body) (hv : m.version = 1)
    (hc : m.code.fitsByte = true) :
    Message.decode (m.layout body) = .ok m.borrow := by
  rw [(h.datagram hs hv hc).decode, h.assemble_wireOptions hv]

/-- Only messages with a code that may be sent are written. -/
theorem Coherent.encode_eq_ok {m : Message} (h : m.Coherent) {b body : Bytes}
    (hs : WireOption.Series 0 m.wireOptions body) (hb : m.encode = .ok b) :
    b = m.layout body ∧ m.code.fitsByte = true ∧ m.code.isLocal = false := by
  have hw := h.writeTo_eq hs (List.replicate m.encodedLength 0)
  rw [Message.encode] at hb
  by_cases hcode : 7 < m.code.family ∨ 31 < m.code.detail
  · rw [if_pos hcode] at hw
    rw [hw] at hb
    cases hb
  have hfits := fitsByte_eq_true_iff.mpr hcode
  by_cases hfamily : m.code.family = 6
  · rw [if_neg hcode, if_pos hfamily] at hw
    rw [hw] at hb
    cases hb
  · have hl : m.code.isLocal = false := by simpa [Code.isLocal] using hfamily
    have he := h.encode hs hfits hl
    rw [Message.encode] at he
    exact ⟨Except.ok.inj (hb.symm.trans he), hfits, hl⟩

theorem version_of_decode_layout {m n : Message} {body : Bytes}
    (hn : Message.decode (m.layout body) = .ok n) : m.version.toNat % 4 = 1 := by
  refine Decidable.byContradiction fun hne => ?_
  have hlen : m.token.length < 9 := Nat.lt_succ_of_le m.token.length_le
  have hbits := m.type.bits_lt
  have hother : ¬(m.version <<< 6 ||| m.type.bits <<< 4
      ||| UInt8.ofNat m.token.length).toNat / 64 = 1 := by
    rw [toNat_head m.version m.type hlen]
    omega
  rw [← version_eq_iff] at hother
  have hdefect : HeaderDefect (m.layout body) (.unsupportedVersion _) :=
    .version (version_toNat _) hother
  rw [hdefect.decode] at hn
  cases hn

/-- Versions with the same two last bits are written alike. -/
theorem layout_of_version {m : Message} (hv : m.version.toNat % 4 = 1) (body : Bytes) :
    m.layout body = ({ m with version := 1 } : Message).layout body := by
  have hshift : m.version <<< 6 = (1 : UInt8) <<< 6 := by
    apply UInt8.toNat_inj.mp
    simp [Nat.shiftLeft_eq]
    omega
  unfold layout header
  rw [hshift]
  rfl

theorem Coherent.decode_layout_of_version {m : Message} (h : m.Coherent) {body : Bytes}
    (hs : WireOption.Series 0 m.wireOptions body) (hv : m.version.toNat % 4 = 1)
    (hc : m.code.fitsByte = true) :
    Message.decode (m.layout body) = .ok ({ m with version := 1 } : Message).borrow := by
  have hcurrent : ({ m with version := 1 } : Message).Coherent := h.congr rfl (fun _ => rfl) rfl rfl
  rw [layout_of_version hv, hcurrent.decode_layout hs rfl hc]

/-- What is read back of a message that is written. -/
def Returns (m n : Message) : Prop := ∃ b, m.encode = .ok b ∧ decode b = .ok n

/-- What is read back is the message, in the only version that is read. -/
theorem Coherent.eq_of_returns {m n : Message} (h : m.Coherent) (hn : m.Returns n) :
    n = ({ m with version := 1 } : Message).borrow := by
  obtain ⟨b, hb, hn⟩ := hn
  obtain ⟨body, hs⟩ := h.exists_series
  obtain ⟨rfl, hc, _⟩ := h.encode_eq_ok hs hb
  rw [h.decode_layout_of_version hs (version_of_decode_layout hn) hc] at hn
  exact (Except.ok.inj hn).symm

theorem Coherent.exists_returns_iff {m : Message} (h : m.Coherent) : (∃ n, m.Returns n) ↔
    m.version.toNat % 4 = 1 ∧ m.code.fitsByte = true ∧ m.code.isLocal = false := by
  obtain ⟨body, hs⟩ := h.exists_series
  constructor
  · rintro ⟨n, b, hb, hn⟩
    obtain ⟨rfl, hsendable⟩ := h.encode_eq_ok hs hb
    exact ⟨version_of_decode_layout hn, hsendable⟩
  · rintro ⟨hv, hc, hl⟩
    exact ⟨_, m.layout body, h.encode hs hc hl, h.decode_layout_of_version hs hv hc⟩

/-- Decoding undoes encoding on every message that a program can build and that may be sent. -/
theorem decode_encode {m : Message} (h : m.Reachable) (hv : m.version = 1) (hf : m.code.family ≤ 7)
    (hl : m.code.family ≠ 6) (hd : m.code.detail ≤ 31) :
    ∃ b m', m.encode = .ok b ∧ decode b = .ok m' ∧ (m' == m) = true := by
  obtain ⟨body, hs⟩ := h.coherent.exists_series
  have hc : m.code.fitsByte = true := by simp [Code.fitsByte, hf, hd]
  have hl' : m.code.isLocal = false := by simpa [Code.isLocal] using hl
  refine ⟨m.layout body, m.borrow, h.coherent.encode hs hc hl', ?_, ?_⟩
  · exact h.coherent.decode_layout hs hv hc
  · exact beq_iff_borrow_eq.mpr m.borrow_borrow

theorem decode_encode_etag : ∃ b m',
    (((new .confirmable .get 7).edit (.etag [1])).1.edit .own).1.encode = .ok b ∧
      decode b = .ok m' ∧
      (m' == (((new .confirmable .get 7).edit (.etag [1])).1.edit .own).1) = true :=
  decode_encode (.edited (.edited (.new .confirmable .get 7) (.etag [1])) .own) rfl (by decide)
    (by decide) (by decide)

end Message

end Coap
