import Coap.Proofs.Header
import Coap.Proofs.OptionDefects

namespace Coap.Message

/-- What follows the options: nothing, or the marker and a payload. -/
inductive Trailer : Bytes → Option Segment → Prop
  | absent : Trailer [] none
  | payload {bytes : Bytes} (h : bytes ≠ []) :
      Trailer (payloadMarker :: bytes) (some (.borrowed bytes))

/-- The wire grammar: header and token, acceptable options, and what follows them. -/
inductive Datagram : Bytes → Message → List WireOption → Option Segment → Prop
  | mk {front body back : Bytes} {m : Message} {os : List WireOption} {p : Option Segment}
      (opening : Opening front m) (series : WireOption.Series 0 os body)
      (acceptable : ∀ o ∈ os, o.Acceptable) (trailer : Trailer back p) :
      Datagram (front ++ (body ++ back)) m os p

/-- The defect of a datagram that comes first in reading order. -/
inductive FirstDefect : Bytes → DecodeError → Prop
  | header {b : Bytes} {e : HeaderError} (h : HeaderDefect b e) : FirstDefect b (.header e)
  | option {front src : Bytes} {m : Message} {e : OptionError} (opening : Opening front m)
      (h : WireOption.FirstBad 0 src e) : FirstDefect (front ++ src) (.option e)
  | emptyPayload {front body : Bytes} {m : Message} {os : List WireOption}
      (opening : Opening front m) (series : WireOption.Series 0 os body)
      (acceptable : ∀ o ∈ os, o.Acceptable) :
      FirstDefect (front ++ (body ++ [payloadMarker])) .emptyPayload

/-- What a message stands for: the options in wire order, one after the other, then the payload. -/
def assemble (m : Message) (os : List WireOption) (p : Option Segment) : Message :=
  { os.foldl absorb m with payload := p }

theorem Opening.exists_bare {front : Bytes} {m : Message} (h : Opening front m) :
    ∃ type code id token, m = bare type code id token := by
  cases h
  exact ⟨_, _, _, _, rfl⟩

/-- All of a message that no option is stored in. -/
def frame (m : Message) : UInt16 × MessageType × UInt8 × Token × Code × Option Segment :=
  (m.id, m.type, m.version, m.token, m.code, m.payload)

theorem frame_put (m : Message) (o : KnownOption) (value : Bytes) :
    (m.put o value).frame = m.frame := by
  cases o
  case accept =>
    simp only [put, store]
    split <;> rfl
  all_goals rfl

theorem frame_foldl_absorb (os : List WireOption) (m : Message) :
    (os.foldl absorb m).frame = m.frame := by
  induction os generalizing m with
  | nil => rfl
  | cons w os ih =>
    rw [List.foldl_cons, ih]
    rcases known_or_unknown w with ⟨o, ho⟩ | hu
    · rw [absorb_of_number ho, frame_put]
    · rw [absorb_of_unknown hu]

theorem payload_foldl_absorb (os : List WireOption) (m : Message) :
    (os.foldl absorb m).payload = m.payload :=
  congrArg (fun f => f.2.2.2.2.2) (frame_foldl_absorb os m)

theorem frame_assemble (m : Message) (os : List WireOption) (p : Option Segment) :
    (m.assemble os p).frame = (m.id, m.type, m.version, m.token, m.code, p) :=
  congrArg (fun f => (f.1, f.2.1, f.2.2.1, f.2.2.2.1, f.2.2.2.2.1, p)) (frame_foldl_absorb os m)

theorem Opening.decode_append {front : Bytes} {m : Message} (h : Opening front m) (src : Bytes) :
    decode (front ++ src) = match (WireOption.walk 0 src).firstDefect with
      | some e => .error (.option e)
      | none => (m.withOptions (WireOption.walk 0 src).options).decodePayload
          (WireOption.walk 0 src).rest := by
  rw [decode, h.read]
  rfl

theorem HeaderDefect.decode {b : Bytes} {e : HeaderError} (h : HeaderDefect b e) :
    decode b = .error (.header e) := by
  rw [Message.decode, h.read]
  rfl

theorem decode_of_series {front body back : Bytes} {m : Message} {os : List WireOption}
    (ho : Opening front m) (hs : WireOption.Series 0 os body) (ha : ∀ o ∈ os, o.Acceptable)
    (hb : WireOption.Stops back) :
    decode (front ++ (body ++ back)) = (os.foldl absorb m).decodePayload back := by
  have hd := hs.firstDefect ha hb
  obtain ⟨type, code, id, token, rfl⟩ := ho.exists_bare
  rw [ho.decode_append, hd, hs.walk_stops hb]
  exact congrArg (decodePayload · back) (withOptions_eq_foldl type code id token os)

theorem Trailer.stops {back : Bytes} {p : Option Segment} (h : Trailer back p) :
    WireOption.Stops back := by
  cases h with
  | absent => exact Or.inl rfl
  | payload h => exact Or.inr rfl

theorem Trailer.read {back : Bytes} {p : Option Segment} (h : Trailer back p) {m : Message}
    (hm : m.payload = none) : m.decodePayload back = .ok { m with payload := p } := by
  cases h with
  | absent => rw [decodePayload, ← hm]
  | @payload bytes h =>
    cases bytes with
    | nil => exact absurd rfl h
    | cons b bytes => rfl

theorem trailer_or_marker {back : Bytes} (h : WireOption.Stops back) :
    (∃ p, Trailer back p) ∨ back = [payloadMarker] := by
  rcases h with rfl | h
  · exact Or.inl ⟨none, .absent⟩
  · cases back with
    | nil => cases h
    | cons b bytes =>
      cases h
      by_cases he : bytes = []
      · rw [he]
        exact Or.inr rfl
      · exact Or.inl ⟨_, .payload he⟩

theorem Datagram.decode {b : Bytes} {m : Message} {os : List WireOption} {p : Option Segment}
    (h : Datagram b m os p) : decode b = .ok (m.assemble os p) := by
  cases h with
  | mk ho hs ha ht =>
    have hm : (os.foldl absorb m).payload = none := by
      obtain ⟨type, code, id, token, rfl⟩ := ho.exists_bare
      exact payload_foldl_absorb os _
    rw [decode_of_series ho hs ha ht.stops, ht.read hm]
    rfl

theorem Opening.decode {b : Bytes} {m : Message} (h : Opening b m) : decode b = .ok m := by
  have hd := (Datagram.mk h (.nil 0) (List.forall_mem_nil _) .absent).decode
  rw [List.append_nil, List.append_nil] at hd
  obtain ⟨type, code, id, token, rfl⟩ := h.exists_bare
  exact hd

theorem FirstDefect.decode {b : Bytes} {e : DecodeError} (h : FirstDefect b e) :
    decode b = .error e := by
  cases h with
  | header h => exact h.decode
  | option ho h => rw [ho.decode_append, h.walk]
  | emptyPayload ho hs ha => exact decode_of_series ho hs ha (Or.inr rfl)

/-- Every byte string is a datagram of the grammar or has a first defect. -/
theorem datagram_or_firstDefect (b : Bytes) :
    (∃ m os p, Datagram b m os p) ∨ ∃ e, FirstDefect b e := by
  rcases opening_or_defect b with ⟨front, m, src, ho, rfl⟩ | ⟨e, he⟩
  · rcases WireOption.series_or_firstBad 0 src with ⟨os, body, back, hs, ha, hb, rfl⟩ | ⟨e, he⟩
    · rcases trailer_or_marker hb with ⟨p, ht⟩ | rfl
      · exact Or.inl ⟨m, os, p, .mk ho hs ha ht⟩
      · exact Or.inr ⟨_, .emptyPayload ho hs ha⟩
    · exact Or.inr ⟨_, .option ho he⟩
  · exact Or.inr ⟨_, .header he⟩

theorem Datagram.exists_opening {b : Bytes} {m : Message} {os : List WireOption}
    {p : Option Segment} (h : Datagram b m os p) : ∃ front, Opening front m := by
  obtain ⟨ho, _, _, _⟩ := h
  exact ⟨_, ho⟩

theorem Datagram.acceptable {b : Bytes} {m : Message} {os : List WireOption} {p : Option Segment}
    (h : Datagram b m os p) : ∀ o ∈ os, o.Acceptable := by
  obtain ⟨_, _, ha, _⟩ := h
  exact ha

/-- The options that are read from a datagram. -/
def optionsIn (b : Bytes) : List WireOption :=
  match decodeHeader b with
  | .error _ => []
  | .ok (_, rest) => (WireOption.walk 0 rest).options

theorem Datagram.optionsIn_eq {b : Bytes} {m : Message} {os : List WireOption} {p : Option Segment}
    (h : Datagram b m os p) : optionsIn b = os := by
  cases h with
  | mk ho hs ha ht => simp only [optionsIn, ho.read, hs.walk_stops ht.stops]

theorem exists_datagram_of_decode {b : Bytes} {m : Message} (h : decode b = .ok m) :
    ∃ m₀ os p, Datagram b m₀ os p ∧ m = m₀.assemble os p := by
  rcases datagram_or_firstDefect b with ⟨m₀, os, p, hd⟩ | ⟨e, he⟩
  · rw [hd.decode] at h
    cases h
    exact ⟨m₀, os, p, hd, rfl⟩
  · rw [he.decode] at h
    cases h

theorem firstDefect_of_decode {b : Bytes} {e : DecodeError} (h : decode b = .error e) :
    FirstDefect b e := by
  rcases datagram_or_firstDefect b with ⟨m₀, os, p, hd⟩ | ⟨e', he⟩
  · rw [hd.decode] at h
    cases h
  · rw [he.decode] at h
    cases h
    exact he

theorem has_assemble {front : Bytes} {m : Message} (h : Opening front m) (os : List WireOption)
    (p : Option Segment) (k : KnownOption) :
    (m.assemble os p).has k = true ↔ ∃ o ∈ os, o.number = k.number := by
  obtain ⟨type, code, id, token, rfl⟩ := h.exists_bare
  have hf := has_foldl_absorb os (bare type code id token) k
  rw [has_bare, Bool.false_eq_true, false_or] at hf
  exact hf

theorem values_assemble {front : Bytes} {m : Message} (h : Opening front m) {os : List WireOption}
    (ha : ∀ o ∈ os, o.Acceptable) (p : Option Segment) {k : KnownOption}
    (hk : valuesOf os k ≠ []) :
    (m.assemble os p).values k = (k.select (valuesOf os k)).map k.canonical := by
  obtain ⟨type, code, id, token, rfl⟩ := h.exists_bare
  have hd : ∀ o ∈ os, o.defect? = none := fun o ho => (ha o ho).defect
  have hv := values_foldl_absorb (accept_bare_le type code id token) hd k
  have hp : ((bare type code id token).assemble os p).values k
      = (os.foldl absorb (bare type code id token)).values k := by
    cases k <;> rfl
  rw [hp, hv, values_bare, KnownOption.select_unset_append k (by simpa using hk),
    KnownOption.select_map]

/-- The numbers in the slot of an option whose values are numbers. -/
def numerals (m : Message) : KnownOption → List Nat
  | .observe => [m.observe.toNat]
  | .uriPort => [m.uriPort.toNat]
  | .contentType => [m.contentType.toNat]
  | .maxAge => [m.maxAge.toNat]
  | .accept => m.accept.map UInt16.toNat
  | .block2 => [m.block2.raw.toNat]
  | .block1 => [m.block1.raw.toNat]
  | .size => [m.bodySize.toNat]
  | _ => []

theorem map_value_values (m : Message) {k : KnownOption} (h : k.format = .uint) :
    (m.values k).map BigEndian.value = m.numerals k := by
  cases k <;> first
    | (cases h; done)
    | simp [values, numerals, BigEndian.value_minimal, Function.comp_def]

/-- What a message says of a series of options: which ones occur, and for each that occurs the value
that counts, which is every one for a list of segments, the first two for Accept and the last one
otherwise; numbers are big-endian. -/
structure Conveys (m : Message) (os : List WireOption) : Prop where
  present : ∀ k, m.has k = true ↔ ∃ o ∈ os, o.number = k.number
  octets : ∀ k, valuesOf os k ≠ [] → k.format ≠ .uint → m.values k = k.select (valuesOf os k)
  numbers : ∀ k, valuesOf os k ≠ [] → k.format = .uint →
    m.numerals k = (k.select (valuesOf os k)).map BigEndian.value

theorem conveys_assemble {front : Bytes} {m : Message} (h : Opening front m) {os : List WireOption}
    (ha : ∀ o ∈ os, o.Acceptable) (p : Option Segment) : (m.assemble os p).Conveys os := by
  refine ⟨has_assemble h os p, ?_, ?_⟩
  · intro k hk hf
    have hc : k.canonical = fun value => value := funext fun value => if_neg hf
    rw [values_assemble h ha p hk, hc, List.map_id']
  · intro k hk hf
    have hc (value : Bytes) : BigEndian.value (k.canonical value) = BigEndian.value value := by
      rw [KnownOption.canonical, if_pos hf, BigEndian.value_dropWhile]
    rw [← map_value_values _ hf, values_assemble h ha p hk, List.map_map]
    exact List.map_congr_left fun value _ => hc value

/-- The parser accepts exactly the grammar, gives a datagram the meaning of its options taken in
wire order, and names the first defect of any other byte string. -/
theorem decode_grammar :
    (∀ b m, decode b = .ok m ↔ ∃ m₀ os p, Datagram b m₀ os p ∧ m = m₀.assemble os p) ∧
    (∀ b m₀ os p, Datagram b m₀ os p →
      (m₀.assemble os p).frame = (m₀.id, m₀.type, 1, m₀.token, m₀.code, p) ∧
      (m₀.assemble os p).Conveys os) ∧
    ∀ b e, decode b = .error e ↔ FirstDefect b e := by
  refine ⟨?_, ?_, ?_⟩
  · intro b m
    refine ⟨exists_datagram_of_decode, ?_⟩
    rintro ⟨m₀, os, p, hd, rfl⟩
    exact hd.decode
  · rintro b m₀ os p ⟨ho, _, ha, _⟩
    obtain ⟨type, code, id, token, rfl⟩ := ho.exists_bare
    exact ⟨frame_assemble _ os p, conveys_assemble ho ha p⟩
  · intro b e
    exact ⟨firstDefect_of_decode, FirstDefect.decode⟩

theorem datagram_path : Datagram [0x40, 1, 0, 7, 0xB1, 0x61, 0xFF, 0x62]
    (bare .confirmable .get 7 .empty) [⟨11, [0x61]⟩] (some (.borrowed [0x62])) := by
  have ho : Opening [0x40, 1, 0, 7] (bare .confirmable .get 7 .empty) := by
    refine @Opening.mk 0x40 1 0 7 _ _ _ .empty ?_ ?_ ?_ ?_ ?_ ?_ <;> decide
  have ht : WireOption.Tlv 0 ⟨11, [0x61]⟩ [0xB1, 0x61] :=
    (WireOption.encode_eq_ok_iff (by decide)).mp rfl
  have ha : (⟨11, [0x61]⟩ : WireOption).Acceptable := Or.inl ⟨.uriPath, rfl, by decide, by decide⟩
  have hp : Trailer [0xFF, 0x62] (some (.borrowed [0x62])) := .payload (List.cons_ne_nil 0x62 [])
  exact .mk ho (.cons ht (.nil 11)) (List.forall_mem_singleton.mpr ha) hp

theorem decode_grammar_path :
    decode [0x40, 1, 0, 7, 0xB1, 0x61, 0xFF, 0x62] =
      .ok ((bare .confirmable .get 7 .empty).assemble [⟨11, [0x61]⟩] (some (.borrowed [0x62]))) ∧
    decode [0x40, 1, 0] = .error (.header (.tooShort 3)) := by
  obtain ⟨hok, _, herror⟩ := decode_grammar
  exact ⟨(hok _ _).mpr ⟨_, _, _, datagram_path, rfl⟩,
    (herror _ _).mpr (.header (.tooShort (by decide)))⟩

end Coap.Message
