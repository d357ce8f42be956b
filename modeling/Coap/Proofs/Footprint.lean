import Coap.Proofs.EditOutcome
import Coap.Proofs.RoundTrip

namespace Coap

/-- What a change can write: the slot of an option together with its mark, or one of the parts that
no option is stored in. -/
inductive Part where
  | option (o : KnownOption)
  | token
  | payload
  | code
  | type
  | id
  | version
  deriving DecidableEq

namespace Edit

/-- The parts that a change writes. A copy of the bytes is no change of content. -/
def footprint : Edit → List Part
  | token _ => [.token]
  | payload _ => [.payload]
  | contentType _ => [.option .contentType]
  | maxAge _ => [.option .maxAge]
  | etag _ => [.option .etag]
  | ifMatch _ => [.option .ifMatch]
  | ifNoneMatch _ => [.option .ifNoneMatch]
  | uriHost _ => [.option .uriHost]
  | uriPort _ => [.option .uriPort]
  | observe _ => [.option .observe]
  | bodySize _ => [.option .size]
  | accept _ => [.option .accept]
  | proxyUri _ => [.option .proxyUri]
  | block1 _ => [.option .block1]
  | block2 _ => [.option .block2]
  | segments o _ => [.option o.toKnown]
  | segment o _ => [.option o.toKnown]
  | location _ => [.option .locationPath, .option .locationQuery]
  | remove o => [.option o]
  | code _ => [.code]
  | type _ => [.type]
  | id _ => [.id]
  | version _ => [.version]
  | own => []

def writes (e : Edit) (p : Part) : Bool := decide (p ∈ e.footprint)

theorem writes_iff {e : Edit} {p : Part} : e.writes p = true ↔ p ∈ e.footprint := decide_eq_true_iff

theorem footprint_of_value {e : Edit} {o : KnownOption} {value : Bytes}
    (h : e.value? = some (o, value)) : e.footprint = [.option o] := by
  cases e with
  | ifNoneMatch set => cases set <;> cases h; rfl
  | token | payload | segments | location | remove | code | type | id | version | own => cases h
  | _ => cases h; rfl

end Edit

namespace Message

/-- Two messages hold the same in a part; text is compared by content. -/
def Agree (m n : Message) : Part → Prop
  | .option o => m.has o = n.has o ∧ m.values o = n.values o
  | .token => m.token = n.token
  | .payload => m.payload.map Segment.bytes = n.payload.map Segment.bytes
  | .code => m.code = n.code
  | .type => m.type = n.type
  | .id => m.id = n.id
  | .version => m.version = n.version

theorem Agree.refl (m : Message) (p : Part) : m.Agree m p := by
  cases p with
  | option o => exact ⟨rfl, rfl⟩
  | token | payload | code | type | id | version => rfl

theorem Agree.symm {m n : Message} {p : Part} (h : m.Agree n p) : n.Agree m p := by
  cases p with
  | option o => exact ⟨h.1.symm, h.2.symm⟩
  | token | payload | code | type | id | version => exact Eq.symm h

theorem Agree.trans {l m n : Message} {p : Part} (h : l.Agree m p) (h' : m.Agree n p) :
    l.Agree n p := by
  cases p with
  | option o => exact ⟨h.1.trans h'.1, h.2.trans h'.2⟩
  | token | payload | code | type | id | version => exact Eq.trans h h'

/-- A message that differs in one slot and in no part outside the options agrees elsewhere. -/
theorem agree_of_slot {m n : Message} {o : KnownOption} (frame : n.frame = m.frame)
    (has : ∀ q, q ≠ o → n.has q = m.has q) (values : ∀ q, q ≠ o → n.values q = m.values q)
    {p : Part} (hp : p ≠ .option o) : n.Agree m p := by
  simp only [Message.frame, Prod.mk.injEq] at frame
  obtain ⟨hid, htype, hversion, htoken, hcode, hpayload⟩ := frame
  cases p with
  | option q =>
    have hq : q ≠ o := fun h => hp (congrArg Part.option h)
    exact ⟨has q hq, values q hq⟩
  | token => exact htoken
  | payload => exact congrArg (Option.map Segment.bytes) hpayload
  | code => exact hcode
  | type => exact htype
  | id => exact hid
  | version => exact hversion

theorem agree_put_of_ne (m : Message) {o : KnownOption} (value : Bytes) {p : Part}
    (hp : p ≠ .option o) : (m.put o value).Agree m p := by
  refine agree_of_slot (m.frame_put o value) ?_ ?_ hp
  · intro q hq
    rw [has_put, if_neg hq]
  · intro q hq
    rw [put, values_mark, values_store_of_ne value hq]

theorem agree_remove_of_ne (m : Message) {o : KnownOption} {p : Part} (hp : p ≠ .option o) :
    (m.remove o).Agree m p := by
  refine agree_of_slot (by cases o <;> rfl) ?_ ?_ hp
  · intro q hq
    rw [has_remove, if_neg hq]
  · intro q hq
    rw [values_remove, if_neg hq]

theorem agree_token_of_ne (m : Message) (token : Token) {p : Part} (hp : p ≠ .token) :
    ({ m with token } : Message).Agree m p := by
  cases p with
  | option o => exact ⟨rfl, by cases o <;> rfl⟩
  | token => exact absurd rfl hp
  | payload | code | type | id | version => rfl

theorem agree_payload_of_ne (m : Message) (payload : Option Segment) {p : Part}
    (hp : p ≠ .payload) : ({ m with payload } : Message).Agree m p := by
  cases p with
  | option o => exact ⟨rfl, by cases o <;> rfl⟩
  | payload => exact absurd rfl hp
  | token | code | type | id | version => rfl

theorem has_withPieces (m : Message) (o : SegmentOption) (text : Bytes) (q : KnownOption) :
    (m.withPieces o text).has q =
      if q = o.toKnown then !(Segments.split text o.separator).isEmpty else m.has q := by
  rw [withPieces, has_mark, has_putSegments]

theorem values_withPieces (m : Message) (o : SegmentOption) (text : Bytes) (q : KnownOption) :
    (m.withPieces o text).values q = if q = o.toKnown
      then (Segments.split text o.separator).map Segment.bytes else m.values q := by
  rw [withPieces, values_mark, values_putSegments]

theorem agree_withPieces_of_ne (m : Message) {o : SegmentOption} (text : Bytes) {p : Part}
    (hp : p ≠ .option o.toKnown) : (m.withPieces o text).Agree m p := by
  refine agree_of_slot (by cases o <;> rfl) ?_ ?_ hp
  · intro q hq
    rw [has_withPieces, if_neg hq]
  · intro q hq
    rw [values_withPieces, if_neg hq]

theorem agree_offer_of_ne (m : Message) {o : KnownOption} (value : Bytes) {p : Part}
    (hp : p ≠ .option o) : (m.offer o value).1.Agree m p := by
  unfold offer
  cases m.refusal? o value with
  | some e => exact .refl m p
  | none => exact m.agree_put_of_ne value hp

theorem agree_segments_of_ne (m : Message) {o : SegmentOption} (text : Bytes) {p : Part}
    (hp : p ≠ .option o.toKnown) : (m.edit (.segments o text)).1.Agree m p := by
  rw [edit_segments]
  cases o.checkPieces text with
  | error e => exact .refl m p
  | ok u => exact m.agree_withPieces_of_ne text hp

theorem agree_location_of_ne (m : Message) (text : Bytes) {p : Part}
    (hpath : p ≠ .option .locationPath) (hquery : p ≠ .option .locationQuery) :
    (m.edit (.location text)).1.Agree m p := by
  cases hc : SegmentOption.locationPath.checkPieces (text.takeWhile (· != 0x3F)) with
  | error e =>
    rw [edit_location_of_error hc]
    exact .refl m p
  | ok u =>
    have hfirst := m.agree_withPieces_of_ne (o := .locationPath) (text.takeWhile (· != 0x3F)) hpath
    rw [edit_location_of_ok hc]
    cases text.dropWhile (· != 0x3F) with
    | nil => exact hfirst
    | cons c query => exact (agree_segments_of_ne _ (o := .locationQuery) query hquery).trans hfirst

/-- A change leaves alone what is outside its footprint, also if it is refused. -/
theorem agree_edit_of_not_writes (m : Message) {e : Edit} {p : Part} (h : e.writes p = false) :
    (m.edit e).1.Agree m p := by
  have hp : p ∉ e.footprint := fun hm => Bool.eq_false_iff.mp h (Edit.writes_iff.mpr hm)
  cases hv : e.value? with
  | some v =>
    rw [Edit.footprint_of_value hv, List.mem_singleton] at hp
    rw [edit_of_value hv]
    exact m.agree_offer_of_ne v.2 hp
  | none =>
    cases e with
    | segments o text => exact m.agree_segments_of_ne text (List.ne_of_not_mem_cons hp)
    | location text =>
      have hquery := List.ne_of_not_mem_cons (List.not_mem_of_not_mem_cons hp)
      exact m.agree_location_of_ne text (List.ne_of_not_mem_cons hp) hquery
    | remove o => exact m.agree_remove_of_ne (List.ne_of_not_mem_cons hp)
    | ifNoneMatch set =>
      cases set with
      | true => cases hv
      | false => exact m.agree_remove_of_ne (o := .ifNoneMatch) (List.ne_of_not_mem_cons hp)
    | own =>
      cases p with
      | option o => exact ⟨rfl, m.values_own o⟩
      | payload =>
        change (m.payload.map Segment.own).map Segment.bytes = _
        rw [Option.map_map]
        rfl
      | token | code | type | id | version => rfl
    | token bytes =>
      rw [edit_token]
      cases Token.ofBytes? bytes with
      | none => exact .refl m p
      | some token => exact m.agree_token_of_ne token (List.ne_of_not_mem_cons hp)
    | payload bytes =>
      rw [edit, setPayload_eq]
      exact m.agree_payload_of_ne (chunk bytes) (List.ne_of_not_mem_cons hp)
    | code | type | id | version =>
      cases p with
      | option o => exact ⟨rfl, by cases o <;> rfl⟩
      | token | payload | code | type | id | version =>
        first | rfl | exact absurd rfl (List.ne_of_not_mem_cons hp)
    | _ => cases hv

theorem Agree.accept_length {m n : Message} (h : m.Agree n (.option .accept)) :
    m.accept.length = n.accept.length := by
  have hv := congrArg List.length h.2
  simpa only [values, List.length_map] using hv

theorem Agree.refusal?_eq {m n : Message} {o : KnownOption} (h : m.Agree n (.option o))
    (value : Bytes) : m.refusal? o value = n.refusal? o value := by
  unfold refusal?
  by_cases ho : o = .accept
  · subst ho
    rw [h.accept_length]
  · simp only [ho, false_and]

theorem Agree.put {m n : Message} {o : KnownOption} (h : m.Agree n (.option o))
    (hm : m.accept.length ≤ maxAccept) (hn : n.accept.length ≤ maxAccept) {value : Bytes}
    (hv : o.admits value.length = true) : (m.put o value).Agree (n.put o value) (.option o) := by
  refine ⟨?_, ?_⟩
  · rw [has_put, has_put, if_pos rfl, if_pos rfl]
  · rw [values_put hm hv, values_put hn hv, if_pos rfl, if_pos rfl, h.2]

theorem Agree.offer {m n : Message} {o : KnownOption} (h : m.Agree n (.option o))
    (hm : m.accept.length ≤ maxAccept) (hn : n.accept.length ≤ maxAccept) (value : Bytes) :
    (m.offer o value).1.Agree (n.offer o value).1 (.option o) := by
  unfold Message.offer
  rw [h.refusal?_eq value]
  cases hr : n.refusal? o value with
  | some e => exact h
  | none => exact h.put hm hn (refusal?_eq_none_iff.mp hr).1

theorem agree_withPieces (m n : Message) (o : SegmentOption) (text : Bytes) :
    (m.withPieces o text).Agree (n.withPieces o text) (.option o.toKnown) := by
  refine ⟨?_, ?_⟩
  · rw [has_withPieces, has_withPieces, if_pos rfl, if_pos rfl]
  · rw [values_withPieces, values_withPieces, if_pos rfl, if_pos rfl]

theorem Agree.segments {m n : Message} {p : Part} (h : m.Agree n p) (o : SegmentOption)
    (text : Bytes) :
    (m.edit (.segments o text)).1.Agree (n.edit (.segments o text)).1 p := by
  rw [edit_segments, edit_segments]
  cases o.checkPieces text with
  | error e => exact h
  | ok u =>
    by_cases hp : p = .option o.toKnown
    · subst hp
      exact agree_withPieces m n o text
    · exact ((m.agree_withPieces_of_ne text hp).trans h).trans
        (n.agree_withPieces_of_ne text hp).symm

theorem Agree.location {m n : Message} {p : Part} (h : m.Agree n p) (text : Bytes) :
    (m.edit (.location text)).1.Agree (n.edit (.location text)).1 p := by
  have hpath := h.segments .locationPath (text.takeWhile (· != 0x3F))
  rw [edit_segments, edit_segments] at hpath
  cases hc : SegmentOption.locationPath.checkPieces (text.takeWhile (· != 0x3F)) with
  | error e =>
    rw [edit_location_of_error hc, edit_location_of_error hc]
    exact h
  | ok u =>
    rw [hc] at hpath
    rw [edit_location_of_ok hc, edit_location_of_ok hc]
    cases text.dropWhile (· != 0x3F) with
    | nil => exact hpath
    | cons c query => exact hpath.segments .locationQuery query

theorem agree_remove (m n : Message) (o : KnownOption) :
    (m.remove o).Agree (n.remove o) (.option o) := by
  refine ⟨?_, ?_⟩
  · rw [has_remove, has_remove, if_pos rfl, if_pos rfl]
  · rw [values_remove, values_remove, if_pos rfl, if_pos rfl]

/-- What a change makes of a part depends on nothing but that part. -/
theorem Agree.edit {m n : Message} {p : Part} (h : m.Agree n p)
    (hm : m.accept.length ≤ maxAccept) (hn : n.accept.length ≤ maxAccept) (e : Edit) :
    (m.edit e).1.Agree (n.edit e).1 p := by
  cases hw : e.writes p with
  | false =>
    exact ((m.agree_edit_of_not_writes hw).trans h).trans (n.agree_edit_of_not_writes hw).symm
  | true =>
    have hp := Edit.writes_iff.mp hw
    cases hv : e.value? with
    | some v =>
      rw [Edit.footprint_of_value hv, List.mem_singleton] at hp
      subst hp
      rw [edit_of_value hv, edit_of_value hv]
      exact h.offer hm hn v.2
    | none =>
      cases e with
      | segments o text => exact h.segments o text
      | location text => exact h.location text
      | remove o =>
        obtain rfl := List.mem_singleton.mp hp
        exact agree_remove m n o
      | ifNoneMatch set =>
        cases set with
        | true => cases hv
        | false =>
          obtain rfl := List.mem_singleton.mp hp
          exact agree_remove m n .ifNoneMatch
      | own => cases hp
      | token bytes =>
        obtain rfl := List.mem_singleton.mp hp
        rw [edit_token, edit_token]
        cases Token.ofBytes? bytes with
        | none => exact h
        | some token => rfl
      | payload bytes =>
        obtain rfl := List.mem_singleton.mp hp
        simp only [Message.edit, setPayload_eq]
        rfl
      | code | type | id | version =>
        obtain rfl := List.mem_singleton.mp hp
        rfl
      | _ => cases hv

/-- Whether a change is refused, and why, depends on nothing but its footprint. -/
theorem refused_eq_of_agree {m n : Message} {e : Edit}
    (h : ∀ p, e.writes p = true → m.Agree n p) : (m.edit e).2 = (n.edit e).2 := by
  cases hv : e.value? with
  | some v =>
    have hmem : Part.option v.1 ∈ e.footprint := by
      rw [Edit.footprint_of_value hv]
      exact List.mem_singleton_self _
    rw [refused_of_value hv, refused_of_value hv]
    exact (h _ (Edit.writes_iff.mpr hmem)).refusal?_eq v.2
  | none =>
    cases e with
    | segments o text =>
      rw [edit_segments, edit_segments]
      cases o.checkPieces text <;> rfl
    | location text =>
      cases hc : SegmentOption.locationPath.checkPieces (text.takeWhile (· != 0x3F)) with
      | error e => rw [edit_location_of_error hc, edit_location_of_error hc]
      | ok u =>
        rw [edit_location_of_ok hc, edit_location_of_ok hc]
        cases text.dropWhile (· != 0x3F) with
        | nil => rfl
        | cons c query =>
          dsimp only
          rw [edit_segments, edit_segments]
          cases SegmentOption.locationQuery.checkPieces query <;> rfl
    | token bytes =>
      rw [edit_token, edit_token]
      cases Token.ofBytes? bytes <;> rfl
    | payload | ifNoneMatch | remove | code | type | id | version | own => rfl
    | _ => cases hv

/-- Messages are equal exactly if they hold the same in every part. -/
theorem Coherent.beq_iff_agree {m n : Message} (hm : m.Coherent) (hn : n.Coherent) :
    (m == n) = true ↔ ∀ p, m.Agree n p := by
  rw [beq_iff_borrow_eq]
  constructor
  · intro h p
    have hframe : m.borrow.frame = n.borrow.frame := by rw [h]
    simp only [frame, Prod.mk.injEq] at hframe
    obtain ⟨hid, htype, hversion, htoken, hcode, hpayload⟩ := hframe
    cases p with
    | option o =>
      have hhas : m.borrow.has o = n.borrow.has o := by rw [h]
      refine ⟨hhas, ?_⟩
      rw [← m.values_borrow, ← n.values_borrow, h]
    | payload =>
      have hb := congrArg (Option.map Segment.bytes) hpayload
      simp only [borrow, Option.map_map] at hb
      exact hb
    | token => exact htoken
    | code => exact hcode
    | type => exact htype
    | id => exact hid
    | version => exact hversion
  · intro h
    have hpayload : m.payload.map Segment.borrow = n.payload.map Segment.borrow := by
      have hb := congrArg (Option.map Segment.borrowed) (h .payload)
      rw [Option.map_map, Option.map_map] at hb
      exact hb
    apply borrow_eq_of_values
    · exact hm.registered.ext hn.registered fun o => (h (.option o)).1
    · exact fun o => (h (.option o)).2
    · simp only [frame, Prod.mk.injEq]
      exact ⟨h .id, h .type, h .version, h .token, h .code, hpayload⟩

theorem encode_eq_of_beq {m n : Message} (h : (m == n) = true) :
    m.encodedLength = n.encodedLength ∧ m.encode = n.encode := by
  have hb := beq_iff_borrow_eq.mp h
  refine ⟨?_, ?_⟩
  · rw [← m.encodedLength_borrow, ← n.encodedLength_borrow, hb]
  · rw [← m.encode_borrow, ← n.encode_borrow, hb]

end Message

end Coap
