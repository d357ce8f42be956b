import Coap.Proofs.MessageReachable

namespace Coap

namespace Edit

/-- The option and the value, in the bytes that are written for it, that a change puts into a
message. The other changes put no single value. -/
def value? : Edit → Option (KnownOption × Bytes)
  | contentType n => some (.contentType, BigEndian.minimal n.toUInt32)
  | maxAge seconds => some (.maxAge, BigEndian.minimal seconds)
  | etag bytes => some (.etag, bytes)
  | ifMatch bytes => some (.ifMatch, bytes)
  | ifNoneMatch true => some (.ifNoneMatch, [])
  | uriHost text => some (.uriHost, text)
  | uriPort port => some (.uriPort, BigEndian.minimal port.toUInt32)
  | observe n => some (.observe, BigEndian.minimal n)
  | bodySize n => some (.size, BigEndian.minimal n)
  | accept n => some (.accept, BigEndian.minimal n.toUInt32)
  | proxyUri text => some (.proxyUri, text)
  | block1 b => some (.block1, BigEndian.minimal b.raw)
  | block2 b => some (.block2, BigEndian.minimal b.raw)
  | segment o text => some (o.toKnown, text)
  | ifNoneMatch false | token _ | payload _ | segments _ _ | location _ | remove _ | code _
  | type _ | id _ | version _ | own => none

end Edit

/-- The lengths of the pieces of a text, checked one after the other for a segment option. -/
def SegmentOption.checkPieces (o : SegmentOption) (text : Bytes) : Except SetError Unit :=
  (Segments.split text o.separator).forM fun s => o.toKnown.checkLength s.length

theorem SegmentOption.checkPieces_eq_ok_iff {o : SegmentOption} {text : Bytes} :
    o.checkPieces text = .ok () ↔
      ∀ piece ∈ Separated.trimmedPieces o.separator text, o.toKnown.admits piece.length = true := by
  rw [checkPieces, Message.forM_eq_ok_iff, ← Segments.map_bytes_split, List.forall_mem_map]
  exact forall₂_congr fun s _ => KnownOption.checkLength_eq_ok

namespace Message

/-- Why a message refuses a value for an option: its length, or an Accept list that is full. -/
def refusal? (m : Message) (o : KnownOption) (value : Bytes) : Option SetError :=
  match o.checkLength value.length with
  | .error e => some e
  | .ok () => if o = .accept ∧ maxAccept ≤ m.accept.length then some .acceptFull else none

/-- What a message becomes when it is given a value, and why if it refuses it. -/
def offer (m : Message) (o : KnownOption) (value : Bytes) : Message × Option SetError :=
  match m.refusal? o value with
  | some e => (m, some e)
  | none => (m.put o value, none)

theorem refusal?_eq_none_iff {m : Message} {o : KnownOption} {value : Bytes} :
    m.refusal? o value = none ↔
      o.admits value.length = true ∧ (o = .accept → m.accept.length < maxAccept) := by
  rw [← KnownOption.checkLength_eq_ok, refusal?]
  cases hc : o.checkLength value.length with
  | error e => simp
  | ok u => simp

/-- An option without a least length takes every value that is not too long. -/
theorem offer_of_le {m : Message} {o : KnownOption} {value : Bytes} (hmin : o.minLength = 0)
    (ho : o ≠ .accept) (hv : value.length ≤ o.maxLength) :
    m.offer o value = (m.put o value, none) := by
  have hadmits := KnownOption.admits_of_le hmin hv
  have hn : m.refusal? o value = none :=
    refusal?_eq_none_iff.mpr ⟨hadmits, fun h => absurd h ho⟩
  rw [offer, hn]

theorem settle_checkedPut (m : Message) {o : KnownOption} (ho : o ≠ .accept) (value : Bytes) :
    m.settle (m.checkedPut o value) = m.offer o value := by
  unfold checkedPut offer refusal?
  cases o.checkLength value.length with
  | error e => rfl
  | ok u => simp only [ho, false_and, if_false]; rfl

theorem settle_addAccept (m : Message) (n : UInt16) :
    m.settle (m.addAccept n) = m.offer .accept (BigEndian.minimal n.toUInt32) := by
  have hv : KnownOption.accept.admits (BigEndian.minimal n.toUInt32).length = true :=
    KnownOption.admits_of_le rfl (BigEndian.length_minimal_short n)
  have hc := KnownOption.checkLength_eq_ok.mpr hv
  unfold offer refusal?
  rw [hc]
  by_cases hroom : m.accept.length < maxAccept
  · simp only [addAccept_eq_put hroom, Nat.not_le.mpr hroom, and_false, if_false]
    rfl
  · have hfull : maxAccept ≤ m.accept.length := by omega
    simp only [addAccept, hfull, and_self, if_true]
    rfl

/-- Every change that puts one value does it like the decoder, after the check of the length. -/
theorem edit_of_value {m : Message} {e : Edit} {o : KnownOption} {value : Bytes}
    (h : e.value? = some (o, value)) : m.edit e = m.offer o value := by
  cases e with
  | contentType n =>
    cases h
    rw [edit, setContentType_eq_put]
    exact (offer_of_le rfl (by decide) (BigEndian.length_minimal_short n)).symm
  | uriPort n =>
    cases h
    rw [edit, setUriPort_eq_put]
    exact (offer_of_le rfl (by decide) (BigEndian.length_minimal_short n)).symm
  | maxAge n =>
    cases h
    rw [edit, setMaxAge_eq_put]
    exact (offer_of_le rfl (by decide) (BigEndian.length_minimal_le n)).symm
  | bodySize n =>
    cases h
    rw [edit, setBodySize_eq_put]
    exact (offer_of_le rfl (by decide) (BigEndian.length_minimal_le n)).symm
  | ifNoneMatch set =>
    cases set with
    | true => cases h; rfl
    | false => cases h
  | accept n => cases h; exact m.settle_addAccept n
  | etag => cases h; exact m.settle_checkedPut (o := .etag) (by decide) _
  | ifMatch => cases h; exact m.settle_checkedPut (o := .ifMatch) (by decide) _
  | uriHost => cases h; exact m.settle_checkedPut (o := .uriHost) (by decide) _
  | proxyUri => cases h; exact m.settle_checkedPut (o := .proxyUri) (by decide) _
  | observe n =>
    cases h
    rw [edit, setObserve_eq_checkedPut]
    exact m.settle_checkedPut (by decide) _
  | block1 b =>
    cases h
    rw [edit, setBlock1_eq_checkedPut]
    exact m.settle_checkedPut (by decide) _
  | block2 b =>
    cases h
    rw [edit, setBlock2_eq_checkedPut]
    exact m.settle_checkedPut (by decide) _
  | segment s text =>
    cases h
    have hs : s.toKnown ≠ .accept := by cases s <;> decide
    rw [edit, addSegment_eq_checkedPut]
    exact m.settle_checkedPut hs _
  | token | payload | segments | location | remove | code | type | id | version | own => cases h

theorem refused_of_value {m : Message} {e : Edit} {o : KnownOption} {value : Bytes}
    (h : e.value? = some (o, value)) : (m.edit e).2 = m.refusal? o value := by
  rw [edit_of_value h, offer]
  cases m.refusal? o value <;> rfl

theorem edit_of_taken {m : Message} {e : Edit} {o : KnownOption} {value : Bytes}
    (h : e.value? = some (o, value)) (taken : (m.edit e).2 = none) :
    (m.edit e).1 = m.put o value := by
  rw [refused_of_value h] at taken
  rw [edit_of_value h, offer, taken]

/-- The message with the pieces of a text as the segments of an option. -/
def withPieces (m : Message) (o : SegmentOption) (text : Bytes) : Message :=
  let pieces := Segments.split text o.separator
  (m.putSegments pieces o).mark o.toKnown (!pieces.isEmpty)

theorem edit_token (m : Message) (bytes : Bytes) :
    m.edit (.token bytes) = match Token.ofBytes? bytes with
      | some token => ({ m with token }, none)
      | none => (m, some (.tokenTooLong bytes.length)) := by
  rw [edit, setToken]
  cases Token.ofBytes? bytes <;> rfl

/-- The payload that one message takes of some bytes. -/
def chunk (bytes : Bytes) : Option Segment :=
  match bytes.take maxChunkSize with
  | [] => none
  | b :: rest => some (.borrowed (b :: rest))

theorem setPayload_eq (m : Message) (bytes : Bytes) :
    m.setPayload bytes = { m with payload := chunk bytes } := by
  unfold setPayload chunk
  cases bytes.take maxChunkSize <;> rfl

theorem setSegments_eq (m : Message) (o : SegmentOption) (text : Bytes) :
    m.setSegments o text = (o.checkPieces text).map fun _ => m.withPieces o text := by
  simp only [setSegments, SegmentOption.checkPieces]
  cases (Segments.split text o.separator).forM fun s => o.toKnown.checkLength s.length <;> rfl

theorem edit_segments (m : Message) (o : SegmentOption) (text : Bytes) :
    m.edit (.segments o text) = match o.checkPieces text with
      | .error e => (m, some e)
      | .ok () => (m.withPieces o text, none) := by
  rw [edit, setSegments_eq]
  cases o.checkPieces text <;> rfl

theorem edit_location_of_error {m : Message} {text : Bytes} {e : SetError}
    (h : SegmentOption.locationPath.checkPieces (text.takeWhile (· != 0x3F)) = .error e) :
    m.edit (.location text) = (m, some e) := by
  rw [edit, setLocation, setSegments_eq, h]
  rfl

/-- A path that is taken is followed by the query, if there is a question mark. -/
theorem edit_location_of_ok {m : Message} {text : Bytes}
    (h : SegmentOption.locationPath.checkPieces (text.takeWhile (· != 0x3F)) = .ok ()) :
    m.edit (.location text) = match text.dropWhile (· != 0x3F) with
      | [] => (m.withPieces .locationPath (text.takeWhile (· != 0x3F)), none)
      | _ :: query => (m.withPieces .locationPath (text.takeWhile (· != 0x3F))).edit
          (.segments .locationQuery query) := by
  simp only [edit, setLocation, setSegments_eq, h, Except.map]
  cases text.dropWhile (· != 0x3F) with
  | nil => rfl
  | cons c query =>
    dsimp only
    cases SegmentOption.locationQuery.checkPieces query <;> rfl

/-- The message after some changes, one after the other. -/
def editAll (m : Message) (es : List Edit) : Message := es.foldl (fun m e => (m.edit e).1) m

/-- Why each of some changes is refused, if it is, when they are made one after the other. -/
def refusals (m : Message) : List Edit → List (Option SetError)
  | [] => []
  | e :: es => (m.edit e).2 :: (m.edit e).1.refusals es

theorem Coherent.editAll {m : Message} (h : m.Coherent) (es : List Edit) :
    (m.editAll es).Coherent := by
  induction es generalizing m with
  | nil => exact h
  | cons e es ih => exact ih (h.edit e)

theorem editAll_append (m : Message) (es later : List Edit) :
    m.editAll (es ++ later) = (m.editAll es).editAll later := List.foldl_append

theorem refusals_append (n : Message) (es later : List Edit) :
    n.refusals (es ++ later) = n.refusals es ++ (n.editAll es).refusals later := by
  induction es generalizing n with
  | nil => rfl
  | cons e es ih => exact congrArg ((n.edit e).2 :: ·) (ih (n.edit e).1)

end Message

end Coap
