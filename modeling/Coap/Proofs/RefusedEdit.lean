import Coap.Proofs.Footprint
import Coap.Proofs.LongestRun
import Coap.Proofs.SlotPresence

namespace Coap.Message

/-- A text with a question mark is a path without one, the mark and a query. -/
theorem exists_path_query {text : Bytes} {c : UInt8} {query : Bytes}
    (h : text.dropWhile (· != 0x3F) = c :: query) :
    ∃ path, text = path ++ 0x3F :: query ∧ 0x3F ∉ path ∧ text.takeWhile (· != 0x3F) = path := by
  have hc : c = 0x3F := by
    have hhead := List.head?_dropWhile_not (· != 0x3F) text
    rw [h] at hhead
    simpa using hhead
  have htext := List.takeWhile_append_dropWhile (p := (· != 0x3F)) (l := text)
  rw [h, hc] at htext
  refine ⟨_, htext.symm, ?_, rfl⟩
  intro hm
  have hne := List.all_eq_true.mp (List.all_takeWhile (p := (· != 0x3F)) (l := text)) _ hm
  exact absurd rfl (bne_iff_ne.mp hne)

theorem edit_segments_eq_none_iff {m : Message} {o : SegmentOption} {text : Bytes} :
    (m.edit (.segments o text)).2 = none ↔ o.checkPieces text = .ok () := by
  rw [edit_segments]
  cases o.checkPieces text with
  | error e => simp
  | ok u => simp

theorem edit_segments_eq_some_iff {m : Message} {o : SegmentOption} {text : Bytes} {e : SetError} :
    (m.edit (.segments o text)).2 = some e ↔ o.checkPieces text = .error e := by
  rw [edit_segments]
  cases o.checkPieces text with
  | error e' => simp
  | ok u => simp

/-- A segment option with the pieces of a text is as before exactly if it held those pieces. -/
theorem Coherent.withPieces_beq_iff {m : Message} (h : m.Coherent) (o : SegmentOption)
    {text : Bytes} (ht : o.checkPieces text = .ok ()) :
    (m.withPieces o text == m) = true ↔
      (m.segments o).map Segment.bytes = Separated.trimmedPieces o.separator text := by
  have hvalues : (m.withPieces o text).values o.toKnown
      = Separated.trimmedPieces o.separator text := by
    rw [values_withPieces, if_pos rfl, Segments.map_bytes_split]
  have hc : (m.withPieces o text).Coherent := by
    have hedit := h.edit (.segments o text)
    rw [edit_segments, ht] at hedit
    exact hedit
  rw [hc.beq_iff_agree h, ← values_toKnown]
  constructor
  · intro hagree
    rw [← (hagree (.option o.toKnown)).2, hvalues]
  · intro hsame p
    by_cases hp : p = .option o.toKnown
    · subst hp
      refine ⟨?_, hvalues.trans hsame.symm⟩
      have hnew := hc.has_iff_values_ne_nil (unset_toKnown o)
      rw [hvalues, ← hsame] at hnew
      exact Bool.eq_iff_iff.mpr (hnew.trans (h.has_iff_values_ne_nil (unset_toKnown o)).symm)
    · exact m.agree_withPieces_of_ne text hp

theorem edit_location_of_query {m : Message} {path query : Bytes} {err : SetError}
    (hpath : 0x3F ∉ path) (htaken : SegmentOption.locationPath.checkPieces path = .ok ())
    (hrefused : SegmentOption.locationQuery.checkPieces query = .error err) :
    m.edit (.location (path ++ 0x3F :: query)) = (m.withPieces .locationPath path, some err) := by
  obtain ⟨htake, hdrop⟩ := takeWhile_ne_append hpath query
  rw [edit_location_of_ok (by rw [htake]; exact htaken), htake, hdrop]
  dsimp only
  rw [edit_segments, hrefused]

/-- A refused location left the message alone, or its path was taken and its query refused. -/
theorem refused_location {m : Message} {text : Bytes} {err : SetError}
    (h : (m.edit (.location text)).2 = some err) : (m.edit (.location text)).1 = m ∨
      ∃ path query, text = path ++ 0x3F :: query ∧ 0x3F ∉ path ∧
        SegmentOption.locationPath.checkPieces path = .ok () ∧
        SegmentOption.locationQuery.checkPieces query = .error err := by
  cases hc : SegmentOption.locationPath.checkPieces (text.takeWhile (· != 0x3F)) with
  | error e =>
    rw [edit_location_of_error hc]
    exact .inl rfl
  | ok u =>
    rw [edit_location_of_ok hc] at h
    cases hd : text.dropWhile (· != 0x3F) with
    | nil => rw [hd] at h; cases h
    | cons c query =>
      obtain ⟨path, htext, hpath, htake⟩ := exists_path_query hd
      rw [hd] at h
      rw [htake] at hc
      exact .inr ⟨path, query, htext, hpath, hc, edit_segments_eq_some_iff.mp h⟩

/-- Every change but a location checks what it is given before it writes. -/
theorem refused_eq_or_location {m : Message} {e : Edit} {err : SetError}
    (h : (m.edit e).2 = some err) : (m.edit e).1 = m ∨ ∃ text, e = .location text := by
  cases hv : e.value? with
  | some v =>
    rw [refused_of_value hv] at h
    rw [edit_of_value hv, offer, h]
    exact .inl rfl
  | none =>
    cases e with
    | segments o text =>
      rw [edit_segments_eq_some_iff] at h
      rw [edit_segments, h]
      exact .inl rfl
    | token bytes =>
      rw [edit_token] at h ⊢
      cases ht : Token.ofBytes? bytes with
      | none => exact .inl rfl
      | some token => rw [ht] at h; cases h
    | location text => exact .inr ⟨text, rfl⟩
    | payload | ifNoneMatch | remove | code | type | id | version | own => cases h
    | _ => cases hv

/-- A change that is refused leaves the message as it was, but for one case: a location whose path
is taken and whose query is refused has set the path, and so the message is another one unless it
had that path before. -/
theorem refused_keeps_message {m : Message} (h : m.Reachable) :
    (∀ e err, (m.edit e).2 = some err → (m.edit e).1 = m ∨
      ∃ path query, e = .location (path ++ 0x3F :: query) ∧ 0x3F ∉ path ∧
        (m.edit (.segments .locationPath path)).2 = none ∧
        (m.edit (.segments .locationQuery query)).2 = some err) ∧
    ∀ path query err, 0x3F ∉ path → (m.edit (.segments .locationPath path)).2 = none →
      (m.edit (.segments .locationQuery query)).2 = some err →
      m.edit (.location (path ++ 0x3F :: query)) =
        ((m.edit (.segments .locationPath path)).1, some err) ∧
      ((m.edit (.location (path ++ 0x3F :: query))).1 == m ↔
        m.locationPath.map Segment.bytes = Separated.trimmedPieces 0x2F path) := by
  refine ⟨?_, ?_⟩
  · intro e err he
    rcases refused_eq_or_location he with hsame | ⟨text, rfl⟩
    · exact .inl hsame
    · rcases refused_location he with hsame | ⟨path, query, rfl, hpath, htaken, hrefused⟩
      · exact .inl hsame
      · exact .inr ⟨path, query, rfl, hpath, edit_segments_eq_none_iff.mpr htaken,
          edit_segments_eq_some_iff.mpr hrefused⟩
  · intro path query err hpath htaken hrefused
    have hok := edit_segments_eq_none_iff.mp htaken
    have hloc := edit_location_of_query hpath hok (edit_segments_eq_some_iff.mp hrefused) (m := m)
    refine ⟨?_, ?_⟩
    · rw [hloc, edit_segments, hok]
    · rw [hloc]
      exact h.coherent.withPieces_beq_iff .locationPath hok

/-- The path of a new message that is given `a?b&&c` is set, though the empty piece of the query is
refused. -/
theorem refused_location_sets_path :
    ((new .acknowledgement ⟨2, 1⟩ 1).edit (.location [0x61, 0x3F, 0x62, 0x26, 0x26, 0x63])).2
        = some (.valueTooShort 20 0) ∧
      ¬((new .acknowledgement ⟨2, 1⟩ 1).edit
        (.location [0x61, 0x3F, 0x62, 0x26, 0x26, 0x63])).1 == new .acknowledgement ⟨2, 1⟩ 1 := by
  decide

theorem refused_keeps_message_query :
    (new .acknowledgement ⟨2, 1⟩ 1).edit (.location [0x61, 0x3F, 0x62, 0x26, 0x26, 0x63]) =
      (((new .acknowledgement ⟨2, 1⟩ 1).edit (.segments .locationPath [0x61])).1,
        some (.valueTooShort 20 0)) :=
  ((refused_keeps_message (.new .acknowledgement ⟨2, 1⟩ 1)).2 [0x61] [0x62, 0x26, 0x26, 0x63]
    (.valueTooShort 20 0) (by decide) (by decide) (by decide)).1

end Coap.Message
