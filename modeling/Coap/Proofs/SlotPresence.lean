import Coap.Proofs.MessageReachable

namespace Coap.Message

/-- Two messages hold the same in the slot of an option; text is compared by content. -/
def SameSlot (m n : Message) : KnownOption → Prop
  | .ifMatch => m.ifMatch = n.ifMatch
  | .uriHost => m.uriHost.bytes = n.uriHost.bytes
  | .etag => m.etag = n.etag
  | .ifNoneMatch => True
  | .observe => m.observe = n.observe
  | .uriPort => m.uriPort = n.uriPort
  | .locationPath => m.locationPath.map Segment.bytes = n.locationPath.map Segment.bytes
  | .uriPath => m.uriPath.map Segment.bytes = n.uriPath.map Segment.bytes
  | .contentType => m.contentType = n.contentType
  | .maxAge => m.maxAge = n.maxAge
  | .uriQuery => m.uriQuery.map Segment.bytes = n.uriQuery.map Segment.bytes
  | .accept => m.accept = n.accept
  | .locationQuery => m.locationQuery.map Segment.bytes = n.locationQuery.map Segment.bytes
  | .block2 => m.block2 = n.block2
  | .block1 => m.block1 = n.block1
  | .size => m.bodySize = n.bodySize
  | .proxyUri => m.proxyUri.bytes = n.proxyUri.bytes

/-- The values that a slot writes tell what it holds: every number has one minimal form. -/
theorem sameSlot_of_values_eq {m n : Message} {o : KnownOption} (h : m.values o = n.values o) :
    m.SameSlot n o := by
  have hword {a b : UInt32} (h : [BigEndian.minimal a] = [BigEndian.minimal b]) : a = b :=
    BigEndian.minimal_inj (List.head_eq_of_cons_eq h)
  have hhalf {a b : UInt16} (h : BigEndian.minimal a.toUInt32 = BigEndian.minimal b.toUInt32) :
      a = b := UInt16.toUInt32_inj.mp (BigEndian.minimal_inj h)
  cases o with
  | ifMatch | uriHost | etag | proxyUri => exact List.head_eq_of_cons_eq h
  | ifNoneMatch => trivial
  | observe | maxAge | size => exact hword h
  | uriPort | contentType => exact hhalf (List.head_eq_of_cons_eq h)
  | block1 | block2 => exact congrArg Block.mk (hword h)
  | accept => exact (List.map_inj_right fun _ _ h => hhalf h).mp h
  | locationPath | uriPath | uriQuery | locationQuery => exact h

theorem Coherent.sameSlot_new {m : Message} (h : m.Coherent) {o : KnownOption}
    (ho : m.has o = false) (type : MessageType) (code : Code) (id : UInt16) :
    m.SameSlot (new type code id) o := by
  apply sameSlot_of_values_eq
  rw [h.absent o ho, values_new]

/-- An option whose slot starts empty is present exactly while the slot holds values. -/
theorem Coherent.has_iff_values_ne_nil {m : Message} (h : m.Coherent) {o : KnownOption}
    (ho : o.unset = []) : m.has o = true ↔ m.values o ≠ [] := by
  constructor
  · exact h.inhabited o
  · intro hne
    cases hp : m.has o with
    | true => rfl
    | false => exact absurd ((h.absent o hp).trans ho) hne

theorem unset_toKnown (o : SegmentOption) : o.toKnown.unset = [] := by cases o <;> rfl

theorem values_toKnown (m : Message) (o : SegmentOption) :
    m.values o.toKnown = (m.segments o).map Segment.bytes := by
  cases o <;> rfl

/-- Presence and slots never drift apart: an absent option leaves what a new message holds, every
value of a present one has a length in the option's range, a list is present exactly while it is
not empty, Accept never holds more than two values, and a payload is never empty. -/
theorem slots_follow_presence {m : Message} (h : m.Reachable) :
    (∀ o, m.has o = false → ∀ type code id, m.SameSlot (new type code id) o) ∧
    (∀ o, m.has o = true → ∀ v ∈ m.values o, o.minLength ≤ v.length ∧ v.length ≤ o.maxLength) ∧
    (∀ o : SegmentOption, m.has o.toKnown = true ↔ m.segments o ≠ []) ∧
    (m.has .accept = true ↔ m.accept ≠ []) ∧
    m.accept.length ≤ 2 ∧
    (∀ p, m.payload = some p → p.bytes ≠ []) := by
  have hc := h.coherent
  refine ⟨fun o ho => hc.sameSlot_new ho, ?_, ?_, ?_, hc.accept_le, hc.payload⟩
  · intro o ho v hv
    exact KnownOption.length_le_of_admits (hc.admitted o ho v hv)
  · intro o
    have hu : o.toKnown.unset = [] := by cases o <;> rfl
    rw [hc.has_iff_values_ne_nil hu, values_toKnown]
    exact not_congr List.map_eq_nil_iff
  · rw [hc.has_iff_values_ne_nil rfl]
    exact not_congr List.map_eq_nil_iff

/-- A path that is set and then cleared by an empty text: its option is absent again, and the two
Accept values that fit stay when a third is refused. -/
theorem slots_follow_presence_cleared_path :
    let m := (((((new .confirmable .get 7).edit (.segments .uriPath [0x2F, 0x61])).1.edit
      (.accept 50)).1.edit (.accept 40)).1.edit (.accept 0)).1
    let n := (m.edit (.segments .uriPath [])).1
    m.has .uriPath = true ∧ m.segments .uriPath ≠ [] ∧ m.accept.length ≤ 2 ∧
      n.has .uriPath = false ∧ n.SameSlot (new .confirmable .get 7) .uriPath := by
  intro m n
  have hm : m.Reachable :=
    .edited (.edited (.edited (.edited (.new .confirmable .get 7) _) _) _) _
  obtain ⟨_, _, hsegments, _, haccept, _⟩ := slots_follow_presence hm
  obtain ⟨habsent, _⟩ := slots_follow_presence (hm.edited (.segments .uriPath []))
  have hset : m.has .uriPath = true := by decide
  have hcleared : n.has .uriPath = false := by decide
  exact ⟨hset, (hsegments .uriPath).mp hset, haccept, hcleared,
    habsent .uriPath hcleared .confirmable .get 7⟩

end Coap.Message
