import Coap.Proofs.Datagram
import Coap.Proofs.MessageInvariant

namespace Coap

theorem KnownOption.checkLength_eq_ok {o : KnownOption} {n : Nat} :
    o.checkLength n = .ok () ↔ o.admits n = true := by
  unfold checkLength admits
  by_cases h₁ : o.maxLength < n
  · simp [h₁]
  · by_cases h₂ : n < o.minLength
    · simp [h₁, h₂]
    · simp [h₁, h₂]
      omega

theorem KnownOption.admits_of_le {o : KnownOption} {n : Nat} (hmin : o.minLength = 0)
    (h : n ≤ o.maxLength) : o.admits n = true := by
  simp [admits, hmin, h]

namespace Message

theorem setContentType_eq_put (m : Message) (n : UInt16) :
    m.setContentType n = m.put .contentType (BigEndian.minimal n.toUInt32) := by
  rw [put, store, uintOf_minimal, UInt16.toUInt16_toUInt32]
  rfl

theorem setUriPort_eq_put (m : Message) (n : UInt16) :
    m.setUriPort n = m.put .uriPort (BigEndian.minimal n.toUInt32) := by
  rw [put, store, uintOf_minimal, UInt16.toUInt16_toUInt32]
  rfl

theorem setMaxAge_eq_put (m : Message) (n : UInt32) :
    m.setMaxAge n = m.put .maxAge (BigEndian.minimal n) := by
  rw [put, store, uintOf_minimal]
  rfl

theorem setBodySize_eq_put (m : Message) (n : UInt32) :
    m.setBodySize n = m.put .size (BigEndian.minimal n) := by
  rw [put, store, uintOf_minimal]
  rfl

/-- A setter that checks a length and then puts the value. -/
def checkedPut (m : Message) (o : KnownOption) (value : Bytes) : Except SetError Message := do
  o.checkLength value.length
  return m.put o value

theorem addSegment_eq_checkedPut (m : Message) (o : SegmentOption) (text : Bytes) :
    m.addSegment o text = m.checkedPut o.toKnown text := by
  cases o <;> rfl

theorem setObserve_eq_checkedPut (m : Message) (n : UInt32) :
    m.setObserve n = m.checkedPut .observe (BigEndian.minimal n) := by
  rw [checkedPut, put, store, uintOf_minimal, BigEndian.length_minimal]
  rfl

theorem setBlock1_eq_checkedPut (m : Message) (b : Block) :
    m.setBlock1 b = m.checkedPut .block1 (BigEndian.minimal b.raw) := by
  rw [checkedPut, put, store, uintOf_minimal, BigEndian.length_minimal]
  rfl

theorem setBlock2_eq_checkedPut (m : Message) (b : Block) :
    m.setBlock2 b = m.checkedPut .block2 (BigEndian.minimal b.raw) := by
  rw [checkedPut, put, store, uintOf_minimal, BigEndian.length_minimal]
  rfl

theorem addAccept_eq_put {m : Message} (h : m.accept.length < maxAccept) (n : UInt16) :
    m.addAccept n = .ok (m.put .accept (BigEndian.minimal n.toUInt32)) := by
  rw [addAccept, if_neg (by omega), put, store, if_pos h, uintOf_minimal, UInt16.toUInt16_toUInt32]

theorem Coherent.settle {m : Message} (h : m.Coherent) {r : Except SetError Message}
    (hr : ∀ n, r = .ok n → n.Coherent) : (m.settle r).1.Coherent := by
  cases r with
  | ok n => exact hr n rfl
  | error e => exact h

theorem Coherent.checkedPut {m n : Message} (h : m.Coherent) {o : KnownOption} {value : Bytes}
    (hn : m.checkedPut o value = .ok n) : n.Coherent := by
  unfold Message.checkedPut at hn
  cases hc : o.checkLength value.length with
  | error e => rw [hc] at hn; cases hn
  | ok u =>
    rw [hc] at hn
    cases hn
    exact h.put (KnownOption.checkLength_eq_ok.mp hc)

theorem forM_eq_ok_iff {α ε : Type} {f : α → Except ε Unit} {l : List α} :
    l.forM f = .ok () ↔ ∀ a ∈ l, f a = .ok () := by
  induction l with
  | nil => exact ⟨fun _ => nofun, fun _ => rfl⟩
  | cons b l ih =>
    change (f b >>= fun _ => l.forM f) = _ ↔ _
    rw [List.forall_mem_cons, ← ih]
    cases hb : f b with
    | error e => exact ⟨nofun, fun h => nomatch h.1⟩
    | ok u => exact ⟨fun h => ⟨rfl, h⟩, And.right⟩

theorem Coherent.setSegments {m n : Message} (h : m.Coherent) {o : SegmentOption} {text : Bytes}
    (hn : m.setSegments o text = .ok n) : n.Coherent := by
  simp only [Message.setSegments] at hn
  cases hc : (Segments.split text o.separator).forM fun s => o.toKnown.checkLength s.length with
  | error e => rw [hc] at hn; cases hn
  | ok u =>
    rw [hc] at hn
    cases hn
    exact h.putSegments o fun p hp => KnownOption.checkLength_eq_ok.mp (forM_eq_ok_iff.mp hc p hp)

theorem Coherent.setLocation {m : Message} (h : m.Coherent) (text : Bytes) :
    (m.setLocation text).1.Coherent := by
  unfold Message.setLocation
  split
  next => exact h
  next hp =>
    have h₁ := h.setSegments hp
    split
    next => exact h₁
    next =>
      split
      next => exact h₁
      next hq => exact h₁.setSegments hq

theorem Coherent.setPayload {m : Message} (h : m.Coherent) (bytes : Bytes) :
    (m.setPayload bytes).Coherent := by
  have hc (p : Option Segment) (hp : ∀ s, p = some s → s.bytes ≠ []) :
      ({ m with payload := p } : Message).Coherent :=
    ⟨h.registered, h.absent, h.inhabited, h.admitted, h.accept_le, hp⟩
  unfold Message.setPayload
  split
  next => exact hc none (by simp)
  next b rest _ => exact hc _ (by rintro s hs; cases hs; simp [Segment.bytes])

theorem values_own (m : Message) (o : KnownOption) : m.own.values o = m.values o := by
  have hs (s : Segments) : s.own.map Segment.bytes = s.map Segment.bytes := by
    simp [Segments.own, Segment.own, Segment.bytes, Function.comp_def]
  cases o <;> first | rfl | exact hs _

/-- Every change keeps the agreement, also one that is refused. -/
theorem Coherent.edit {m : Message} (h : m.Coherent) (e : Edit) : (m.edit e).1.Coherent := by
  cases e with
  | token bytes =>
    apply h.settle
    intro n hn
    unfold setToken at hn
    split at hn
    next => cases hn; exact h.congr rfl (fun _ => rfl) rfl rfl
    next => cases hn
  | payload bytes => exact h.setPayload bytes
  | contentType n =>
    simp only [Message.edit, setContentType_eq_put]
    exact h.put (KnownOption.admits_of_le rfl (BigEndian.length_minimal_short n))
  | uriPort n =>
    simp only [Message.edit, setUriPort_eq_put]
    exact h.put (KnownOption.admits_of_le rfl (BigEndian.length_minimal_short n))
  | maxAge n =>
    simp only [Message.edit, setMaxAge_eq_put]
    exact h.put (KnownOption.admits_of_le rfl (BigEndian.length_minimal_le n))
  | bodySize n =>
    simp only [Message.edit, setBodySize_eq_put]
    exact h.put (KnownOption.admits_of_le rfl (BigEndian.length_minimal_le n))
  | etag bytes => exact h.settle fun _ hn => h.checkedPut hn
  | ifMatch bytes => exact h.settle fun _ hn => h.checkedPut hn
  | uriHost text => exact h.settle fun _ hn => h.checkedPut hn
  | proxyUri text => exact h.settle fun _ hn => h.checkedPut hn
  | ifNoneMatch set =>
    cases set
    · exact h.remove .ifNoneMatch
    · have hv : KnownOption.ifNoneMatch.admits ([] : Bytes).length = true := rfl
      exact h.put hv
  | observe n => exact h.settle fun _ hn => h.checkedPut (setObserve_eq_checkedPut m n ▸ hn)
  | block1 b => exact h.settle fun _ hn => h.checkedPut (setBlock1_eq_checkedPut m b ▸ hn)
  | block2 b => exact h.settle fun _ hn => h.checkedPut (setBlock2_eq_checkedPut m b ▸ hn)
  | accept n =>
    apply h.settle
    intro k hk
    by_cases ha : m.accept.length < maxAccept
    · rw [addAccept_eq_put ha] at hk
      cases hk
      exact h.put (KnownOption.admits_of_le rfl (BigEndian.length_minimal_short n))
    · rw [addAccept, if_pos (by omega)] at hk
      cases hk
  | segments o text => exact h.settle fun _ hn => h.setSegments hn
  | segment o text =>
    exact h.settle fun _ hn => h.checkedPut (addSegment_eq_checkedPut m o text ▸ hn)
  | location text => exact h.setLocation text
  | remove o => exact h.remove o
  | own =>
    have hp : m.own.payload.map Segment.bytes = m.payload.map Segment.bytes := by
      change (m.payload.map Segment.own).map Segment.bytes = _
      rw [Option.map_map]
      rfl
    have hc : m.own.Coherent := h.congr rfl m.values_own rfl hp
    exact hc
  | code | type | id | version => exact h.congr rfl (fun _ => rfl) rfl rfl

/-- A message that a program can build: a new one or a decoded one, after any changes, also refused
ones. -/
inductive Reachable : Message → Prop
  | new (type : MessageType) (code : Code) (id : UInt16) : Reachable (new type code id)
  | decoded {b : Bytes} {m : Message} (h : decode b = .ok m) : Reachable m
  | edited {m : Message} (h : Reachable m) (e : Edit) : Reachable (m.edit e).1

theorem Coherent.assemble {m : Message} (h : m.Coherent) {os : List WireOption}
    (ha : ∀ o ∈ os, o.Acceptable) {back : Bytes} {p : Option Segment} (hp : Trailer back p) :
    (m.assemble os p).Coherent := by
  have hf := h.foldl_absorb fun o ho => (ha o ho).defect
  refine ⟨hf.registered, hf.absent, hf.inhabited, hf.admitted, hf.accept_le, ?_⟩
  rintro s rfl
  cases hp with
  | payload hb => exact hb

theorem Coherent.decode {b : Bytes} {m : Message} (h : decode b = .ok m) : m.Coherent := by
  obtain ⟨m₀, os, p, ⟨ho, _, ha, ht⟩, rfl⟩ := exists_datagram_of_decode h
  obtain ⟨type, code, id, token, rfl⟩ := ho.exists_bare
  exact (coherent_bare type code id token).assemble ha ht

theorem Reachable.coherent {m : Message} (h : m.Reachable) : m.Coherent := by
  induction h with
  | new type code id => exact coherent_bare type code id .empty
  | decoded h => exact .decode h
  | edited _ e ih => exact ih.edit e

end Message

end Coap
