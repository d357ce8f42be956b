import Coap.Proofs.EditOrder
import Coap.Proofs.SlotPresence

namespace Coap

namespace WireOption

/-- Acceptable options before the first bad one do not change what it is. -/
theorem FirstBad.after_series {prev : Nat} {os : List WireOption} {bytes src : Bytes}
    {e : OptionError} (hs : Series prev os bytes) (ha : ∀ o ∈ os, o.Acceptable)
    (h : FirstBad (lastNumber prev os) src e) : FirstBad prev (bytes ++ src) e := by
  induction hs with
  | nil => exact h
  | cons ho _ ih =>
    obtain ⟨hhead, htail⟩ := List.forall_mem_cons.mp ha
    rw [List.append_assoc]
    exact .later ho hhead (ih htail h)

theorem FieldDefect.eq_reserved_or_end {reserved e : OptionError} {nibble : Nat} {src : Bytes}
    (h : FieldDefect reserved nibble src e) : e = reserved ∨ e = .endOfStream := by
  cases h with
  | reserved => exact .inl rfl
  | noByte | noPair => exact .inr rfl

/-- An option is found to be of a wrong length only if its number is known and the length is not in
the range of it. -/
theorem FirstBad.exists_not_admits {prev : Nat} {src : Bytes} {number length : Nat}
    (h : FirstBad prev src (.valueLength number length)) :
    ∃ k : KnownOption, k.number = number ∧ k.admits length = false := by
  generalize he : OptionError.valueLength number length = e at h
  induction h with
  | broken h =>
    cases h with
    | delta _ h => rcases h.eq_reserved_or_end with rfl | rfl <;> cases he
    | length _ h => rcases h.eq_reserved_or_end with rfl | rfl <;> cases he
    | value | number => cases he
  | refused _ h =>
    cases h with
    | critical => cases he
    | @length k hk h =>
      cases he
      exact ⟨k, hk.symm, KnownOption.admits_eq_false_iff.mpr h⟩
  | later _ _ _ ih => exact ih he

end WireOption

namespace Edit

/-- What a change that puts a value would be read as. -/
def wire? (e : Edit) : Option WireOption := e.value?.map fun v => ⟨v.1.number, v.2⟩

/-- A change that every message takes that has room for one more Accept value. -/
def Admitted (e : Edit) : Prop := ∀ n : Message,
  (e.writes (.option .accept) = true → n.accept.length < maxAccept) → (n.edit e).2 = none

theorem admitted_of_value {e : Edit} {o : KnownOption} {value : Bytes}
    (h : e.value? = some (o, value)) (hv : o.admits value.length = true) : e.Admitted := by
  intro n hroom
  rw [Message.refused_of_value h, Message.refusal?_eq_none_iff]
  refine ⟨hv, ?_⟩
  rintro rfl
  apply hroom
  rw [writes_iff, footprint_of_value h]
  exact List.mem_singleton_self _

theorem eq_accept_or_remove {e : Edit} (h : e.writes (.option .accept) = true) :
    (∃ n, e = .accept n) ∨ e = .remove .accept := by
  have hp := writes_iff.mp h
  cases e with
  | accept n => exact .inl ⟨n, rfl⟩
  | remove o =>
    cases List.mem_singleton.mp hp
    exact .inr rfl
  | segments o | segment o => cases o <;> simp [footprint, SegmentOption.toKnown] at hp
  | _ => simp [footprint] at hp

end Edit

namespace Message

/-- Reading the bytes comes to an option, after a header and acceptable ones. What follows it is
free. -/
inductive Carries : Bytes → WireOption → Prop
  | mk {front body bytes : Bytes} {m : Message} {os : List WireOption} {w : WireOption}
      (opening : Opening front m) (series : WireOption.Series 0 os body)
      (acceptable : ∀ o ∈ os, o.Acceptable)
      (tlv : WireOption.Tlv (WireOption.lastNumber 0 os) w bytes) (rest : Bytes) :
      Carries (front ++ (body ++ (bytes ++ rest))) w

/-- The changes that give an option to a message as the getters of another one show it. -/
def settings (m : Message) : KnownOption → List Edit
  | .ifMatch => m.ifMatch?.toList.map .ifMatch
  | .uriHost => m.uriHost?.toList.map fun s => .uriHost s.bytes
  | .etag => m.etag?.toList.map .etag
  | .ifNoneMatch => if m.has .ifNoneMatch then [.ifNoneMatch true] else []
  | .observe => m.observeValue?.toList.map .observe
  | .uriPort => m.uriPort?.toList.map .uriPort
  | .locationPath => m.locationPath.map fun s => .segment .locationPath s.bytes
  | .uriPath => m.uriPath.map fun s => .segment .uriPath s.bytes
  | .contentType => m.contentType?.toList.map .contentType
  | .maxAge => m.maxAge?.toList.map .maxAge
  | .uriQuery => m.uriQuery.map fun s => .segment .uriQuery s.bytes
  | .accept => (m.accept?.getD []).map .accept
  | .locationQuery => m.locationQuery.map fun s => .segment .locationQuery s.bytes
  | .block2 => m.block2?.toList.map .block2
  | .block1 => m.block1?.toList.map .block1
  | .size => m.bodySize?.toList.map .bodySize
  | .proxyUri => m.proxyUri?.toList.map fun s => .proxyUri s.bytes

/-- The changes that make a message anew from its getters: its token, its options, its payload. -/
def replay (m : Message) : List Edit :=
  .token m.token.bytes ::
    (KnownOption.all.flatMap m.settings ++ m.payload.toList.map fun p => .payload p.bytes)

theorem value_get? {α : Type} (m : Message) {o : KnownOption} {a : α} {f : α → Edit} {v : Bytes}
    (h : (f a).value? = some (o, v)) : ((m.get? o a).toList.map f).map Edit.value? =
      if m.has o then [v].map fun v => some (o, v) else [] := by
  unfold get?
  cases m.has o with
  | true => exact congrArg (fun x => [x]) h
  | false => rfl

theorem Coherent.value_segments {m : Message} (h : m.Coherent) (o : SegmentOption) :
    ((m.segments o).map fun s => Edit.segment o s.bytes).map Edit.value? =
      if m.has o.toKnown then (m.values o.toKnown).map fun v => some (o.toKnown, v) else [] := by
  cases hp : m.has o.toKnown with
  | true =>
    rw [if_pos rfl, values_toKnown, List.map_map, List.map_map]
    rfl
  | false =>
    have hnone := h.absent _ hp
    rw [unset_toKnown, values_toKnown, List.map_eq_nil_iff] at hnone
    rw [hnone]
    rfl

/-- The settings of an option put the values that its slot writes, if it is present. -/
theorem Coherent.settings_value {m : Message} (h : m.Coherent) (o : KnownOption) :
    (m.settings o).map Edit.value? =
      if m.has o then (m.values o).map fun v => some (o, v) else [] := by
  cases o with
  | locationPath => exact h.value_segments .locationPath
  | uriPath => exact h.value_segments .uriPath
  | uriQuery => exact h.value_segments .uriQuery
  | locationQuery => exact h.value_segments .locationQuery
  | accept =>
    simp only [settings, accept?, get?, values]
    cases m.has .accept with
    | true => simp [Function.comp_def, Edit.value?]
    | false => rfl
  | ifNoneMatch =>
    simp only [settings]
    cases m.has .ifNoneMatch <;> rfl
  | _ => exact m.value_get? rfl

theorem Coherent.value_of_mem_settings {m : Message} (h : m.Coherent) {o : KnownOption} {e : Edit}
    (he : e ∈ m.settings o) :
    ∃ v, e.value? = some (o, v) ∧ m.has o = true ∧ v ∈ m.values o := by
  have hm := List.mem_map_of_mem (f := Edit.value?) he
  rw [h.settings_value] at hm
  cases ho : m.has o with
  | false =>
    rw [ho] at hm
    cases hm
  | true =>
    rw [ho, if_pos rfl] at hm
    obtain ⟨v, hv, hev⟩ := List.mem_map.mp hm
    exact ⟨v, hev.symm, rfl, hv⟩

theorem Coherent.filterMap_wire_settings {m : Message} (h : m.Coherent) (o : KnownOption) :
    (m.settings o).filterMap Edit.wire? =
      if m.has o then (m.values o).map (WireOption.mk o.number) else [] := by
  have hw : Edit.wire? = (Option.map fun v : KnownOption × Bytes => WireOption.mk v.1.number v.2) ∘
      Edit.value? := rfl
  rw [hw, ← List.filterMap_map, h.settings_value]
  cases m.has o with
  | false => rfl
  | true =>
    rw [if_pos rfl, if_pos rfl, List.filterMap_map]
    exact congrFun List.filterMap_eq_map _

/-- What the options of a message are set with is what they are written as. -/
theorem Coherent.wire_settings {m : Message} (h : m.Coherent) :
    (KnownOption.all.flatMap m.settings).filterMap Edit.wire? = m.wireOptions := by
  rw [wireOptions, OptionSet.toList]
  generalize KnownOption.all = ks
  induction ks with
  | nil => rfl
  | cons k ks ih =>
    rw [List.flatMap_cons, List.filterMap_append, ih, h.filterMap_wire_settings, List.filter_cons]
    change _ = List.flatMap _ (if m.has k = true then _ else _)
    cases m.has k <;> rfl

theorem accept_edit_length (n : Message) (e : Edit) : (n.edit e).1.accept.length ≤
    n.accept.length + if e.writes (.option .accept) then 1 else 0 := by
  cases hw : e.writes (.option .accept) with
  | false => exact Nat.le_of_eq (n.agree_edit_of_not_writes hw).accept_length
  | true =>
    rcases Edit.eq_accept_or_remove hw with ⟨k, rfl⟩ | rfl
    · rw [edit, addAccept]
      split
      next => exact Nat.le_add_right _ _
      next => simp [settle, mark]
    · exact Nat.zero_le _

/-- Changes that are admitted are all taken if the Accept values among them find room together. -/
theorem refusals_eq_none {n : Message} {es : List Edit} (h : ∀ e ∈ es, e.Admitted)
    (hroom : n.accept.length + (es.filter (·.writes (.option .accept))).length ≤ maxAccept) :
    ∀ r ∈ n.refusals es, r = none := by
  induction es generalizing n with
  | nil => exact nofun
  | cons e es ih =>
    obtain ⟨hhead, htail⟩ := List.forall_mem_cons.mp h
    -- one value is one place less for the changes that follow
    have hlen := n.accept_edit_length e
    cases hw : e.writes (.option .accept) with
    | true =>
      rw [List.filter_cons, if_pos hw, List.length_cons] at hroom
      rw [hw, if_pos rfl] at hlen
      refine List.forall_mem_cons.mpr ⟨hhead n fun _ => ?_, ih htail ?_⟩ <;> omega
    | false =>
      have hw' : ¬e.writes (.option .accept) = true := by rw [hw]; decide
      rw [List.filter_cons, if_neg hw'] at hroom
      rw [hw, if_neg (by decide)] at hlen
      refine List.forall_mem_cons.mpr ⟨hhead n fun h => absurd h hw', ih htail ?_⟩
      omega

/-- Values that are all taken are taken in as from a datagram. -/
theorem editAll_eq_foldl_absorb {n : Message} {es : List Edit}
    (hv : ∀ e ∈ es, e.value?.isSome = true) (hr : ∀ r ∈ n.refusals es, r = none) :
    n.editAll es = (es.filterMap Edit.wire?).foldl absorb n := by
  induction es generalizing n with
  | nil => rfl
  | cons e es ih =>
    obtain ⟨hvalue, hvalues⟩ := List.forall_mem_cons.mp hv
    obtain ⟨htaken, hrest⟩ := List.forall_mem_cons.mp hr
    obtain ⟨v, hev⟩ := Option.isSome_iff_exists.mp hvalue
    have hwire : e.wire? = some ⟨v.1.number, v.2⟩ := by rw [Edit.wire?, hev]; rfl
    have hput : (n.edit e).1 = n.absorb ⟨v.1.number, v.2⟩ :=
      (edit_of_taken hev htaken).trans (absorb_of_number (w := ⟨v.1.number, v.2⟩) rfl n).symm
    rw [List.filterMap_cons_some hwire, List.foldl_cons, ← hput]
    exact ih hvalues hrest

theorem edit_own_token (n : Message) (t : Token) :
    n.edit (.token t.bytes) = ({ n with token := t }, none) := by
  have ht : Token.ofBytes? t.bytes = some t := dif_pos t.length_le
  rw [edit_token, ht]

theorem Coherent.admitted_of_mem_replay {m : Message} (h : m.Coherent) {e : Edit}
    (he : e ∈ m.replay) : e.Admitted := by
  rcases List.mem_cons.mp he with rfl | he
  · intro n _
    rw [edit_own_token]
  rcases List.mem_append.mp he with he | he
  · obtain ⟨o, _, hm⟩ := List.mem_flatMap.mp he
    obtain ⟨v, hv, ho, hmem⟩ := h.value_of_mem_settings hm
    exact Edit.admitted_of_value hv (h.admitted o ho v hmem)
  · obtain ⟨p, _, rfl⟩ := List.mem_map.mp he
    exact fun _ _ => rfl

theorem Coherent.filter_settings {m : Message} (h : m.Coherent) (o k : KnownOption) :
    (m.settings o).filter (·.writes (.option k)) = if k = o then m.settings o else [] := by
  have hw : ∀ e ∈ m.settings o, e.footprint = [.option o] := by
    intro e he
    obtain ⟨v, hv, _, _⟩ := h.value_of_mem_settings he
    exact Edit.footprint_of_value hv
  split
  next hk =>
    refine List.filter_eq_self.mpr fun e he => ?_
    rw [hk, Edit.writes_iff, hw e he]
    exact List.mem_singleton_self _
  next hk =>
    refine List.filter_eq_nil_iff.mpr fun e he => ?_
    rw [Edit.writes_iff, hw e he, List.mem_singleton]
    exact fun hp => hk (Part.option.inj hp)

theorem Coherent.filter_flatMap_settings {m : Message} (h : m.Coherent) {ks : List KnownOption}
    (hn : ks.Nodup) (k : KnownOption) : (ks.flatMap m.settings).filter (·.writes (.option k)) =
      if k ∈ ks then m.settings k else [] := by
  induction ks with
  | nil => rfl
  | cons o ks ih =>
    obtain ⟨ho, hks⟩ := List.nodup_cons.mp hn
    rw [List.flatMap_cons, List.filter_append, ih hks, h.filter_settings]
    by_cases hk : k = o
    · subst hk
      simp [ho]
    · simp [hk]

/-- Of the changes that make a message anew, those to one option are the settings of that option. -/
theorem Coherent.filter_replay {m : Message} (h : m.Coherent) (k : KnownOption) :
    m.replay.filter (·.writes (.option k)) = m.settings k := by
  have hpayload : (m.payload.toList.map fun p => Edit.payload p.bytes).filter
      (·.writes (.option k)) = [] := by
    refine List.filter_eq_nil_iff.mpr fun e he => ?_
    obtain ⟨p, _, rfl⟩ := List.mem_map.mp he
    simp [Edit.writes, Edit.footprint]
  have htoken : ¬(Edit.token m.token.bytes).writes (.option k) = true := by
    simp [Edit.writes, Edit.footprint]
  rw [replay, List.filter_cons, if_neg htoken, List.filter_append, hpayload, List.append_nil,
    h.filter_flatMap_settings (by decide), if_pos k.mem_all]

theorem Coherent.length_settings_accept {m : Message} (h : m.Coherent) :
    (m.settings .accept).length ≤ maxAccept := by
  have hmap := congrArg List.length (h.settings_value .accept)
  rw [List.length_map] at hmap
  rw [hmap]
  split
  next => simpa [values] using h.accept_le
  next => exact Nat.zero_le _

/-- No change that makes a message anew is refused, whatever order they are made in, as long as the
values of one option keep theirs. -/
theorem Coherent.refusals_replay {m n : Message} (h : m.Coherent) (hn : n.accept = [])
    {es : List Edit} (hs : Edit.SameOrder es m.replay) : ∀ r ∈ n.refusals es, r = none := by
  apply refusals_eq_none
  · intro e he
    by_cases hp : e.footprint = []
    · cases e with
      | own => exact fun _ _ => rfl
      | _ => cases hp
    · obtain ⟨p, hp⟩ := List.exists_mem_of_ne_nil _ hp
      have hm : e ∈ es.filter (·.writes p) := List.mem_filter.mpr ⟨he, Edit.writes_iff.mpr hp⟩
      rw [hs p] at hm
      exact h.admitted_of_mem_replay (List.mem_filter.mp hm).1
  · rw [hs (.option .accept), h.filter_replay, hn]
    simpa using h.length_settings_accept

theorem chunk_of_le {p : Segment} (hp : p.bytes ≠ []) (hl : p.length ≤ maxChunkSize) :
    chunk p.bytes = some p.borrow := by
  have ht : p.bytes.take maxChunkSize = p.bytes := List.take_of_length_le hl
  unfold chunk
  rw [ht, Segment.borrow]
  cases hb : p.bytes with
  | nil => exact absurd hb hp
  | cons b rest => rfl

/-- The settings of all options are taken in like the options that the message is written as. -/
theorem Coherent.editAll_settings {m n : Message} (h : m.Coherent)
    (hr : ∀ r ∈ n.refusals (KnownOption.all.flatMap m.settings), r = none) :
    n.editAll (KnownOption.all.flatMap m.settings) = m.wireOptions.foldl absorb n := by
  have hvalue : ∀ e ∈ KnownOption.all.flatMap m.settings, e.value?.isSome = true := by
    intro e he
    obtain ⟨o, _, hm⟩ := List.mem_flatMap.mp he
    obtain ⟨v, hv, _, _⟩ := h.value_of_mem_settings hm
    rw [hv]
    rfl
  rw [editAll_eq_foldl_absorb hvalue hr, h.wire_settings]

/-- The changes that the getters of a message ask for make it anew, but for who owns the bytes. -/
theorem Coherent.editAll_replay {m : Message} (h : m.Coherent) (hv : m.version = 1)
    (hl : ∀ p, m.payload = some p → p.length ≤ maxChunkSize) :
    (new m.type m.code m.id).editAll m.replay = m.borrow := by
  have htoken : (new m.type m.code m.id).edit (.token m.token.bytes) =
      (bare m.type m.code m.id m.token, none) := edit_own_token _ _
  have hr := h.refusals_replay (n := new m.type m.code m.id) rfl fun _ => rfl
  rw [replay, refusals, htoken, refusals_append] at hr
  obtain ⟨_, hrest⟩ := List.forall_mem_cons.mp hr
  have hoptions := h.editAll_settings fun r hm => hrest r (List.mem_append_left _ hm)
  have hsplit : (new m.type m.code m.id).editAll m.replay =
      (m.wireOptions.foldl absorb (bare m.type m.code m.id m.token)).editAll
        (m.payload.toList.map fun p => .payload p.bytes) := by
    rw [replay, Message.editAll, List.foldl_cons, htoken, ← hoptions]
    exact editAll_append _ _ _
  rw [hsplit, ← h.assemble_wireOptions hv, Message.assemble]
  have hnone := payload_foldl_absorb m.wireOptions (bare m.type m.code m.id m.token)
  cases hp : m.payload with
  | none => exact congrArg (fun p => { m.wireOptions.foldl absorb _ with payload := p }) hnone
  | some p =>
    change (m.wireOptions.foldl absorb _).setPayload p.bytes = _
    rw [setPayload_eq, chunk_of_le (h.payload p hp) (hl p hp)]
    rfl

/-- A setter finds a value too long or too short exactly if its length is not in the range. -/
theorem refused_length_iff {n : Message} {e : Edit} {o : KnownOption} {value : Bytes}
    (h : e.value? = some (o, value)) :
    ((n.edit e).2 = some (.valueTooLong o.number value.length) ∨
      (n.edit e).2 = some (.valueTooShort o.number value.length)) ↔
      o.admits value.length = false := by
  rw [refused_of_value h]
  constructor
  · intro hr
    refine Bool.eq_false_iff.mpr fun ha => ?_
    have hc := KnownOption.checkLength_eq_ok.mpr ha
    unfold refusal? at hr
    rw [hc] at hr
    by_cases hf : o = .accept ∧ maxAccept ≤ n.accept.length
    · simp [hf] at hr
    · simp [hf] at hr
  · intro ha
    unfold refusal? KnownOption.checkLength
    by_cases hlong : o.maxLength < value.length
    · exact .inl (by simp [hlong])
    · have hshort := (KnownOption.admits_eq_false_iff.mp ha).resolve_right hlong
      exact .inr (by simp [hlong, hshort])

/-- An option that reading comes to is found to be of a wrong length exactly if its length is not in
the range of its number. -/
theorem Carries.valueLength_iff {b : Bytes} {o : KnownOption} {value : Bytes}
    (h : Carries b ⟨o.number, value⟩) :
    decode b = .error (.option (.valueLength o.number value.length)) ↔
      o.admits value.length = false := by
  constructor
  · intro hd
    cases firstDefect_of_decode hd with
    | option _ hbad =>
      obtain ⟨k, hk, ha⟩ := hbad.exists_not_admits
      rw [KnownOption.number_inj.mp hk] at ha
      exact ha
  · intro ha
    have hlength := KnownOption.admits_eq_false_iff.mp ha
    obtain ⟨opening, series, acceptable, tlv, rest⟩ := h
    have hbad := WireOption.FirstBad.refused tlv (.length rfl hlength) rest
    exact (FirstDefect.option opening (hbad.after_series series acceptable)).decode

/-- What the parser lets through is what the setters take. A decoded message whose payload fits one
message is made anew from its getters, the changes to one option in order and otherwise in any
order: none of them is refused, and the message that they make is equal. And of every value that a
setter puts the parser finds the length wrong exactly if the setter does. -/
theorem setters_match_decoder :
    (∀ b m, decode b = .ok m → (∀ p, m.payload = some p → p.length ≤ maxChunkSize) →
      ∀ es, Edit.SameOrder es m.replay →
        (∀ r ∈ (new m.type m.code m.id).refusals es, r = none) ∧
        ((new m.type m.code m.id).editAll es == m) = true) ∧
    ∀ (e : Edit) (o : KnownOption) (value : Bytes), e.value? = some (o, value) →
      ∀ b, Carries b ⟨o.number, value⟩ → ∀ n : Message,
        (decode b = .error (.option (.valueLength o.number value.length)) ↔
          (n.edit e).2 = some (.valueTooLong o.number value.length) ∨
          (n.edit e).2 = some (.valueTooShort o.number value.length)) := by
  refine ⟨?_, ?_⟩
  · intro b m h hl es hs
    have hc := Coherent.decode h
    have hv : m.version = 1 := by
      obtain ⟨m₀, os, p, ⟨ho, _, _, _⟩, rfl⟩ := exists_datagram_of_decode h
      obtain ⟨type, code, id, token, rfl⟩ := ho.exists_bare
      exact congrArg (fun f => f.2.2.1) (frame_assemble (bare type code id token) os p)
    refine ⟨hc.refusals_replay rfl hs, ?_⟩
    have horder := (coherent_bare m.type m.code m.id .empty).beq_of_sameOrder hs
    refine (beq_congr_left horder m).mpr ?_
    rw [beq_iff_borrow_eq]
    exact (congrArg borrow (hc.editAll_replay hv hl)).trans m.borrow_borrow
  · intro e o value he b hb n
    rw [hb.valueLength_iff, refused_length_iff he]

/-- A path with a payload that is made anew, and an entity tag without a byte. -/
theorem setters_match_decoder_path :
    let m := (bare .confirmable .get 7 .empty).assemble [⟨11, [0x61]⟩] (some (.borrowed [0x62]))
    ((new .confirmable .get 7).editAll m.replay == m) = true ∧
      decode [0x40, 1, 0, 7, 0x40] = .error (.option (.valueLength 4 0)) := by
  intro m
  obtain ⟨hreplay, hvalue⟩ := setters_match_decoder
  have hpayload : ∀ p, m.payload = some p → p.length ≤ maxChunkSize := by
    rintro p hp
    cases hp
    decide
  obtain ⟨_, hequal⟩ := hreplay _ m datagram_path.decode hpayload m.replay fun _ => rfl
  have ho : Opening [0x40, 1, 0, 7] (bare .confirmable .get 7 .empty) :=
    opening_header (m := new .confirmable .get 7) rfl (by decide)
  have ht : WireOption.Tlv 0 ⟨KnownOption.etag.number, []⟩ [0x40] :=
    (WireOption.encode_eq_ok_iff (by decide)).mp rfl
  have hcarries : Carries [0x40, 1, 0, 7, 0x40] ⟨KnownOption.etag.number, []⟩ :=
    .mk ho (.nil 0) nofun ht []
  have hrefused := hvalue (.etag []) .etag [] rfl _ hcarries (new .confirmable .get 7)
  exact ⟨hequal, hrefused.mpr (.inr (by decide))⟩

end Message

end Coap
