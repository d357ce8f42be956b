import Coap.Proofs.OptionSizes
import Coap.Proofs.RoundTrip

namespace Coap.Message

/-- The options with given values for each known number, in ascending order. -/
def gather (values : KnownOption → List Bytes) : List WireOption :=
  KnownOption.all.flatMap fun k => (values k).map (WireOption.mk k.number)

theorem map_mk_valuesOf (os : List WireOption) (k : KnownOption) :
    (valuesOf os k).map (WireOption.mk k.number) = os.filter (·.number == k.number) := by
  rw [valuesOf, List.map_map]
  refine (List.map_congr_left ?_).trans (List.map_id _)
  intro o ho
  have hn : o.number = k.number := by simpa using (List.mem_filter.mp ho).2
  rw [Function.comp_apply, ← hn]
  rfl

theorem flatMap_filter {ks : List KnownOption} (hk : ks.Pairwise fun k l => k.number < l.number)
    {os : List WireOption} (hs : os.Pairwise fun o w => o.number ≤ w.number) :
    (ks.flatMap fun k => os.filter (·.number == k.number)) =
      os.filter fun o => ks.any (·.number == o.number) := by
  induction ks with
  | nil => simp
  | cons k ks ih =>
    obtain ⟨hlt, hk'⟩ := List.pairwise_cons.mp hk
    rw [List.flatMap_cons, ih hk', WireOption.filter_append_filter hs]
    · refine List.filter_congr fun o _ => ?_
      rw [List.any_cons, BEq.comm]
    · intro o w ho hw
      obtain ⟨l, hl, hlw⟩ := List.any_eq_true.mp hw
      have hok : o.number = k.number := by simpa using ho
      have hwl : l.number = w.number := by simpa using hlw
      have := hlt l hl
      omega

theorem gather_valuesOf {os : List WireOption}
    (hs : os.Pairwise fun o w => o.number ≤ w.number) :
    gather (valuesOf os) = os.filter fun o => KnownOption.all.any (·.number == o.number) := by
  simp only [gather, map_mk_valuesOf]
  exact flatMap_filter KnownOption.all_ascending hs

theorem gather_of_known {os : List WireOption}
    (hs : os.Pairwise fun o w => o.number ≤ w.number)
    (hk : ∀ o ∈ os, ∃ k : KnownOption, o.number = k.number) : gather (valuesOf os) = os := by
  rw [gather_valuesOf hs]
  refine List.filter_eq_self.mpr ?_
  intro o ho
  obtain ⟨k, hn⟩ := hk o ho
  exact List.any_eq_true.mpr ⟨k, KnownOption.mem_all k, by simp [hn]⟩

theorem gather_wireOptions (m : Message) : gather (valuesOf m.wireOptions) = m.wireOptions := by
  apply gather_of_known m.wireOptions_ascending
  intro o ho
  obtain ⟨k, _, hn, _⟩ := mem_wireOptions.mp ho
  exact ⟨k, hn⟩

theorem valuesOf_ne_nil_iff {os : List WireOption} {k : KnownOption} :
    valuesOf os k ≠ [] ↔ ∃ o ∈ os, o.number = k.number := by
  simp [valuesOf, List.filter_eq_nil_iff]

theorem valuesOf_wireOptions_assemble {front : Bytes} {m : Message} (h : Opening front m)
    {os : List WireOption} (ha : ∀ o ∈ os, o.Acceptable) (p : Option Segment) (k : KnownOption) :
    valuesOf (m.assemble os p).wireOptions k = (k.select (valuesOf os k)).map k.canonical := by
  rw [valuesOf_wireOptions]
  by_cases hk : valuesOf os k = []
  · have hn : ¬(m.assemble os p).has k = true := by
      rw [has_assemble h os p k, ← valuesOf_ne_nil_iff]
      exact fun hne => hne hk
    have he : k.select [] = [] := List.sublist_nil.mp (k.select_sublist [])
    rw [if_neg hn, hk, he, List.map_nil]
  · have hp : (m.assemble os p).has k = true :=
      (has_assemble h os p k).mpr (valuesOf_ne_nil_iff.mp hk)
    rw [if_pos hp, values_assemble h ha p hk]

def canonize (o : WireOption) : WireOption :=
  match KnownOption.ofNumber? o.number with
  | none => o
  | some k => ⟨o.number, k.canonical o.value⟩

theorem number_canonize (o : WireOption) : (canonize o).number = o.number := by
  unfold canonize
  split <;> rfl

theorem length_canonize_le (o : WireOption) : (canonize o).value.length ≤ o.value.length := by
  unfold canonize
  split
  next => exact Nat.le_refl _
  next k _ => exact k.length_canonical_le o.value

theorem gather_map_canonical (values : KnownOption → List Bytes) :
    (gather fun k => (values k).map k.canonical) = (gather values).map canonize := by
  have hc (k : KnownOption) (v : Bytes) :
      WireOption.mk k.number (k.canonical v) = canonize ⟨k.number, v⟩ := by
    simp only [canonize, KnownOption.ofNumber?_number]
  simp only [gather, List.map_flatMap, List.map_map]
  refine congrArg (List.flatMap · _) (funext fun k => ?_)
  exact List.map_congr_left fun v _ => hc k v

theorem gather_sublist {f g : KnownOption → List Bytes} (h : ∀ k, (f k).Sublist (g k)) :
    (gather f).Sublist (gather g) := by
  unfold gather
  induction KnownOption.all with
  | nil => exact List.Sublist.refl _
  | cons k ks ih => exact ((h k).map _).append ih

theorem wireOptions_assemble {front : Bytes} {m : Message} (h : Opening front m)
    {os : List WireOption} (ha : ∀ o ∈ os, o.Acceptable) (p : Option Segment) :
    (m.assemble os p).wireOptions = (gather fun k => k.select (valuesOf os k)).map canonize := by
  rw [← gather_wireOptions, ← gather_map_canonical]
  exact congrArg gather (funext (valuesOf_wireOptions_assemble h ha p))

/-- A decoded message is written in no more bytes than its options took. -/
theorem sizes_wireOptions_le {front body : Bytes} {m : Message} (h : Opening front m)
    {os : List WireOption} (hs : WireOption.Series 0 os body) (ha : ∀ o ∈ os, o.Acceptable)
    (p : Option Segment) :
    WireOption.sizes 0 (WireOption.outline (m.assemble os p).wireOptions) ≤ body.length := by
  have hasc := hs.ascending.2
  have hsub : (gather fun k => k.select (valuesOf os k)).Sublist os := by
    have hg := gather_sublist fun k => k.select_sublist (valuesOf os k)
    rw [gather_valuesOf hasc] at hg
    exact hg.trans List.filter_sublist
  have hpair : (WireOption.outline os).Pairwise fun a b => a.1 ≤ b.1 := List.pairwise_map.mpr hasc
  rw [wireOptions_assemble h ha p, hs.length_eq]
  calc
    _ ≤ WireOption.sizes 0 (WireOption.outline (gather fun k => k.select (valuesOf os k))) :=
      WireOption.sizes_map_le number_canonize length_canonize_le 0 _
    _ ≤ WireOption.sizes 0 (WireOption.outline os) :=
      WireOption.sizes_sublist (hsub.map _) (fun _ _ => Nat.zero_le _) hpair

/-- Nothing in a series of options that a message would not write: an unknown option, a repetition
that does not count, a leading zero. -/
structure Minimal (os : List WireOption) : Prop where
  known : ∀ o ∈ os, ∃ k : KnownOption, o.number = k.number
  single : ∀ k, k ∉ [.locationPath, .uriPath, .uriQuery, .accept, .locationQuery] →
    (valuesOf os k).length ≤ 1
  accept : (valuesOf os .accept).length ≤ 2
  stripped : ∀ o ∈ os, ∀ k : KnownOption, o.number = k.number → k.format = .uint →
    o.value.head? ≠ some 0

theorem canonical_eq_self_iff {k : KnownOption} {value : Bytes} :
    k.canonical value = value ↔ (k.format = .uint → value.head? ≠ some 0) := by
  unfold KnownOption.canonical
  split
  next hf => rw [BigEndian.dropWhile_eq_self_iff, imp_iff_right hf]
  next hf => simp [hf]

theorem mem_valuesOf {os : List WireOption} {k : KnownOption} {value : Bytes} :
    value ∈ valuesOf os k ↔ ⟨k.number, value⟩ ∈ os := by
  simp only [valuesOf, List.mem_map, List.mem_filter, beq_iff_eq]
  constructor
  · rintro ⟨o, ⟨ho, hn⟩, rfl⟩
    rw [← hn]
    exact ho
  · intro h
    exact ⟨_, ⟨h, rfl⟩, rfl⟩

theorem length_select_le {k : KnownOption} (values : List Bytes)
    (hk : k ∉ [KnownOption.locationPath, .uriPath, .uriQuery, .accept, .locationQuery]) :
    (k.select values).length ≤ 1 := by
  have ha : k ≠ .accept := by rintro rfl; exact hk (by decide)
  have hr : ¬k.repeatable = true := by
    intro hr
    cases k <;> first | (cases hr; done) | exact hk (by decide)
  rw [KnownOption.select, if_neg ha, if_neg hr]
  cases values.getLast? <;> simp

theorem select_of_length_le {k : KnownOption} {values : List Bytes} (h : values.length ≤ 1) :
    k.select values = values := by
  unfold KnownOption.select
  split
  next => exact List.take_of_length_le (Nat.le_trans h (by decide))
  next =>
    split
    next => rfl
    next =>
      match values, h with
      | [], _ => rfl
      | [_], _ => rfl

theorem Minimal.select_eq {os : List WireOption} (h : Minimal os) (k : KnownOption) :
    k.select (valuesOf os k) = valuesOf os k := by
  by_cases hk : k ∈ [KnownOption.locationPath, .uriPath, .uriQuery, .accept, .locationQuery]
  · simp only [List.mem_cons, List.not_mem_nil, or_false] at hk
    rcases hk with rfl | rfl | rfl | rfl | rfl
    case inr.inr.inr.inl => exact List.take_of_length_le h.accept
    all_goals rfl
  · exact select_of_length_le (h.single k hk)

theorem Minimal.map_canonical {os : List WireOption} (h : Minimal os) (k : KnownOption) :
    (valuesOf os k).map k.canonical = valuesOf os k := by
  refine (List.map_congr_left ?_).trans (List.map_id _)
  intro value hv
  exact canonical_eq_self_iff.mpr (h.stripped _ (mem_valuesOf.mp hv) k rfl)

/-- A decoded message is written as the options that it was read from exactly when none of them is
idle. -/
theorem wireOptions_assemble_eq_iff {front body : Bytes} {m : Message} (h : Opening front m)
    {os : List WireOption} (hs : WireOption.Series 0 os body) (ha : ∀ o ∈ os, o.Acceptable)
    (p : Option Segment) : (m.assemble os p).wireOptions = os ↔ Minimal os := by
  have hv (k : KnownOption) := valuesOf_wireOptions_assemble h ha p k
  constructor
  · intro he
    rw [he] at hv
    refine ⟨?_, ?_, ?_, ?_⟩
    · intro o ho
      rw [← he] at ho
      obtain ⟨k, _, hn, _⟩ := mem_wireOptions.mp ho
      exact ⟨k, hn⟩
    · intro k hk
      rw [hv k, List.length_map]
      exact length_select_le _ hk
    · rw [hv .accept, List.length_map]
      exact List.length_take_le _ _
    · intro o ho k hn
      rw [← he] at ho
      obtain ⟨l, _, hl, hm⟩ := mem_wireOptions.mp ho
      rw [← KnownOption.number_inj.mp (hn.symm.trans hl)] at hm
      exact canonical_eq_self_iff.mp (canonical_of_mem hm)
  · intro hmin
    -- two ascending series of known options with the same values for each number are one
    have hk (k : KnownOption) : valuesOf (m.assemble os p).wireOptions k = valuesOf os k := by
      rw [hv k, hmin.select_eq k, hmin.map_canonical k]
    calc
      (m.assemble os p).wireOptions = gather (valuesOf (m.assemble os p).wireOptions) :=
        (gather_wireOptions _).symm
      _ = gather (valuesOf os) := congrArg gather (funext hk)
      _ = os := gather_of_known hs.ascending.2 hmin.known

theorem Opening.eq_header {front : Bytes} {m : Message} (h : Opening front m) :
    front = m.header ++ m.token.bytes := by
  cases h with
  | @mk head code idHigh idLow type c id token hv hk hl hf hd hw =>
    have hlen : token.length ≤ 8 := token.length_le
    have hhead := toNat_head 1 type (show token.length < 9 by omega)
    have hone : (1 : UInt8).toNat = 1 := rfl
    have hb := code.toNat_lt
    have hfit : c.fitsByte = true := Code.fitsByte_iff.mpr (by omega)
    have hcode := Code.toByte_toNat hfit
    have hword := BigEndian.pair_value idHigh idLow
    rw [← hw, UInt16.ofNat_toNat] at hword
    have he : head = (1 : UInt8) <<< 6 ||| type.bits <<< 4 ||| UInt8.ofNat token.length :=
      UInt8.toNat_inj.mp (by omega)
    have hc : code = c.toByte := UInt8.toNat_inj.mp (by omega)
    calc
      head :: code :: idHigh :: idLow :: token.bytes
        = head :: code :: ([idHigh, idLow] ++ token.bytes) := rfl
      _ = (bare type c id token).header ++ (bare type c id token).token.bytes := by
        rw [← hword, he, hc]
        rfl

theorem Opening.fitsByte {front : Bytes} {m : Message} (h : Opening front m) :
    m.code.fitsByte = true := by
  cases h with
  | @mk head code _ _ _ c _ _ hv hk hl hf hd hw =>
    have hb := code.toNat_lt
    refine Code.fitsByte_iff.mpr ?_
    change c.family.toNat ≤ 7 ∧ c.detail.toNat ≤ 31
    omega

theorem Trailer.eq_trailer {back : Bytes} {m : Message} (h : Trailer back m.payload) :
    back = m.trailer := by
  unfold trailer
  generalize m.payload = p at h
  cases h <;> rfl

/-- A datagram is the layout of its message around the bytes of its own options. -/
theorem Datagram.eq_layout {b : Bytes} {m : Message} {os : List WireOption} {p : Option Segment}
    (h : Datagram b m os p) :
    ∃ body, WireOption.Series 0 os body ∧ b = (m.assemble os p).layout body := by
  obtain ⟨ho, hs, ha, ht⟩ := h
  refine ⟨_, hs, ?_⟩
  have hframe := frame_assemble m os p
  simp only [frame, Prod.mk.injEq] at hframe
  obtain ⟨hid, htype, hversion, htoken, hcode, hpayload⟩ := hframe
  rw [← hpayload] at ht
  rw [layout, ← ht.eq_trailer, ho.eq_header, header, header, hid, htype, hversion, htoken, hcode]

theorem length_layout_le_iff (m : Message) (body body' : Bytes) :
    (m.layout body).length ≤ (m.layout body').length ↔ body.length ≤ body'.length := by
  simp only [layout, List.length_append]
  omega

theorem layout_inj {m : Message} {body body' : Bytes} :
    m.layout body = m.layout body' ↔ body = body' := by
  rw [layout, layout, List.append_cancel_left_eq, List.append_cancel_right_eq]

theorem series_eq_iff {os os' : List WireOption} {body body' : Bytes}
    (h : WireOption.Series 0 os body) (h' : WireOption.Series 0 os' body') :
    body = body' ↔ os = os' := by
  constructor
  · rintro rfl
    exact (h.options_unique h' (Or.inl rfl) (Or.inl rfl) rfl).1
  · rintro rfl
    exact h.unique h'

/-- Encoding after decoding is a normal form of the datagram: never longer, decoded to the same
message, and the datagram itself exactly when that has nothing idle. -/
theorem encode_decode_normal {b : Bytes} {m : Message} (h : decode b = .ok m) :
    m.encodedLength ≤ b.length ∧
    (m.code.family ≠ 6 → ∃ b', m.encode = .ok b' ∧ b'.length ≤ b.length ∧ decode b' = .ok m ∧
      (b' = b ↔ Minimal (optionsIn b))) := by
  have hco := Coherent.decode h
  have hborrow := borrow_decode h
  obtain ⟨body, hs⟩ := hco.exists_series
  obtain ⟨m₀, os, p, hd, rfl⟩ := exists_datagram_of_decode h
  obtain ⟨front, ho⟩ := hd.exists_opening
  obtain ⟨bodyIn, hsIn, rfl⟩ := hd.eq_layout
  have hlen : ((m₀.assemble os p).layout body).length
      ≤ ((m₀.assemble os p).layout bodyIn).length := by
    rw [length_layout_le_iff, hs.length_eq]
    exact sizes_wireOptions_le ho hsIn hd.acceptable p
  refine ⟨?_, ?_⟩
  · rw [← length_layout hs]
    exact hlen
  · intro hl
    have hframe := frame_assemble m₀ os p
    simp only [frame, Prod.mk.injEq] at hframe
    obtain ⟨_, _, hversion, _, hcode, _⟩ := hframe
    obtain ⟨type, code, id, token, rfl⟩ := ho.exists_bare
    have hc : ((bare type code id token).assemble os p).code.fitsByte = true := by
      rw [hcode]
      exact ho.fitsByte
    have hl' : ((bare type code id token).assemble os p).code.isLocal = false := by
      simpa [Code.isLocal] using hl
    refine ⟨_, hco.encode hs hc hl', hlen, ?_, ?_⟩
    · rw [hco.decode_layout hs hversion hc, hborrow]
    · rw [layout_inj, series_eq_iff hs hsIn, hd.optionsIn_eq]
      exact wireOptions_assemble_eq_iff ho hsIn hd.acceptable p

theorem encode_decode_normal_path :
    ((bare .confirmable .get 7 .empty).assemble [⟨11, [0x61]⟩] (some (.borrowed [0x62]))).encode =
      .ok [0x40, 1, 0, 7, 0xB1, 0x61, 0xFF, 0x62] := by
  obtain ⟨_, hn⟩ := encode_decode_normal datagram_path.decode
  obtain ⟨b, he, _, _, hb⟩ := hn (by decide)
  have hm : Minimal [⟨11, [0x61]⟩] := by
    refine ⟨?_, ?_, by decide, ?_⟩
    · exact List.forall_mem_singleton.mpr ⟨.uriPath, rfl⟩
    · intro k _
      cases k <;> decide
    · refine List.forall_mem_singleton.mpr fun k _ _ => ?_
      decide
  rw [datagram_path.optionsIn_eq] at hb
  rw [he, hb.mpr hm]

end Coap.Message
