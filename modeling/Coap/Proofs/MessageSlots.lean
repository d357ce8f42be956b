import Coap.Message.Decode
import Coap.Message.Encode
import Coap.Proofs.BigEndian
import Coap.Proofs.OptionSet

namespace Coap

namespace KnownOption

/-- What the slot of an absent option writes: nothing, or one empty value. -/
def unset (o : KnownOption) : List Bytes := if o.repeatable then [] else [[]]

/-- The form in which a value is written again: numbers lose their leading zeros. -/
def canonical (o : KnownOption) (value : Bytes) : Bytes :=
  if o.format = .uint then value.dropWhile (· == 0) else value

/-- Those of several values that a message holds. -/
def select (o : KnownOption) (values : List Bytes) : List Bytes :=
  if o = .accept then values.take maxAccept else if o.repeatable then values
  else values.getLast?.toList

theorem length_le_of_admits {o : KnownOption} {n : Nat} (h : o.admits n = true) :
    o.minLength ≤ n ∧ n ≤ o.maxLength := by
  simpa [admits] using h

theorem admits_eq_false_iff {o : KnownOption} {n : Nat} :
    o.admits n = false ↔ n < o.minLength ∨ o.maxLength < n := by
  simp only [admits, Bool.and_eq_false_iff, decide_eq_false_iff_not, Nat.not_le]

theorem maxLength_uint {o : KnownOption} (h : o.format = .uint) :
    o.minLength = 0 ∧ o.maxLength ≤ 4 := by
  cases o <;> first | (cases h; done) | decide

theorem length_canonical_le (o : KnownOption) (value : Bytes) :
    (o.canonical value).length ≤ value.length := by
  unfold canonical
  split
  next => exact (List.dropWhile_sublist _).length_le
  next => exact Nat.le_refl _

theorem admits_canonical {o : KnownOption} {value : Bytes} (h : o.admits value.length = true) :
    o.admits (o.canonical value).length = true := by
  have hb := length_le_of_admits h
  have hl := o.length_canonical_le value
  by_cases hu : o.format = .uint
  · have hm := (maxLength_uint hu).1
    simp only [admits, hm, Bool.and_eq_true, decide_eq_true_eq]
    omega
  · rw [canonical, if_neg hu]
    exact h

theorem select_sublist (o : KnownOption) (values : List Bytes) :
    (o.select values).Sublist values := by
  unfold select
  split
  next => exact List.take_sublist _ _
  next =>
    split
    next => exact List.Sublist.refl _
    next =>
      cases hl : values.getLast? with
      | none => exact List.nil_sublist _
      | some v => exact List.singleton_sublist.mpr (List.mem_of_getLast? hl)

/-- What has been selected can be selected again together with what comes later. -/
theorem select_append (o : KnownOption) (values later : List Bytes) :
    o.select (o.select values ++ later) = o.select (values ++ later) := by
  unfold select
  split
  next =>
    rw [List.take_append, List.take_append, List.take_take, Nat.min_self, List.length_take,
      show maxAccept - min maxAccept values.length = maxAccept - values.length by omega]
  next =>
    split
    next => rfl
    next => cases h : values.getLast? <;> simp [List.getLast?_append, List.getLast?_cons, h]

theorem select_concat_ne_nil (o : KnownOption) (values : List Bytes) (v : Bytes) :
    o.select (values ++ [v]) ≠ [] := by
  unfold select
  split
  next => simp [maxAccept]
  next => split <;> simp

theorem select_unset_append (o : KnownOption) {values : List Bytes} (h : values ≠ []) :
    o.select (o.unset ++ values) = o.select values := by
  unfold unset
  by_cases hr : o.repeatable = true
  · rw [if_pos hr, List.nil_append]
  · have ha : o ≠ .accept := by rintro rfl; exact hr rfl
    rw [if_neg hr, select, select, if_neg ha, if_neg ha, if_neg hr, if_neg hr, List.getLast?_append,
      List.getLast?_eq_some_getLast h]
    rfl

theorem select_map (o : KnownOption) (values : List Bytes) (f : Bytes → Bytes) :
    o.select (values.map f) = (o.select values).map f := by
  unfold select
  split
  next => exact List.map_take.symm
  next =>
    split
    next => rfl
    next => cases h : values.getLast? <;> simp [h]

end KnownOption

namespace Message

/-- Puts a value into the slot of an option: a list takes it at its end, if it has room. -/
def store (m : Message) (value : Bytes) : KnownOption → Message
  | .ifMatch => { m with ifMatch := value }
  | .uriHost => { m with uriHost := .borrowed value }
  | .etag => { m with etag := value }
  | .ifNoneMatch => m
  | .observe => { m with observe := uintOf value }
  | .uriPort => { m with uriPort := (uintOf value).toUInt16 }
  | .locationPath => { m with locationPath := m.locationPath ++ [.borrowed value] }
  | .uriPath => { m with uriPath := m.uriPath ++ [.borrowed value] }
  | .contentType => { m with contentType := (uintOf value).toUInt16 }
  | .maxAge => { m with maxAge := uintOf value }
  | .uriQuery => { m with uriQuery := m.uriQuery ++ [.borrowed value] }
  | .accept =>
    if m.accept.length < maxAccept then { m with accept := m.accept ++ [(uintOf value).toUInt16] }
    else m
  | .locationQuery => { m with locationQuery := m.locationQuery ++ [.borrowed value] }
  | .block2 => { m with block2 := ⟨uintOf value⟩ }
  | .block1 => { m with block1 := ⟨uintOf value⟩ }
  | .size => { m with bodySize := uintOf value }
  | .proxyUri => { m with proxyUri := .borrowed value }

/-- Puts a value into the slot of an option, which is then present. -/
def put (m : Message) (o : KnownOption) (value : Bytes) : Message := (m.store value o).mark o true

/-- Takes one option in; an unknown one changes nothing. -/
def absorb (m : Message) (w : WireOption) : Message :=
  match KnownOption.ofNumber? w.number with
  | none => m
  | some o => m.put o w.value

theorem has_mark (m : Message) (o p : KnownOption) (set : Bool) :
    (m.mark o set).has p = if p = o then set else m.has p := by
  cases set
  · simp only [has, mark, Bool.false_eq_true, if_false, OptionSet.contains_erase]
    by_cases h : p = o <;> simp [h]
  · simp only [has, mark, if_true, OptionSet.contains_insert]
    by_cases h : p = o <;> simp [h]

theorem values_mark (m : Message) (o p : KnownOption) (set : Bool) :
    (m.mark o set).values p = m.values p := by
  cases p <;> rfl

theorem present_store (m : Message) (value : Bytes) (o : KnownOption) :
    (m.store value o).present = m.present := by
  cases o <;> try rfl
  simp only [store]
  split <;> rfl

theorem has_put (m : Message) (o p : KnownOption) (value : Bytes) :
    (m.put o value).has p = if p = o then true else m.has p := by
  rw [put, has_mark, has, has, present_store]

theorem values_store_of_ne {m : Message} {o p : KnownOption} (value : Bytes) (h : p ≠ o) :
    (m.store value o).values p = m.values p := by
  cases o <;> cases p <;> first | rfl | exact absurd rfl h | (simp only [store]; split <;> rfl)

theorem uintOf_minimal (n : UInt32) : uintOf (BigEndian.minimal n) = n := by
  rw [uintOf, BigEndian.value_minimal, UInt32.ofNat_toNat]

theorem minimal_uintOf {value : Bytes} (h : value.length ≤ 4) :
    BigEndian.minimal (uintOf value) = value.dropWhile (· == 0) :=
  BigEndian.minimal_value h

theorem uintOf_toUInt16 {value : Bytes} (h : value.length ≤ 2) :
    (uintOf value).toUInt16.toUInt32 = uintOf value := by
  have hlt := BigEndian.value_lt value
  have hw : BigEndian.weight value.length ≤ 65536 := BigEndian.weight_le h
  apply UInt32.toNat_inj.mp
  have hn : (uintOf value).toNat = BigEndian.value value := by
    rw [uintOf, UInt32.toNat_ofNat']
    exact Nat.mod_eq_of_lt (by omega)
  rw [UInt16.toNat_toUInt32, UInt32.toNat_toUInt16, hn]
  exact Nat.mod_eq_of_lt (by omega)

theorem minimal_uintOf_toUInt16 {value : Bytes} (h : value.length ≤ 2) :
    BigEndian.minimal (uintOf value).toUInt16.toUInt32 = value.dropWhile (· == 0) := by
  rw [uintOf_toUInt16 h, minimal_uintOf (by omega)]

theorem values_store_self {m : Message} {o : KnownOption} {value : Bytes}
    (ha : m.accept.length ≤ maxAccept) (hv : o.admits value.length = true) :
    (m.store value o).values o = o.select (m.values o ++ [o.canonical value]) := by
  have hb := (KnownOption.length_le_of_admits hv).2
  cases o
  case accept =>
    have hc : KnownOption.accept.canonical value = value.dropWhile (· == 0) := rfl
    simp only [store, values, KnownOption.select, if_true, hc]
    split
    next hl =>
      rw [List.take_of_length_le (by simp; omega), List.map_append, List.map_singleton,
        minimal_uintOf_toUInt16 hb]
    next hl =>
      rw [List.take_append_of_le_length (by simp; omega), List.take_of_length_le (by simp; omega)]
  case ifNoneMatch =>
    have he : value = [] := List.length_eq_zero_iff.mp (by simpa [KnownOption.maxLength] using hb)
    subst he
    rfl
  case uriPort => exact congrArg (fun v => [v]) (minimal_uintOf_toUInt16 hb)
  case contentType => exact congrArg (fun v => [v]) (minimal_uintOf_toUInt16 hb)
  case observe => exact congrArg (fun v => [v]) (minimal_uintOf (Nat.le_trans hb (by decide)))
  case maxAge => exact congrArg (fun v => [v]) (minimal_uintOf (Nat.le_trans hb (by decide)))
  case block1 => exact congrArg (fun v => [v]) (minimal_uintOf (Nat.le_trans hb (by decide)))
  case block2 => exact congrArg (fun v => [v]) (minimal_uintOf (Nat.le_trans hb (by decide)))
  case size => exact congrArg (fun v => [v]) (minimal_uintOf (Nat.le_trans hb (by decide)))
  case locationPath => exact List.map_append
  case uriPath => exact List.map_append
  case uriQuery => exact List.map_append
  case locationQuery => exact List.map_append
  all_goals rfl

theorem values_new (type : MessageType) (code : Code) (id : UInt16) (o : KnownOption) :
    (new type code id).values o = o.unset := by
  have hz : BigEndian.minimal 0 = [] := by decide
  cases o <;>
    simp [values, new, KnownOption.unset, KnownOption.repeatable, hz, Segment.empty, Segment.bytes]

theorem select_values {m : Message} (ha : m.accept.length ≤ maxAccept) (o : KnownOption) :
    o.select (m.values o) = m.values o := by
  cases o
  case accept => exact List.take_of_length_le (by simpa [values] using ha)
  all_goals rfl

theorem accept_store_length {m : Message} (ha : m.accept.length ≤ maxAccept) (o : KnownOption)
    (value : Bytes) : (m.store value o).accept.length ≤ maxAccept := by
  cases o
  case accept =>
    simp only [store]
    split
    next hl => simp; omega
    next => exact ha
  all_goals exact ha

theorem values_put {m : Message} {o : KnownOption} {value : Bytes}
    (ha : m.accept.length ≤ maxAccept) (hv : o.admits value.length = true) (p : KnownOption) :
    (m.put o value).values p =
      if p = o then o.select (m.values o ++ [o.canonical value]) else m.values p := by
  rw [put, values_mark]
  split
  next h => subst h; exact values_store_self ha hv
  next h => exact values_store_of_ne value h

/-- A message that has only its header and a token. -/
def bare (type : MessageType) (code : Code) (id : UInt16) (token : Token) : Message :=
  { new type code id with token }

theorem has_bare (type : MessageType) (code : Code) (id : UInt16) (token : Token)
    (k : KnownOption) : (bare type code id token).has k = false := OptionSet.contains_empty k

theorem values_bare (type : MessageType) (code : Code) (id : UInt16) (token : Token)
    (k : KnownOption) : (bare type code id token).values k = k.unset := values_new type code id k

theorem accept_bare_le (type : MessageType) (code : Code) (id : UInt16) (token : Token) :
    (bare type code id token).accept.length ≤ maxAccept := Nat.zero_le _

theorem valuesOf_append (os later : List WireOption) (o : KnownOption) :
    valuesOf (os ++ later) o = valuesOf os o ++ valuesOf later o := by
  simp [valuesOf]

theorem valuesOf_singleton (w : WireOption) (o : KnownOption) :
    valuesOf [w] o = if w.number = o.number then [w.value] else [] := by
  by_cases h : w.number = o.number <;> simp [valuesOf, h]

theorem lastOf_concat (os : List WireOption) (w : WireOption) (o : KnownOption) :
    lastOf (os ++ [w]) o = if w.number = o.number then w.value else lastOf os o := by
  rw [lastOf, valuesOf_append, valuesOf_singleton]
  split
  next => simp
  next => rw [List.append_nil, lastOf]

theorem take_concat {α : Type} (n : Nat) (l : List α) (a : α) :
    (l ++ [a]).take n = if (l.take n).length < n then l.take n ++ [a] else l.take n := by
  rw [List.length_take]
  split
  next h =>
    rw [List.take_of_length_le (by simp; omega), List.take_of_length_le (by omega)]
  next h => exact List.take_append_of_le_length (by omega)

theorem absorb_of_number {w : WireOption} {o : KnownOption} (h : w.number = o.number)
    (m : Message) : m.absorb w = m.put o w.value := by
  rw [absorb, h, KnownOption.ofNumber?_number]

theorem absorb_of_unknown {w : WireOption} (h : ∀ o : KnownOption, o.number ≠ w.number)
    (m : Message) : m.absorb w = m := by
  rw [absorb, KnownOption.ofNumber?_eq_none.mpr h]

theorem withOptions_concat (m : Message) (os : List WireOption) (w : WireOption) :
    m.withOptions (os ++ [w]) = (m.withOptions os).absorb w := by
  by_cases hu : ∀ o : KnownOption, o.number ≠ w.number
  · have hn (o : KnownOption) : ¬w.number = o.number := fun h => hu o h.symm
    rw [absorb_of_unknown hu]
    simp [withOptions, lastOf_concat, valuesOf_append, valuesOf_singleton, hn,
      KnownOption.ofNumber?_eq_none.mpr hu]
  · obtain ⟨o, ho⟩ := Classical.not_forall.mp hu
    have hw : w.number = o.number := (Classical.not_not.mp ho).symm
    rw [absorb_of_number hw]
    simp only [withOptions, lastOf_concat, valuesOf_append, valuesOf_singleton, hw,
      KnownOption.number_inj, List.filterMap_append, List.foldl_append]
    cases o
    case accept =>
      by_cases hl : ((valuesOf os .accept).take maxAccept).length < maxAccept <;>
        simp [put, store, mark, hw, KnownOption.ofNumber?_number, take_concat, -List.length_take,
          -List.map_take, hl]
    all_goals simp [put, store, mark, hw, KnownOption.ofNumber?_number]

theorem withOptions_append (m : Message) (os later : List WireOption) :
    m.withOptions (os ++ later) = later.foldl absorb (m.withOptions os) := by
  induction later generalizing os with
  | nil => rw [List.append_nil, List.foldl_nil]
  | cons w later ih => rw [List.append_cons, ih, withOptions_concat, List.foldl_cons]

/-- The slots that are read off all options at once are those that one option after the other
leaves. -/
theorem withOptions_eq_foldl (type : MessageType) (code : Code) (id : UInt16) (token : Token)
    (os : List WireOption) :
    (bare type code id token).withOptions os = os.foldl absorb (bare type code id token) := by
  have h := withOptions_append (bare type code id token) [] os
  rw [List.nil_append] at h
  rw [h]
  rfl

theorem accept_put_length {m : Message} (ha : m.accept.length ≤ maxAccept) (o : KnownOption)
    (value : Bytes) : (m.put o value).accept.length ≤ maxAccept :=
  accept_store_length ha o value

theorem known_or_unknown (w : WireOption) :
    (∃ o : KnownOption, w.number = o.number) ∨ ∀ o : KnownOption, o.number ≠ w.number := by
  cases h : KnownOption.ofNumber? w.number with
  | none => exact Or.inr (KnownOption.ofNumber?_eq_none.mp h)
  | some o => exact Or.inl ⟨o, (KnownOption.ofNumber?_eq_some.mp h).symm⟩

theorem admits_of_defect {w : WireOption} {o : KnownOption} (h : w.defect? = none)
    (hw : w.number = o.number) : o.admits w.value.length = true := by
  rw [WireOption.defect?, hw, KnownOption.ofNumber?_number] at h
  simpa using h

theorem has_absorb (m : Message) (w : WireOption) (o : KnownOption) :
    (m.absorb w).has o = if w.number = o.number then true else m.has o := by
  rcases known_or_unknown w with ⟨p, hp⟩ | hu
  · rw [absorb_of_number hp, has_put, hp]
    simp only [KnownOption.number_inj, eq_comm]
  · rw [absorb_of_unknown hu, if_neg fun h => hu o h.symm]

theorem has_foldl_absorb (os : List WireOption) (m : Message) (o : KnownOption) :
    (os.foldl absorb m).has o = true ↔ m.has o = true ∨ ∃ w ∈ os, w.number = o.number := by
  induction os generalizing m with
  | nil => simp
  | cons w os ih =>
    rw [List.foldl_cons, ih, has_absorb]
    by_cases h : w.number = o.number <;> simp [h]

theorem values_absorb {m : Message} {w : WireOption} (ha : m.accept.length ≤ maxAccept)
    (hd : w.defect? = none) (o : KnownOption) :
    (m.absorb w).values o = o.select (m.values o ++ (valuesOf [w] o).map o.canonical) := by
  rw [valuesOf_singleton]
  rcases known_or_unknown w with ⟨p, hp⟩ | hu
  · rw [absorb_of_number hp, values_put ha (admits_of_defect hd hp), hp]
    by_cases ho : o = p
    · subst ho
      simp
    · rw [if_neg ho, if_neg fun h => ho (KnownOption.number_inj.mp h).symm, List.map_nil,
        List.append_nil, select_values ha]
  · rw [absorb_of_unknown hu, if_neg fun h => hu o h.symm, List.map_nil, List.append_nil,
      select_values ha]

theorem accept_absorb_length {m : Message} (ha : m.accept.length ≤ maxAccept) (w : WireOption) :
    (m.absorb w).accept.length ≤ maxAccept := by
  rcases known_or_unknown w with ⟨p, hp⟩ | hu
  · rw [absorb_of_number hp]
    exact accept_put_length ha p w.value
  · rw [absorb_of_unknown hu]
    exact ha

/-- The slot of an option after a series of options: the values it had and those that came, in
canonical form, as far as it holds them. -/
theorem values_foldl_absorb {m : Message} {os : List WireOption} (ha : m.accept.length ≤ maxAccept)
    (hd : ∀ w ∈ os, w.defect? = none) (o : KnownOption) :
    (os.foldl absorb m).values o = o.select (m.values o ++ (valuesOf os o).map o.canonical) := by
  induction os generalizing m with
  | nil => simp [valuesOf, select_values ha]
  | cons w os ih =>
    have hw := hd w (by simp)
    have ht : ∀ v ∈ os, v.defect? = none := fun v hv => hd v (List.mem_cons_of_mem w hv)
    rw [List.foldl_cons, ih (accept_absorb_length ha w) ht, values_absorb ha hw,
      KnownOption.select_append, List.append_assoc, ← List.map_append,
      ← valuesOf_append, List.singleton_append]

end Message

end Coap
