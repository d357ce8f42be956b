import Coap.Proofs.MessageLayout

namespace Coap

/-- A call that writes options of one number: an integer, a value that is cut at a separator if one
is given, or the segments of a list. -/
inductive OptionWrite where
  | uint (number n : UInt32)
  | bytes (number : UInt32) (value : Bytes) (sep : Option UInt8)
  | segments (number : UInt32) (s : Segments)

namespace OptionWrite

def number : OptionWrite → Nat
  | uint number _ | bytes number _ _ | segments number _ => number.toNat

/-- The values that a call is to write, in order. -/
def values : OptionWrite → List Bytes
  | uint _ n => [BigEndian.minimal n]
  | bytes _ value none => [value]
  | bytes _ value (some sep) => (Segments.split value sep).map Segment.bytes
  | segments _ s => s.map Segment.bytes

/-- The options that a call makes of what it is given. -/
def options : OptionWrite → List WireOption
  | uint number n => [.ofUint number.toNat n]
  | bytes number value sep => WireOption.ofBytes number.toNat value sep
  | segments number s => WireOption.ofSegments number.toNat s

/-- The bytes that a call takes: the first value counts its distance from the option before, the
others have none. -/
def size (prev : Nat) (w : OptionWrite) : Nat :=
  match w.values with
  | [] => 0
  | v :: vs => WireOption.size (w.number - prev) v.length +
      vs.foldr (fun u n => WireOption.size 0 u.length + n) 0

def write (prev : Nat) (w : OptionWrite) (room : Bytes) : Written :=
  WireOption.writeAll prev w.options room

/-- What calls leave that are made one after the other, each with the number of the one before it
and in the room behind it. -/
def writeEach (prev : Nat) : List OptionWrite → Bytes → List Written
  | [], _ => []
  | w :: ws, room => w.write prev room :: writeEach w.number ws (w.write prev room).room

theorem number_le (w : OptionWrite) : w.number ≤ maxOptionNumber := by
  have hle (n : UInt32) : n.toNat ≤ maxOptionNumber := Nat.le_sub_one_of_lt n.toNat_lt
  cases w with
  | uint number | bytes number | segments number => exact hle number

theorem options_eq (w : OptionWrite) : w.options = w.values.map (WireOption.mk w.number) := by
  cases w with
  | uint => rfl
  | bytes number value sep =>
    cases sep with
    | none => rfl
    | some sep =>
      rw [values, Segments.map_bytes_split]
      rfl
  | segments number s =>
    rw [values, List.map_map]
    rfl

end OptionWrite

namespace WireOption

/-- Options of one number after each other need no distance, so that only their lengths count. -/
theorem exists_series_same_iff {number : Nat} (hn : number ≤ maxOptionNumber)
    {values : List Bytes} : (∃ bytes, Series number (values.map (WireOption.mk number)) bytes) ↔
      ∀ v ∈ values, v.length ≤ maxField := by
  induction values with
  | nil => exact ⟨fun _ => nofun, fun _ => ⟨[], .nil number⟩⟩
  | cons v values ih =>
    have hdistance : number - number ≤ maxField := by omega
    rw [List.map_cons, exists_series_cons_iff, exists_tlv_iff hn, ih, List.forall_mem_cons]
    simp only [Nat.le_refl, hdistance, true_and]

theorem sizes_same_number (number : Nat) (values : List Bytes) :
    sizes number (outline (values.map (WireOption.mk number))) =
      values.foldr (fun v n => size 0 v.length + n) 0 := by
  induction values with
  | nil => rfl
  | cons v values ih =>
    change size (number - number) v.length + sizes number (outline _) = _
    rw [ih, Nat.sub_self]
    rfl

end WireOption

namespace OptionWrite

theorem number_le_of_mem {w : OptionWrite} {o : WireOption}
    (h : o ∈ w.values.map (WireOption.mk w.number)) : o.number ≤ maxOptionNumber := by
  obtain ⟨v, _, rfl⟩ := List.mem_map.mp h
  exact w.number_le

theorem series_of_write {prev : Nat} {w : OptionWrite} {room : Bytes}
    (h : (w.write prev room).fault = none) :
    WireOption.Series prev (w.values.map (WireOption.mk w.number)) (w.write prev room).bytes := by
  rw [write, options_eq] at h ⊢
  exact WireOption.series_of_writeAll (fun _ => number_le_of_mem) h

theorem length_series {prev : Nat} {w : OptionWrite} {bytes : Bytes}
    (h : WireOption.Series prev (w.values.map (WireOption.mk w.number)) bytes) :
    bytes.length = w.size prev := by
  have hlen := h.length_eq
  unfold size
  cases hv : w.values with
  | nil =>
    rw [hv] at hlen
    exact hlen
  | cons v vs =>
    rw [hv] at hlen
    dsimp only
    rw [hlen, ← WireOption.sizes_same_number w.number vs]
    rfl

/-- A call succeeds exactly if its number is not below the one before, the distance and all lengths
can be expressed, and the buffer has room for all of it. -/
theorem write_done_iff {prev : Nat} {w : OptionWrite} {room : Bytes} :
    (w.write prev room).fault = none ↔
      (w.values ≠ [] → prev ≤ w.number ∧ w.number - prev ≤ maxField) ∧
      (∀ v ∈ w.values, v.length ≤ maxField) ∧ w.size prev ≤ room.length := by
  have hexists : (∃ bytes, WireOption.Series prev (w.values.map (WireOption.mk w.number)) bytes) ↔
      (w.values ≠ [] → prev ≤ w.number ∧ w.number - prev ≤ maxField) ∧
      ∀ v ∈ w.values, v.length ≤ maxField := by
    cases w.values with
    | nil => exact ⟨fun _ => ⟨nofun, nofun⟩, fun _ => ⟨[], .nil prev⟩⟩
    | cons v vs =>
      have hn := w.number_le
      rw [List.map_cons, WireOption.exists_series_cons_iff, WireOption.exists_tlv_iff hn,
        WireOption.exists_series_same_iff hn, List.forall_mem_cons]
      simp only [ne_eq, reduceCtorEq, not_false_eq_true, true_imp_iff, and_assoc]
  rw [write, options_eq, WireOption.writeAll_done_iff fun _ => number_le_of_mem, ← and_assoc,
    ← hexists]
  constructor
  · rintro ⟨bytes, hs, hroom⟩
    exact ⟨⟨bytes, hs⟩, length_series hs ▸ hroom⟩
  · rintro ⟨⟨bytes, hs⟩, hroom⟩
    exact ⟨bytes, hs, (length_series hs).symm ▸ hroom⟩

/-- The bytes of calls that write something each are one series, since what follows a call counts
from the number that it has written last. -/
theorem series_of_writeEach {prev : Nat} {ws : List OptionWrite} {room : Bytes}
    (hne : ∀ w ∈ ws, w.values ≠ []) (h : ∀ r ∈ writeEach prev ws room, r.fault = none) :
    WireOption.Series prev (ws.flatMap fun w => w.values.map (WireOption.mk w.number))
      ((writeEach prev ws room).flatMap Written.bytes) := by
  induction ws generalizing prev room with
  | nil => exact .nil prev
  | cons w ws ih =>
    obtain ⟨hfirst, hrest⟩ := List.forall_mem_cons.mp h
    obtain ⟨hw, hws⟩ := List.forall_mem_cons.mp hne
    have hlast := Message.lastNumber_values hw prev w.number
    refine (series_of_write hfirst).append ?_
    rw [hlast]
    exact ih hws hrest

/-- Reading undoes writing over a whole stream: calls that are made one after the other, that all
succeed and that write something each leave bytes from which exactly their options are read, in
order and to the end. A call succeeds exactly if its options have a form and there is room for it,
and takes the room that the sizes of its options say. And cutting a value while it is written is the
same, fault and bytes included, as writing the segments that it is cut into. -/
theorem walk_undoes_writes :
    (∀ (prev : Nat) (ws : List OptionWrite) (room : Bytes),
      (∀ r ∈ writeEach prev ws room, r.fault = none) → (∀ w ∈ ws, w.values ≠ []) →
      WireOption.walk prev ((writeEach prev ws room).flatMap Written.bytes) =
        ⟨ws.flatMap fun w => w.values.map (WireOption.mk w.number), [], none⟩) ∧
    (∀ (prev : Nat) (w : OptionWrite) (room : Bytes),
      ((w.write prev room).fault = none ↔
        (w.values ≠ [] → prev ≤ w.number ∧ w.number - prev ≤ maxField) ∧
        (∀ v ∈ w.values, v.length ≤ maxField) ∧ w.size prev ≤ room.length) ∧
      ((w.write prev room).fault = none → (w.write prev room).bytes.length = w.size prev)) ∧
    ∀ (prev : Nat) (number : UInt32) (value : Bytes) (sep : UInt8) (room : Bytes),
      (bytes number value (some sep)).write prev room =
        (segments number (Segments.split value sep)).write prev room := by
  refine ⟨?_, ?_, ?_⟩
  · intro prev ws room h hne
    have hs := series_of_writeEach hne h
    have hwalk := hs.walk_stops (.inl rfl)
    rw [List.append_nil] at hwalk
    exact hwalk
  · intro prev w room
    exact ⟨write_done_iff, fun h => length_series (series_of_write h)⟩
  · intro prev number value sep room
    have hsame : (bytes number value (some sep)).options =
        (segments number (Segments.split value sep)).options := by
      rw [options_eq, options_eq]
      rfl
    rw [write, write, hsame]

/-- Two path segments and then a port, in a buffer with one byte too many. -/
theorem walk_undoes_writes_path :
    let path : OptionWrite := .bytes 11 [0x61, 0x2F, 0x62] (some 0x2F)
    WireOption.walk 0 [0xB1, 0x61, 0x01, 0x62, 0x11, 0x32] =
      ⟨[⟨11, [0x61]⟩, ⟨11, [0x62]⟩, ⟨12, [0x32]⟩], [], none⟩ ∧
    (path.write 0 (List.replicate 7 0)).bytes.length = 4 ∧
    (path.write 12 (List.replicate 7 0)).fault ≠ none := by
  intro path
  let room : Bytes := List.replicate 7 0
  obtain ⟨hwalk, hcall, _⟩ := walk_undoes_writes
  have hdone : ∀ r ∈ writeEach 0 [path, .uint 12 50] room, r.fault = none := by decide
  have hbytes : (writeEach 0 [path, .uint 12 50] room).flatMap Written.bytes =
      [0xB1, 0x61, 0x01, 0x62, 0x11, 0x32] := by decide
  have hread := hwalk 0 [path, .uint 12 50] room hdone (by decide)
  rw [hbytes] at hread
  obtain ⟨_, hsize⟩ := hcall 0 path room
  obtain ⟨hiff, _⟩ := hcall 12 path room
  refine ⟨hread, hsize (by decide), fun h => ?_⟩
  obtain ⟨horder, _, _⟩ := hiff.mp h
  exact absurd (horder (by decide)).1 (by decide)

end OptionWrite

end Coap
