import Coap.Proofs.OptionGrammar
import Coap.Proofs.Written

namespace Coap.WireOption

/-- The bytes of consecutive options, the first one after option number `prev`. -/
inductive Series : Nat → List WireOption → Bytes → Prop
  | nil (prev : Nat) : Series prev [] []
  | cons {prev : Nat} {o : WireOption} {os : List WireOption} {bytes tail : Bytes}
      (ho : Tlv prev o bytes) (hs : Series o.number os tail) : Series prev (o :: os) (bytes ++ tail)

/-- The number that an option after some others counts from. -/
def lastNumber (prev : Nat) (os : List WireOption) : Nat := os.foldl (fun _ o => o.number) prev

theorem lastNumber_cons (prev : Nat) (o : WireOption) (os : List WireOption) :
    lastNumber prev (o :: os) = lastNumber o.number os := rfl

theorem walk_of_some {prev : Nat} {src rest : Bytes} {o : WireOption}
    (h : read prev src = .ok (some (o, rest))) :
    walk prev src = { walk o.number rest with options := o :: (walk o.number rest).options } := by
  rw [walk.eq_def]
  split
  next hr => rw [h] at hr; cases hr
  next hr => rw [h] at hr; cases hr
  next hr => rw [h] at hr; cases hr; rfl

theorem Stops.walk {src : Bytes} (h : Stops src) (prev : Nat) :
    walk prev src = ⟨[], src, none⟩ := by
  have hn := h.read prev
  rw [walk.eq_def]
  split
  next => rfl
  next hr => rw [hn] at hr; cases hr
  next hr => rw [hn] at hr; cases hr

theorem Broken.walk {prev : Nat} {src : Bytes} {e : OptionError} (h : Broken prev src e) :
    walk prev src = ⟨[], src, some e⟩ := by
  have hn := h.read
  rw [walk.eq_def]
  split
  next hr => rw [hn] at hr; cases hr
  next hr => rw [hn] at hr; cases hr; rfl
  next hr => rw [hn] at hr; cases hr

theorem Series.walk_append {prev : Nat} {os : List WireOption} {bytes : Bytes}
    (h : Series prev os bytes) (rest : Bytes) :
    walk prev (bytes ++ rest) = { walk (lastNumber prev os) rest with
      options := os ++ (walk (lastNumber prev os) rest).options } := by
  induction h with
  | nil prev => rfl
  | cons ho hs ih =>
    rw [List.append_assoc, walk_of_some (ho.read _), ih, lastNumber_cons]
    rfl

theorem Series.walk_stops {prev : Nat} {os : List WireOption} {bytes rest : Bytes}
    (h : Series prev os bytes) (hr : Stops rest) :
    walk prev (bytes ++ rest) = ⟨os, rest, none⟩ := by
  rw [h.walk_append, hr.walk, List.append_nil]

/-- A walk loses no byte: what it has read is a series, and it stops where the options end or at a
defect. -/
theorem exists_series_walk (prev : Nat) (src : Bytes) :
    ∃ bytes, Series prev (walk prev src).options bytes ∧ src = bytes ++ (walk prev src).rest ∧
      (Stops (walk prev src).rest ∨
        ∃ e, Broken (lastNumber prev (walk prev src).options) (walk prev src).rest e) := by
  -- on the length: what follows an option is no subterm of the bytes before it
  induction hl : src.length using Nat.strongRecOn generalizing prev src with
  | ind n ih =>
    rcases stops_or_tlv_or_broken prev src with hs | ⟨o, bytes, rest, ht, rfl⟩ | ⟨e, hb⟩
    · rw [hs.walk]
      exact ⟨[], .nil prev, rfl, Or.inl hs⟩
    · have hr := ht.read rest
      have hlt := read_length_lt hr
      obtain ⟨tail, hs, he, hd⟩ := ih rest.length (by omega) o.number rest rfl
      rw [walk_of_some hr]
      refine ⟨bytes ++ tail, .cons ht hs, ?_, hd⟩
      rw [List.append_assoc, ← he]
    · rw [hb.walk]
      exact ⟨[], .nil prev, rfl, Or.inr ⟨e, hb⟩⟩

theorem Series.unique {prev : Nat} {os : List WireOption} {bytes bytes' : Bytes}
    (h : Series prev os bytes) (h' : Series prev os bytes') : bytes = bytes' := by
  induction h generalizing bytes' with
  | nil => cases h'; rfl
  | cons ho _ ih =>
    cases h' with
    | cons ho' hs' => rw [ho.unique ho', ih hs']

theorem Series.options_unique {prev : Nat} {os os' : List WireOption}
    {bytes bytes' rest rest' : Bytes} (h : Series prev os bytes) (h' : Series prev os' bytes')
    (hr : Stops rest) (hr' : Stops rest') (he : bytes ++ rest = bytes' ++ rest') :
    os = os' ∧ rest = rest' := by
  have hw := h.walk_stops hr
  rw [he, h'.walk_stops hr'] at hw
  cases hw
  exact ⟨rfl, rfl⟩

theorem Series.ascending {prev : Nat} {os : List WireOption} {bytes : Bytes}
    (h : Series prev os bytes) :
    (∀ o ∈ os, prev ≤ o.number) ∧ os.Pairwise fun o p => o.number ≤ p.number := by
  induction h with
  | nil => simp
  | cons ho _ ih =>
    have hp := ho.le_number
    refine ⟨?_, List.pairwise_cons.mpr ⟨ih.1, ih.2⟩⟩
    intro p hm
    rcases List.mem_cons.mp hm with rfl | hm
    · exact hp
    · exact Nat.le_trans hp (ih.1 p hm)

theorem Series.append {prev : Nat} {os later : List WireOption} {bytes tail : Bytes}
    (h : Series prev os bytes) (ht : Series (lastNumber prev os) later tail) :
    Series prev (os ++ later) (bytes ++ tail) := by
  induction h with
  | nil => exact ht
  | cons ho _ ih =>
    rw [List.append_assoc]
    exact .cons ho (ih ht)

/-- The number and the length of each option, which is what the sizes depend on. -/
def outline (os : List WireOption) : List (Nat × Nat) := os.map fun o => (o.number, o.value.length)

theorem Series.length_eq {prev : Nat} {os : List WireOption} {bytes : Bytes}
    (h : Series prev os bytes) : bytes.length = sizes prev (outline os) := by
  induction h with
  | nil => rfl
  | cons ho _ ih => rw [List.length_append, ho.length_eq, ih]; rfl

theorem exists_series_cons_iff {prev : Nat} {o : WireOption} {os : List WireOption} :
    (∃ bytes, Series prev (o :: os) bytes) ↔
      (∃ bytes, Tlv prev o bytes) ∧ ∃ bytes, Series o.number os bytes := by
  constructor
  · rintro ⟨_, h⟩
    cases h with
    | cons ho hs => exact ⟨⟨_, ho⟩, _, hs⟩
  · rintro ⟨⟨_, ho⟩, _, hs⟩
    exact ⟨_, .cons ho hs⟩

theorem exists_series {prev : Nat} {os : List WireOption} (hp : ∀ o ∈ os, prev ≤ o.number)
    (hs : os.Pairwise fun o p => o.number ≤ p.number)
    (hb : ∀ o ∈ os, o.number ≤ maxField ∧ o.value.length ≤ maxField) :
    ∃ bytes, Series prev os bytes := by
  induction os generalizing prev with
  | nil => exact ⟨[], .nil prev⟩
  | cons o os ih =>
    have hs' := List.pairwise_cons.mp hs
    have ho := hb o (by simp)
    obtain ⟨bytes, ht⟩ := exists_tlv (hp o (by simp)) ho.1 ho.2
    obtain ⟨tail, hr⟩ := ih hs'.1 hs'.2 fun p hm => hb p (List.mem_cons_of_mem o hm)
    exact ⟨bytes ++ tail, .cons ht hr⟩

theorem Tlv.write {prev : Nat} {o : WireOption} {bytes : Bytes} (h : Tlv prev o bytes)
    {room : Bytes} (hr : bytes.length ≤ room.length) :
    o.write prev room = ⟨bytes, room.drop bytes.length, none⟩ := by
  rw [WireOption.write, (encode_eq_ok_iff h.number_le).mpr h]
  exact Written.put_of_le hr

theorem Series.writeAll {prev : Nat} {os : List WireOption} {bytes : Bytes}
    (h : Series prev os bytes) {room : Bytes} (hr : bytes.length ≤ room.length) :
    writeAll prev os room = ⟨bytes, room.drop bytes.length, none⟩ := by
  induction h generalizing room with
  | nil => rfl
  | @cons prev o os bytes tail ho _ ih =>
    rw [List.length_append] at hr
    have hw : o.write prev room = ⟨bytes, room.drop bytes.length, none⟩ := ho.write (by omega)
    have ht : WireOption.writeAll o.number os (room.drop bytes.length)
        = ⟨tail, (room.drop bytes.length).drop tail.length, none⟩ :=
      ih (by rw [List.length_drop]; omega)
    simp only [WireOption.writeAll, hw, Written.andThen, ht, List.drop_drop, List.length_append]

theorem tlv_of_write {prev : Nat} {o : WireOption} {room : Bytes}
    (hn : o.number ≤ maxOptionNumber) (h : (o.write prev room).fault = none) :
    Tlv prev o (o.write prev room).bytes := by
  unfold write at h ⊢
  cases he : o.encode prev with
  | error e => rw [he] at h; cases h
  | ok bytes =>
    rw [he] at h
    have hput := Written.put_of_done h
    dsimp only
    rw [hput]
    exact (encode_eq_ok_iff hn).mp he

/-- Options that are written without a fault stand in the buffer as a series. -/
theorem series_of_writeAll {prev : Nat} {os : List WireOption} {room : Bytes}
    (hn : ∀ o ∈ os, o.number ≤ maxOptionNumber) (h : (writeAll prev os room).fault = none) :
    Series prev os (writeAll prev os room).bytes := by
  induction os generalizing prev room with
  | nil => exact .nil prev
  | cons o os ih =>
    obtain ⟨ho, hos⟩ := List.forall_mem_cons.mp hn
    rw [writeAll] at h ⊢
    have hfirst := Written.fault_of_andThen h
    rw [Written.andThen_of_done hfirst] at h ⊢
    exact .cons (tlv_of_write ho hfirst) (ih hos h)

theorem length_write (prev : Nat) (o : WireOption) (room : Bytes) :
    (o.write prev room).buffer.length = room.length := by
  unfold write
  split
  next => exact Written.length_put _ room
  next => rfl

theorem length_writeAll (prev : Nat) (os : List WireOption) (room : Bytes) :
    (writeAll prev os room).buffer.length = room.length := by
  induction os generalizing prev room with
  | nil => rfl
  | cons o os ih =>
    rw [writeAll, Written.length_andThen (ih o.number _), length_write]

/-- Options are written without a fault exactly if they have bytes at all and these fit. -/
theorem writeAll_done_iff {prev : Nat} {os : List WireOption} {room : Bytes}
    (hn : ∀ o ∈ os, o.number ≤ maxOptionNumber) : (writeAll prev os room).fault = none ↔
      ∃ bytes, Series prev os bytes ∧ bytes.length ≤ room.length := by
  constructor
  · intro h
    have hlen := length_writeAll prev os room
    rw [Written.length_buffer] at hlen
    exact ⟨_, series_of_writeAll hn h, by omega⟩
  · rintro ⟨bytes, hs, hroom⟩
    rw [hs.writeAll hroom]

end Coap.WireOption
