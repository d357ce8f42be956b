import Coap.Engine.Transaction
import Coap.Proofs.OptionSeries

namespace Coap

namespace Message

theorem length_writeSlots (m : Message) (prev : Nat) (ks : List KnownOption) (room : Bytes) :
    (m.writeSlots prev ks room).buffer.length = room.length := by
  induction ks generalizing prev room with
  | nil => rfl
  | cons k ks ih =>
    rw [writeSlots, Written.length_andThen (ih k.number _), WireOption.length_writeAll]

/-- A write keeps the length of the buffer, however far it gets. -/
theorem length_writeTo (m : Message) (buffer : Bytes) :
    (m.writeTo buffer).buffer.length = buffer.length := by
  unfold writeTo
  split
  next => rfl
  next =>
    split
    next => rfl
    next =>
      split
      next => rfl
      next =>
        rw [Written.length_andThen, Written.length_put]
        rw [Written.length_andThen (Written.length_put _ _), length_writeSlots]

/-- What is written completely has a header. -/
theorem four_le_of_writeTo {m : Message} {buffer : Bytes} (h : (m.writeTo buffer).fault = none) :
    4 ≤ (m.writeTo buffer).bytes.length := by
  unfold writeTo at h ⊢
  split at h
  next => cases h
  next hc =>
    rw [if_neg hc]
    split at h
    next => cases h
    next hl =>
      rw [if_neg hl]
      split at h
      next => cases h
      next hb =>
        rw [if_neg hb]
        have hput := Written.length_of_put (Written.fault_of_andThen h)
        have hle := Written.length_le_andThen (Written.put (m.header ++ m.token.bytes) buffer)
          fun room => (m.writeSlots 0 m.present.toList room).andThen (Written.put m.trailer)
        have hheader : m.header.length = 4 := rfl
        rw [List.length_append] at hput
        omega

end Message

/-- A datagram that fits a packet and carries an id where the header has it. -/
structure Labelled (id : UInt16) (wire : Bytes) : Prop where
  header : 4 ≤ wire.length
  packet : wire.length ≤ maxPacketSize
  label : (wire.drop 2).take 2 = BigEndian.pair id

theorem Labelled.ne_nil {id : UInt16} {wire : Bytes} (h : Labelled id wire) : wire ≠ [] := by
  rintro rfl
  exact absurd h.header (by decide)

namespace Transaction

theorem length_relabel (id : UInt16) {wire : Bytes} (h : 4 ≤ wire.length) :
    (relabel id wire).length = wire.length := by
  rw [relabel, List.length_append, List.length_append, List.length_take, List.length_drop,
    BigEndian.pair, List.length_cons, List.length_cons, List.length_nil]
  omega

theorem labelled_relabel (id : UInt16) {wire : Bytes} (hh : 4 ≤ wire.length)
    (hp : wire.length ≤ maxPacketSize) : Labelled id (relabel id wire) := by
  have hlength := length_relabel id hh
  have htake : (wire.take 2).length = 2 := by
    rw [List.length_take]
    omega
  refine ⟨hlength ▸ hh, hlength ▸ hp, ?_⟩
  rw [relabel, List.append_assoc, List.drop_left' htake]
  exact List.take_left' rfl

/-- The datagram of a message that is taken fits a packet and carries the id of the transaction. -/
theorem labelled_of_writeTo {m : Message} (id : UInt16)
    (h : (m.writeTo (List.replicate maxPacketSize 0)).fault = none) :
    Labelled id (relabel id (m.writeTo (List.replicate maxPacketSize 0)).bytes) := by
  have hlength := m.length_writeTo (List.replicate maxPacketSize 0)
  rw [Written.length_buffer, List.length_replicate] at hlength
  exact labelled_relabel id (Message.four_le_of_writeTo h) (by omega)

end Transaction

end Coap
