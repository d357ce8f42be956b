import Coap.Written

namespace Coap.Written

theorem put_of_le {bytes room : Bytes} (h : bytes.length ≤ room.length) :
    put bytes room = ⟨bytes, room.drop bytes.length, none⟩ := by
  rw [put, if_neg (by rw [List.length_take]; omega)]

theorem put_of_done {bytes room : Bytes} (h : (put bytes room).fault = none) :
    put bytes room = ⟨bytes, room.drop bytes.length, none⟩ := by
  unfold put at h ⊢
  split at h
  next => cases h
  next hr => rw [if_neg hr]

theorem andThen_of_done {w : Written} (h : w.fault = none) (next : Bytes → Written) :
    w.andThen next = ⟨w.bytes ++ (next w.room).bytes, (next w.room).room, (next w.room).fault⟩ := by
  rw [andThen, h]

theorem andThen_assoc (w : Written) (f g : Bytes → Written) :
    (w.andThen f).andThen g = w.andThen fun room => (f room).andThen g := by
  obtain ⟨bytes, room, fault⟩ := w
  cases fault with
  | some e => rfl
  | none => cases h : (f room).fault <;> simp [andThen, h]

theorem length_buffer (w : Written) : w.buffer.length = w.bytes.length + w.room.length :=
  List.length_append

theorem length_put (bytes room : Bytes) : (put bytes room).buffer.length = room.length := by
  unfold put
  split
  next => rfl
  next h =>
    rw [List.length_take] at h
    rw [length_buffer]
    dsimp only
    rw [List.length_drop]
    omega

theorem length_andThen {w : Written} {next : Bytes → Written}
    (h : (next w.room).buffer.length = w.room.length) :
    (w.andThen next).buffer.length = w.buffer.length := by
  unfold andThen
  split
  next =>
    rw [length_buffer] at h
    rw [length_buffer, length_buffer]
    dsimp only
    rw [List.length_append]
    omega
  next => rfl

/-- Going on takes back nothing that was written. -/
theorem length_le_andThen (w : Written) (next : Bytes → Written) :
    w.bytes.length ≤ (w.andThen next).bytes.length := by
  unfold andThen
  split
  next =>
    rw [List.length_append]
    omega
  next => exact Nat.le_refl _

theorem fault_of_andThen {w : Written} {next : Bytes → Written}
    (h : (w.andThen next).fault = none) : w.fault = none := by
  unfold andThen at h
  split at h
  next hw => exact hw
  next => exact h

theorem length_of_put {bytes room : Bytes} (h : (put bytes room).fault = none) :
    (put bytes room).bytes.length = bytes.length := by
  rw [put_of_done h]

end Coap.Written
