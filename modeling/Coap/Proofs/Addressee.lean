import Coap.Proofs.LatestMessage

namespace Coap

variable {κ : Type}

/-- The transaction that an operation is for, by its id. -/
def Operation.addressee? : Operation κ → Option UInt16
  | .create id .. | .setMessage id _ | .setContext id _ | .send id .. | .complete id _
  | .clear id => some id
  | .receive datagram _ => (Message.decode datagram).toOption.map (·.id)
  | .poll (some (.datagram bytes claimed _)) buffer =>
    (Message.decode ((fill buffer bytes).take claimed)).toOption.map (·.id)
  | .poll .. | .nextId | .schedule _ | .tick .. => none

namespace Engine

variable {e : Engine κ}

theorem Unique.get?_replace_of_ne (h : e.Unique) {id p : UInt16} {t : Transaction κ}
    (found : e.get? id = some t) {slot : Option (Transaction κ)}
    (hs : ∀ u, slot = some u → u.id = t.id) (hne : id ≠ p) :
    (e.replace id slot).get? p = e.get? p := by
  have hid := (mem_live_of_get? found).2
  rw [h.get?_replace (fun u hu => (hs u hu).trans hid), if_neg (Ne.symm hne)]

theorem Unique.get?_complete_of_ne (h : e.Unique) {id p : UInt16} (hne : id ≠ p)
    (response : Message) : (e.complete id response).engine.get? p = e.get? p := by
  unfold complete
  split
  next => rw [h.get?_remove, if_neg (Ne.symm hne)]
  next => rfl

theorem Unique.get?_receive_of_ne (h : e.Unique) {datagram : Bytes} {sender : Address}
    {p : UInt16} (hne : (Operation.receive datagram sender : Operation κ).addressee? ≠ some p) :
    (e.receive datagram sender).engine.get? p = e.get? p := by
  simp only [Operation.addressee?] at hne
  have hr := e.receipt datagram sender
  generalize e.receive datagram sender = s at hr ⊢
  cases hr with
  | refused | passed => rfl
  | @matched m t read =>
    have hid : p ≠ m.id := by
      rintro rfl
      rw [read] at hne
      exact hne rfl
    rw [h.get?_remove, if_neg hid]

/-- A transaction that a schedule does not report is as it was. -/
theorem Unique.get?_schedule_of_silent (h : e.Unique) {now : Instant} {p : UInt16}
    (silent : ∀ d ∈ (e.schedule now).result, d.event.id ≠ p) :
    (e.schedule now).engine.get? p = e.get? p := by
  rw [h.get?_schedule]
  cases hg : e.get? p with
  | none => rfl
  | some t =>
    obtain ⟨ht, rfl⟩ := mem_live_of_get? hg
    have reported (d : Due) (hd : (visit e.clock now (some t)).due = some d) : False := by
      have hmem : d ∈ (e.schedule now).result := by
        rw [schedule_result]
        exact List.mem_filterMap.mpr ⟨t, ht, hd⟩
      exact silent d hmem (visit_due_id hd)
    rw [Option.bind_some]
    rcases visit_cases e.clock now t with hv | ⟨_, _, _, hv⟩ | ⟨_, _, _, hv⟩
    · rw [hv]
    · exact (reported _ (congrArg Visit.due hv)).elim
    · exact (reported _ (congrArg Visit.due hv)).elim

/-- An operation changes at most the transaction that it is for and those that it says are due. -/
theorem Unique.get?_apply_of_ne (h : e.Unique) {o : Operation κ} {p : UInt16}
    (other : o.addressee? ≠ some p) (silent : ∀ d ∈ o.due (e.apply o).result, d.event.id ≠ p) :
    (e.apply o).engine.get? p = e.get? p := by
  have hne {id : UInt16} (hid : (some id : Option UInt16) ≠ some p) : id ≠ p :=
    fun he => hid (congrArg some he)
  cases o with
  | nextId =>
    simp only [apply, nextId]
    split <;> rfl
  | create id peer context observer =>
    rcases e.get?_create id peer context observer p with ⟨_, _, hengine⟩ | ⟨_, hget⟩
    · exact congrArg (fun e => e.get? p) hengine
    · exact hget.trans (if_neg (hne other))
  | setMessage id m =>
    simp only [apply, setMessage]
    split
    next => rfl
    next t found =>
      split
      next => rfl
      next t' taken =>
        refine h.get?_replace_of_ne found ?_ (hne other)
        rintro _ ⟨rfl⟩
        rw [(Transaction.eq_of_setMessage taken).2]
  | setContext id context =>
    simp only [apply, setContext]
    split
    next => rfl
    next t found =>
      refine h.get?_replace_of_ne found ?_ (hne other)
      rintro _ ⟨rfl⟩
      rfl
  | send id now reply =>
    simp only [apply, send]
    split
    next => rfl
    next t found =>
      split
      next => rfl
      next =>
        split
        next => rfl
        next =>
          refine h.get?_replace_of_ne found ?_ (hne other)
          rintro _ ⟨rfl⟩
          rfl
  | schedule now => exact h.get?_schedule_of_silent silent
  | tick now replies => exact h.get?_schedule_of_silent silent
  | complete id response => exact h.get?_complete_of_ne (hne other) response
  | clear id =>
    simp only [apply, clear]
    split
    next => rw [h.get?_remove, if_neg (Ne.symm (hne other))]
    next => rfl
  | receive datagram sender => exact h.get?_receive_of_ne other
  | poll arrival buffer =>
    cases arrival with
    | none => rfl
    | some arrival =>
      cases arrival with
      | fault code => rfl
      | datagram bytes claimed sender =>
        have hreceived : (e.receive ((fill buffer bytes).take claimed) sender).engine.get? p =
            e.get? p := h.get?_receive_of_ne other
        exact hreceived

end Engine

end Coap
