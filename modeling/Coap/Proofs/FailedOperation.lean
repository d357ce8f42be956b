import Coap.Proofs.Completion
import Coap.Proofs.IdSearch

namespace Coap

variable {κ : Type}

/-- The results that say that an operation has failed. That nothing is due is no failure, and bounds
of jitter in the wrong order are one of the configuration. -/
def Operation.Failed : (o : Operation κ) → o.Result → Prop
  | .nextId, Except.error (_ : Exhausted) => True
  | .create .., Except.error (_ : Exhausted) => True
  | .setMessage .., none => True
  | .setMessage .., some (.error _) => True
  | .setContext .., false => True
  | .send .., Except.error (.unknownTransaction _) => True
  | .send .., Except.error (.transmit _) => True
  | .complete .., false => True
  | .clear _, false => True
  | .receive .., Except.error (_ : DecodeError) => True
  | .receive .., Except.ok (.unmatched ..) => True
  | .poll .., Except.error (_ : PollError) => True
  | .poll .., Except.ok (.unmatched ..) => True
  | _, _ => False

/-- A failure tells nothing about any transaction. -/
theorem Operation.Failed.events {o : Operation κ} {r : o.Result} (h : o.Failed r) :
    o.events r = [] := by
  unfold Operation.events
  split
  · exact (h : False).elim
  · exact (h : False).elim
  · exact (h : False).elim
  · exact (h : False).elim
  · exact (h : False).elim
  · exact (h : False).elim
  next inbound =>
    cases inbound with
    | matched => exact (h : False).elim
    | unmatched => rfl
  next inbound =>
    cases inbound with
    | matched => exact (h : False).elim
    | unmatched => rfl
  · rfl

namespace Engine

/-- Whether a datagram is a reply that a live transaction waits for. -/
def Expects (e : Engine κ) (datagram : Bytes) : Prop :=
  ∃ m, Message.decode datagram = .ok m ∧ m.type.isReply = true ∧ (e.get? m.id).isSome

/-- What an operation needs to do something. -/
def Admits (e : Engine κ) : Operation κ → Prop
  | .nextId => ∃ id, e.get? id = none
  | .create id .. => e.get? id = none ∧ e.size < e.slots.length
  | .setMessage id m =>
    (e.get? id).isSome ∧ (m.writeTo (List.replicate maxPacketSize 0)).fault = none
  | .setContext id _ | .complete id _ | .clear id => (e.get? id).isSome
  | .send id _ reply => (∃ t, e.get? id = some t ∧ t.wire ≠ []) ∧ reply = .accepted
  | .receive datagram _ => e.Expects datagram
  | .poll (some (.datagram bytes claimed _)) buffer => e.Expects ((fill buffer bytes).take claimed)
  | .poll .. => False
  | .schedule _ | .tick .. => True

def Fails (e : Engine κ) (o : Operation κ) : Prop := o.Failed (e.apply o).result

/-- An operation does something, or it fails and leaves the engine as it was. -/
inductive Settled (e : Engine κ) (o : Operation κ) : Prop
  | admitted {r : o.Result} (result : (e.apply o).result = r) (h : e.Admits o) (done : ¬o.Failed r)
  | refused {r : o.Result} {effects : Effects κ} (step : e.apply o = ⟨r, e, effects⟩)
      (h : ¬e.Admits o) (failed : o.Failed r)

theorem settled_nextId (e : Engine κ) : e.Settled .nextId := by
  have hall : freeId? (fun id => (e.get? id).isSome) 65536 e.counter = none ↔
      ∀ p, (e.get? p).isSome = true := freeId?_cycle_eq_none_iff
  cases hf : freeId? (fun id => (e.get? id).isSome) 65536 e.counter with
  | none =>
    have hs : e.nextId = ⟨.error .noFreeId, e, .none⟩ := by simp only [nextId, hf]
    refine .refused hs ?_ trivial
    rintro ⟨id, hid⟩
    have hlive := hall.mp hf id
    rw [hid] at hlive
    cases hlive
  | some id =>
    have hs : e.nextId.result = .ok id := by simp only [nextId, hf]
    refine .admitted hs ?_ not_false
    apply Classical.byContradiction
    intro hnone
    have hlive : ∀ p, (e.get? p).isSome = true := by
      intro p
      cases hg : e.get? p with
      | none => exact (hnone ⟨p, hg⟩).elim
      | some t => rfl
    rw [hall.mpr hlive] at hf
    cases hf

theorem settled_create (e : Engine κ) (id : UInt16) (peer : Address) (context : κ)
    (observer : Observer) : e.Settled (.create id peer context observer) := by
  cases hg : e.get? id with
  | some t =>
    have hs : e.create id peer context observer = ⟨.error (.idInUse id), e, .none⟩ := by
      simp [create, hg]
    refine .refused hs ?_ trivial
    rintro ⟨hfree, _⟩
    rw [hg] at hfree
    cases hfree
  | none =>
    by_cases hroom : e.size < e.slots.length
    · have hs : (e.create id peer context observer).result = .ok () := by
        rw [create_result, hg, if_neg (by simp), if_pos hroom]
      exact .admitted hs ⟨hg, hroom⟩ not_false
    · have hs : e.create id peer context observer = ⟨.error .tableFull, e, .none⟩ := by
        simp [create, hg, e.all_isSome_iff.mpr hroom]
      exact .refused hs (fun h => hroom h.2) trivial

theorem settled_setMessage (e : Engine κ) (id : UInt16) (m : Message) :
    e.Settled (.setMessage id m) := by
  cases hg : e.get? id with
  | none =>
    refine .refused (setMessage_of_none hg m) ?_ trivial
    exact fun h => Option.not_isSome_iff_eq_none.mpr hg h.1
  | some t =>
    cases hf : (m.writeTo (List.replicate maxPacketSize 0)).fault with
    | some err =>
      have hm : t.setMessage m = .error err := by simp only [Transaction.setMessage, hf]
      refine .refused (setMessage_of_error hg hm) ?_ trivial
      rintro ⟨_, hfits⟩
      rw [hf] at hfits
      cases hfits
    | none =>
      have hm : ∃ t', t.setMessage m = .ok t' := by
        simp only [Transaction.setMessage, hf]
        exact ⟨_, rfl⟩
      obtain ⟨t', hm⟩ := hm
      have hs := congrArg Step.result (setMessage_of_ok hg hm)
      exact .admitted hs ⟨Option.isSome_of_eq_some hg, hf⟩ not_false

theorem settled_setContext (e : Engine κ) (id : UInt16) (context : κ) :
    e.Settled (.setContext id context) := by
  cases hg : e.get? id with
  | none =>
    exact .refused (setContext_of_none hg context) (Option.not_isSome_iff_eq_none.mpr hg) trivial
  | some t =>
    have hs := congrArg Step.result (setContext_of_get? hg context)
    exact .admitted hs (Option.isSome_of_eq_some hg) not_false

theorem settled_send (e : Engine κ) (id : UInt16) (now : Instant) (reply : SendReply) :
    e.Settled (.send id now reply) := by
  cases hg : e.get? id with
  | none =>
    refine .refused (send_of_none hg now reply) ?_ trivial
    rintro ⟨⟨t, ht, _⟩, _⟩
    rw [hg] at ht
    cases ht
  | some t =>
    cases ht : t.transmit reply with
    | error cause =>
      refine .refused (send_of_error hg ht now) ?_ trivial
      rintro ⟨⟨u, hu, hwire⟩, rfl⟩
      obtain rfl : t = u := Option.some.inj (hg.symm.trans hu)
      rw [Transaction.transmit_of_wire hwire] at ht
      cases ht
    | ok sent =>
      have hwire := Transaction.wire_of_transmit ht
      have haccepted : reply = .accepted := by
        rw [Transaction.transmit_of_wire hwire] at ht
        cases reply with
        | accepted => rfl
        | wouldBlock | fault => cases ht
      have hadmits : e.Admits (.send id now reply) := ⟨⟨t, hg, hwire⟩, haccepted⟩
      cases ha : e.arm? t now with
      | none =>
        exact .admitted (congrArg Step.result (send_of_unarmed hg ht ha)) hadmits not_false
      | some armed =>
        exact .admitted (congrArg Step.result (send_of_armed hg ht ha)) hadmits not_false

theorem settled_complete (e : Engine κ) (id : UInt16) (response : Message) :
    e.Settled (.complete id response) := by
  cases hg : e.get? id with
  | none =>
    exact .refused (complete_of_none hg response) (Option.not_isSome_iff_eq_none.mpr hg) trivial
  | some t =>
    have hs := congrArg Step.result (complete_of_get? hg response)
    exact .admitted hs (Option.isSome_of_eq_some hg) not_false

theorem settled_clear (e : Engine κ) (id : UInt16) : e.Settled (.clear id) := by
  cases hg : e.get? id with
  | none => exact .refused (clear_of_none hg) (Option.not_isSome_iff_eq_none.mpr hg) trivial
  | some t =>
    have hs := congrArg Step.result (clear_of_get? hg)
    exact .admitted hs (Option.isSome_of_eq_some hg) not_false

theorem settled_receive (e : Engine κ) (datagram : Bytes) (sender : Address) :
    e.Settled (.receive datagram sender) := by
  have h := e.receipt datagram sender
  generalize hs : e.receive datagram sender = s at h
  cases h with
  | refused read =>
    refine .refused hs ?_ trivial
    rintro ⟨m, hm, _⟩
    rw [read] at hm
    cases hm
  | @passed m read other =>
    refine .refused hs ?_ trivial
    rintro ⟨m', hm, awaited⟩
    obtain rfl : m = m' := Except.ok.inj (read.symm.trans hm)
    exact other awaited
  | @matched m _ read reply found =>
    have hadmits : e.Admits (.receive datagram sender) :=
      ⟨m, read, reply, Option.isSome_of_eq_some found⟩
    exact .admitted (congrArg Step.result hs) hadmits not_false

theorem settled_poll (e : Engine κ) (arrival : Option Arrival) (buffer : Bytes) :
    e.Settled (.poll arrival buffer) := by
  cases arrival with
  | none => exact .refused rfl not_false trivial
  | some arrival =>
    cases arrival with
    | fault code => exact .refused rfl not_false trivial
    | datagram bytes claimed sender =>
      have hpoll : e.poll (some (.datagram bytes claimed sender)) buffer =
          { e.receive ((fill buffer bytes).take claimed) sender with
            result := (e.receive ((fill buffer bytes).take claimed) sender).result.mapError
              .decode } := rfl
      have hfailed (r : Except DecodeError Inbound) :
          (Operation.poll (some (.datagram bytes claimed sender)) buffer : Operation κ).Failed
              (r.mapError PollError.decode) ↔
            (Operation.receive ((fill buffer bytes).take claimed) sender :
              Operation κ).Failed r := by
        cases r with
        | error err => exact Iff.rfl
        | ok inbound => cases inbound <;> exact Iff.rfl
      cases e.settled_receive ((fill buffer bytes).take claimed) sender with
      | @admitted r result h done =>
        change (e.receive _ _).result = r at result
        rw [result] at hpoll
        exact .admitted (congrArg Step.result hpoll) h (fun hf => done ((hfailed r).mp hf))
      | @refused r effects step h failed =>
        change e.receive _ _ = _ at step
        rw [step] at hpoll
        exact .refused hpoll h ((hfailed r).mpr failed)

theorem settled (e : Engine κ) (o : Operation κ) : e.Settled o := by
  cases o with
  | nextId => exact e.settled_nextId
  | create id peer context observer => exact e.settled_create id peer context observer
  | setMessage id m => exact e.settled_setMessage id m
  | setContext id context => exact e.settled_setContext id context
  | send id now reply => exact e.settled_send id now reply
  | schedule now => exact .admitted rfl trivial not_false
  | tick now replies => exact .admitted rfl trivial not_false
  | complete id response => exact e.settled_complete id response
  | clear id => exact e.settled_clear id
  | receive datagram sender => exact e.settled_receive datagram sender
  | poll arrival buffer => exact e.settled_poll arrival buffer

/-- An operation fails if it lacks what it needs, and only then. -/
theorem fails_iff (e : Engine κ) (o : Operation κ) : e.Fails o ↔ ¬e.Admits o := by
  unfold Fails
  cases e.settled o with
  | admitted result h done =>
    rw [result]
    exact iff_of_false done (not_not_intro h)
  | refused step h failed =>
    rw [step]
    exact iff_of_true failed h

theorem fails_send {reply : SendReply} (e : Engine κ) (id : UInt16) (now : Instant)
    (h : reply ≠ .accepted) : e.Fails (.send id now reply) :=
  (e.fails_iff _).mpr fun admits => h admits.2

section Failed

variable {e : Engine κ} {o : Operation κ} (h : e.Fails o)

include h

theorem engine_of_failed : (e.apply o).engine = e := by
  cases e.settled o with
  | admitted result _ done =>
    unfold Fails at h
    rw [result] at h
    exact (done h).elim
  | refused step _ _ => rw [step]

theorem report_of_failed : e.report o = [] := h.events

theorem completions_of_failed : (e.apply o).effects.completions = [] := by
  have hnotices := (e.transition o).notices
  rw [report_of_failed h] at hnotices
  exact List.map_eq_nil_iff.mp hnotices

end Failed

theorem run_attempts {e : Engine κ} {attempts : List (Operation κ)}
    (h : ∀ o ∈ attempts, e.Fails o) : e.run attempts = e := by
  induction attempts with
  | nil => rfl
  | cons o attempts ih =>
    have hsame := engine_of_failed (h o List.mem_cons_self)
    rw [run, hsame]
    exact ih fun p hp => h p (List.mem_cons_of_mem o hp)

/-- An operation that fails leaves the engine as it was and tells nobody that a transaction has
ended. It fails exactly if it lacks what it needs. The search for a free id that finds none brings
the counter back to where it was. So failures can be left out of a run, and the attempts before a
message is sent leave no trace. -/
theorem failed_changes_nothing (e : Engine κ) :
    (∀ o, (e.Fails o ↔ ¬e.Admits o) ∧
      (e.Fails o → (e.apply o).engine = e ∧ e.report o = [] ∧
        (e.apply o).effects.completions = [])) ∧
    (let walked := walk (fun id => (e.get? id).isSome) 65536 e.counter;
      e.nextId = ⟨walked.1.elim (.error .noFreeId) .ok, { e with counter := walked.2 }, .none⟩) ∧
    (∀ ops padded, Padded Fails e ops padded →
      e.run padded = e.run ops ∧ e.history padded = e.history ops ∧
        (e.effects padded).completions = (e.effects ops).completions) ∧
    ∀ id (attempts : List (Instant × SendReply)),
      (∀ x ∈ attempts, e.Fails (.send id x.1 x.2)) →
      ∀ now reply, (e.run (attempts.map fun x => .send id x.1 x.2)).send id now reply =
        e.send id now reply := by
  refine ⟨fun o => ?_, e.nextId_eq_walk, fun ops padded h => ?_, ?_⟩
  · refine ⟨e.fails_iff o, fun h => ?_⟩
    exact ⟨engine_of_failed h, report_of_failed h, completions_of_failed h⟩
  · have same (e : Engine κ) (o : Operation κ) (h : e.Fails o) :
        (e.apply o).engine = e := engine_of_failed h
    refine ⟨h.run_eq same, h.history_eq same fun _ _ => report_of_failed, ?_⟩
    exact h.effects_eq same (fun _ _ => rfl) fun _ _ => completions_of_failed
  · intro id attempts h now reply
    have hrun : e.run (attempts.map fun x => .send id x.1 x.2) = e := by
      apply run_attempts
      intro o ho
      obtain ⟨x, hx, rfl⟩ := List.mem_map.mp ho
      exact h x hx
    rw [hrun]

/-- A message that the socket refuses twice before it takes it. -/
theorem failed_changes_nothing_retried :
    let e := (new .milliseconds { Config.standard with strategy := ⟨.constant, 10, 10⟩ }).run
      [.create 7 (.v4 ⟨#[10, 0, 0, 1], rfl⟩ 5683) () .owner,
        .setMessage 7 (.new .confirmable .get 0)]
    e.Fails (.send 7 ⟨0⟩ .wouldBlock) ∧ e.Fails (.send 7 ⟨1⟩ (.fault 5)) ∧
      (e.send 7 ⟨2⟩ .accepted).result.isOk = true ∧
      (e.run [.send 7 ⟨0⟩ .wouldBlock, .send 7 ⟨1⟩ (.fault 5)]).send 7 ⟨2⟩ .accepted =
        e.send 7 ⟨2⟩ .accepted := by
  intro e
  have hsent : (e.send 7 ⟨2⟩ .accepted).result.isOk = true := by decide +kernel
  clear_value e
  have hblocked : e.Fails (.send 7 ⟨0⟩ .wouldBlock) := e.fails_send 7 ⟨0⟩ (by decide)
  have hfault : e.Fails (.send 7 ⟨1⟩ (.fault 5)) := e.fails_send 7 ⟨1⟩ (by decide)
  obtain ⟨_, _, _, hattempts⟩ := failed_changes_nothing e
  refine ⟨hblocked, hfault, hsent, hattempts 7 [(⟨0⟩, .wouldBlock), (⟨1⟩, .fault 5)] ?_ ⟨2⟩ _⟩
  intro x hx
  rcases List.mem_cons.mp hx with rfl | hx
  · exact hblocked
  · obtain rfl := List.mem_singleton.mp hx
    exact hfault

end Engine

end Coap
