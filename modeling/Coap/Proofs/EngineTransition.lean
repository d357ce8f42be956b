import Coap.Proofs.EngineTable

namespace Coap

variable {κ : Type}

/-- All that one operation can do to the transaction with an id, and what its result then tells
about that id. -/
inductive Change (e : Engine κ) (id : UInt16) :
    Option (Transaction κ) → List Occurrence → Option (Transaction κ) → Prop
  | stays (t : Option (Transaction κ)) : Change e id t [] t
  | created (peer : Address) (context : κ) (observer : Observer) :
      Change e id none [.created peer observer] (some (.new id peer context observer))
  | message {t t' : Transaction κ} {m : Message} (h : t.setMessage m = .ok t') :
      Change e id (some t) [] (some t')
  | context (t : Transaction κ) (context : κ) :
      Change e id (some t) [] (some (t.setContext context))
  | sent {t : Transaction κ} {now : Instant} {reply : SendReply} {timer : Option RetryTimer}
      {rng : Option ChaCha} (accepted : t.transmit reply = .ok ())
      (armed : e.arm? t now = some (timer, rng)) :
      Change e id (some t) [.sent] (some { t with timer, progress := .sent })
  | retransmitted {t : Transaction κ} {timer : RetryTimer} {now : Instant}
      (running : t.timer = some timer) (due : timer.verdict e.clock now = .retry) :
      Change e id (some t) [.retransmitted] (some { t with timer := some (timer.restart now) })
  | abandoned {t : Transaction κ} {timer : RetryTimer} {now : Instant}
      (running : t.timer = some timer) (due : timer.verdict e.clock now = .giveUp) :
      Change e id (some t) [.abandoned] none
  | answered (t : Transaction κ) (response : Message) :
      Change e id (some t) [.answered response] none
  | cleared (t : Transaction κ) : Change e id (some t) [.cleared] none

/-- What the owner of a transaction is told. -/
def Transaction.notices (t : Transaction κ) (told : List Occurrence) : List Completion :=
  told.filterMap fun o => o.outcome?.map fun outcome => ⟨t.id, outcome, t.observer⟩

/-- A message is taken if it can be written into a packet; then wire and type are its own. -/
theorem Transaction.eq_of_setMessage {t t' : Transaction κ} {m : Message}
    (h : t.setMessage m = .ok t') :
    (m.writeTo (List.replicate maxPacketSize 0)).fault = none ∧ t' = { t with
      wire := relabel t.id (m.writeTo (List.replicate maxPacketSize 0)).bytes
      type := m.type } := by
  simp only [setMessage] at h
  cases hf : (m.writeTo (List.replicate maxPacketSize 0)).fault with
  | some err =>
    rw [hf] at h
    cases h
  | none =>
    rw [hf] at h
    exact ⟨rfl, (Except.ok.inj h).symm⟩

theorem Change.id_eq {e : Engine κ} {id : UInt16} {t u : Transaction κ} {told : List Occurrence}
    (h : Change e id (some t) told (some u)) : u.id = t.id := by
  cases h with
  | message h => rw [(Transaction.eq_of_setMessage h).2]
  | stays | context | sent | retransmitted => rfl

theorem occurrences_map_self (told : List Occurrence) (id : UInt16) :
    occurrences (told.map (Event.mk id)) id = told := by
  induction told with
  | nil => rfl
  | cons o told ih => rw [List.map_cons, occurrences_cons, if_pos rfl, ih]

theorem occurrences_map_of_ne (told : List Occurrence) {id p : UInt16} (h : p ≠ id) :
    occurrences (told.map (Event.mk id)) p = [] := by
  induction told with
  | nil => rfl
  | cons o told ih => rw [List.map_cons, occurrences_cons, if_neg h.symm, ih]

namespace Engine

/-- All that one operation can do to an engine, what its result then tells, and who is told. -/
inductive Transition (e : Engine κ) : Engine κ → List Event → List Completion → Prop
  | idle (counter : UInt16) : Transition e { e with counter } [] []
  | created {id : UInt16} {front back : List (Transaction κ)}
      {slots : List (Option (Transaction κ))} (peer : Address) (context : κ) (observer : Observer)
      (free : e.get? id = none) (before : e.live = front ++ back)
      (after : ({ e with slots } : Engine κ).live = front ++ .new id peer context observer :: back)
      (room : slots.length = e.slots.length) :
      Transition e { e with slots } [⟨id, .created peer observer⟩] []
  | replaced {id : UInt16} {t : Transaction κ} {slot : Option (Transaction κ)}
      {told : List Occurrence} (rng : Option ChaCha) (found : e.get? id = some t)
      (change : Change e id (some t) told slot) :
      Transition e { e.replace id slot with rng } (told.map (Event.mk id)) (t.notices told)
  | scheduled (now : Instant) : Transition e (e.schedule now).engine
      ((e.schedule now).result.map Due.event) (e.schedule now).effects.completions

/-! What an operation does, by what it finds. -/

section Steps

variable {e : Engine κ} {id : UInt16} {t : Transaction κ}

theorem setMessage_of_none (free : e.get? id = none) (m : Message) :
    e.setMessage id m = ⟨none, e, .none⟩ := by
  rw [setMessage, free]

theorem setMessage_of_error (found : e.get? id = some t) {m : Message} {err : EncodeError}
    (refused : t.setMessage m = .error err) :
    e.setMessage id m = ⟨some (.error err), e, .none⟩ := by
  simp only [setMessage, found, refused]

theorem setMessage_of_ok (found : e.get? id = some t) {m : Message} {t' : Transaction κ}
    (taken : t.setMessage m = .ok t') :
    e.setMessage id m = ⟨some (.ok ()), e.replace id (some t'), .none⟩ := by
  simp only [setMessage, found, taken]

theorem setContext_of_none (free : e.get? id = none) (context : κ) :
    e.setContext id context = ⟨false, e, .none⟩ := by
  rw [setContext, free]

theorem setContext_of_get? (found : e.get? id = some t) (context : κ) :
    e.setContext id context = ⟨true, e.replace id (some (t.setContext context)), .none⟩ := by
  rw [setContext, found]

theorem send_of_none (free : e.get? id = none) (now : Instant) (reply : SendReply) :
    e.send id now reply = ⟨.error (.unknownTransaction id), e, .none⟩ := by
  rw [send, free]

theorem send_of_error (found : e.get? id = some t) {reply : SendReply} {cause : TransmitError}
    (refused : t.transmit reply = .error cause) (now : Instant) : e.send id now reply =
      ⟨.error (.transmit cause), e, .handed (t.transmissions reply)⟩ := by
  simp only [send, found, refused]

theorem send_of_unarmed (found : e.get? id = some t) {reply : SendReply}
    (accepted : t.transmit reply = .ok ()) {now : Instant} (unarmed : e.arm? t now = none) :
    e.send id now reply = ⟨.error .emptyJitter, e, .handed (t.transmissions reply)⟩ := by
  simp only [send, found, accepted, unarmed]

theorem send_of_armed (found : e.get? id = some t) {reply : SendReply}
    (accepted : t.transmit reply = .ok ()) {now : Instant} {timer : Option RetryTimer}
    {rng : Option ChaCha} (armed : e.arm? t now = some (timer, rng)) :
    e.send id now reply = ⟨.ok (),
      { e.replace id (some { t with timer, progress := .sent }) with rng },
      .handed (t.transmissions reply) ++ .logged [.sent id t.type t.peer]⟩ := by
  simp only [send, found, accepted, armed]

theorem complete_of_none (free : e.get? id = none) (response : Message) :
    e.complete id response = ⟨false, e, .logged [.unexpected response]⟩ := by
  rw [complete, free]

theorem complete_of_get? (found : e.get? id = some t) (response : Message) :
    e.complete id response = ⟨true, e.replace id none,
      .logged [.completed id response] ++ t.finish (.response response)⟩ := by
  rw [complete, found]

theorem clear_of_none (free : e.get? id = none) : e.clear id = ⟨false, e, .none⟩ := by
  rw [clear, free]

theorem clear_of_get? (found : e.get? id = some t) :
    e.clear id = ⟨true, e.replace id none, .logged [.cleared id]⟩ := by
  rw [clear, found]

theorem accept_of_request {r : Message} (hr : r.type.isReply = false) (sender : Address) :
    e.accept r sender = ⟨.unmatched r sender, e, .none⟩ := by
  rw [accept, if_neg (by rw [hr]; decide)]

theorem accept_of_none {r : Message} (hr : r.type.isReply = true) (free : e.get? r.id = none)
    (sender : Address) : e.accept r sender =
      ⟨.unmatched r sender, e, .logged [.unexpected r]⟩ := by
  rw [accept, if_pos hr, complete_of_none free]
  rfl

theorem accept_of_get? {r : Message} (hr : r.type.isReply = true) (found : e.get? r.id = some t)
    (sender : Address) : e.accept r sender = ⟨.matched r.id, e.replace r.id none,
      .logged [.completed r.id r] ++ t.finish (.response r)⟩ := by
  rw [accept, if_pos hr, complete_of_get? found]
  rfl

theorem receive_of_error {datagram : Bytes} {err : DecodeError}
    (hd : Message.decode datagram = .error err) (sender : Address) :
    e.receive datagram sender = ⟨.error err, e,
      .logged ((Message.decodeNotes datagram).map .decoding)⟩ := by
  simp only [receive, hd]

theorem receive_of_accept {datagram : Bytes} {m : Message} (hd : Message.decode datagram = .ok m)
    {sender : Address} {s : Step κ Inbound} (ha : e.accept m sender = s) :
    e.receive datagram sender = ⟨.ok s.result, s.engine,
      .logged ((Message.decodeNotes datagram).map .decoding) ++ s.effects⟩ := by
  simp only [receive, hd, ha]

end Steps

/-- Whether a message is the reply that a live transaction waits for. -/
def Awaited (e : Engine κ) (m : Message) : Prop :=
  m.type.isReply = true ∧ (e.get? m.id).isSome

/-- All that can become of a datagram: it is no message, or its message is passed on, or it ends the
transaction that waits for it. -/
inductive Receipt (e : Engine κ) (datagram : Bytes) (sender : Address) :
    Step κ (Except DecodeError Inbound) → Prop
  | refused {err : DecodeError} (read : Message.decode datagram = .error err)
      (log : List LogEntry) : Receipt e datagram sender ⟨.error err, e, .logged log⟩
  | passed {m : Message} (read : Message.decode datagram = .ok m) (other : ¬e.Awaited m)
      (log : List LogEntry) :
      Receipt e datagram sender ⟨.ok (.unmatched m sender), e, .logged log⟩
  | matched {m : Message} {t : Transaction κ} (read : Message.decode datagram = .ok m)
      (reply : m.type.isReply = true) (found : e.get? m.id = some t) (log : List LogEntry) :
      Receipt e datagram sender ⟨.ok (.matched m.id), e.replace m.id none,
        ⟨[], [⟨t.id, .response m, t.observer⟩], log⟩⟩

theorem receipt (e : Engine κ) (datagram : Bytes) (sender : Address) :
    e.Receipt datagram sender (e.receive datagram sender) := by
  cases read : Message.decode datagram with
  | error err =>
    rw [receive_of_error read]
    exact .refused read _
  | ok m =>
    cases reply : m.type.isReply with
    | false =>
      have other : ¬e.Awaited m := by
        rintro ⟨hreply, _⟩
        rw [reply] at hreply
        cases hreply
      rw [receive_of_accept read (accept_of_request reply sender)]
      exact .passed read other _
    | true =>
      cases found : e.get? m.id with
      | none =>
        have other : ¬e.Awaited m := fun h => Option.not_isSome_iff_eq_none.mpr found h.2
        rw [receive_of_accept read (accept_of_none reply found sender)]
        exact .passed read other _
      | some t =>
        rw [receive_of_accept read (accept_of_get? reply found sender)]
        exact .matched read reply found _

theorem transition_create (e : Engine κ) (id : UInt16) (peer : Address) (context : κ)
    (observer : Observer) : e.Transition (e.create id peer context observer).engine
      (e.report (.create id peer context observer))
      (e.create id peer context observer).effects.completions := by
  simp only [report, apply]
  rcases e.create_cases id peer context observer with ⟨err, hc⟩ | ⟨hfree, front, back, hs, hc⟩
  · rw [hc]
    exact .idle e.counter
  · rw [hc]
    have before : e.live =
        front.filterMap (fun slot => slot) ++ back.filterMap fun slot => slot := by
      rw [live, hs, List.filterMap_append]
      rfl
    have after : ({ e with slots := front ++ some (.new id peer context observer) :: back } :
        Engine κ).live = front.filterMap (fun slot => slot) ++
          .new id peer context observer :: back.filterMap fun slot => slot := by
      rw [live, List.filterMap_append]
      rfl
    have room : (front ++ some (.new id peer context observer) :: back).length =
        e.slots.length := by
      rw [hs, List.length_append, List.length_append]
      rfl
    exact .created peer context observer hfree before after room

theorem transition_setMessage (e : Engine κ) (id : UInt16) (m : Message) :
    e.Transition (e.setMessage id m).engine (e.report (.setMessage id m))
      (e.setMessage id m).effects.completions := by
  simp only [report, apply]
  cases hg : e.get? id with
  | none =>
    rw [setMessage_of_none hg]
    exact .idle e.counter
  | some t =>
    cases hm : t.setMessage m with
    | error err =>
      rw [setMessage_of_error hg hm]
      exact .idle e.counter
    | ok t' =>
      rw [setMessage_of_ok hg hm]
      exact .replaced e.rng hg (.message hm)

theorem transition_setContext (e : Engine κ) (id : UInt16) (context : κ) :
    e.Transition (e.setContext id context).engine (e.report (.setContext id context))
      (e.setContext id context).effects.completions := by
  simp only [report, apply]
  cases hg : e.get? id with
  | none =>
    rw [setContext_of_none hg]
    exact .idle e.counter
  | some t =>
    rw [setContext_of_get? hg]
    exact .replaced e.rng hg (.context t context)

theorem transition_send (e : Engine κ) (id : UInt16) (now : Instant) (reply : SendReply) :
    e.Transition (e.send id now reply).engine (e.report (.send id now reply))
      (e.send id now reply).effects.completions := by
  simp only [report, apply]
  cases hg : e.get? id with
  | none =>
    rw [send_of_none hg]
    exact .idle e.counter
  | some t =>
    cases ht : t.transmit reply with
    | error cause =>
      rw [send_of_error hg ht]
      exact .idle e.counter
    | ok u =>
      cases ha : e.arm? t now with
      | none =>
        rw [send_of_unarmed hg ht ha]
        exact .idle e.counter
      | some armed =>
        obtain ⟨timer, rng⟩ := armed
        rw [send_of_armed hg ht ha]
        exact .replaced rng hg (.sent ht ha)

theorem transition_complete (e : Engine κ) (id : UInt16) (response : Message) :
    e.Transition (e.complete id response).engine (e.report (.complete id response))
      (e.complete id response).effects.completions := by
  simp only [report, apply]
  cases hg : e.get? id with
  | none =>
    rw [complete_of_none hg]
    exact .idle e.counter
  | some t =>
    rw [complete_of_get? hg]
    exact .replaced e.rng hg (.answered t response)

theorem transition_clear (e : Engine κ) (id : UInt16) :
    e.Transition (e.clear id).engine (e.report (.clear id)) (e.clear id).effects.completions := by
  simp only [report, apply]
  cases hg : e.get? id with
  | none =>
    rw [clear_of_none hg]
    exact .idle e.counter
  | some t =>
    rw [clear_of_get? hg]
    exact .replaced e.rng hg (.cleared t)

theorem transition_receive (e : Engine κ) (datagram : Bytes) (sender : Address) :
    e.Transition (e.receive datagram sender).engine (e.report (.receive datagram sender))
      (e.receive datagram sender).effects.completions := by
  simp only [report, apply]
  have h := e.receipt datagram sender
  generalize e.receive datagram sender = s at h ⊢
  cases h with
  | refused | passed => exact .idle e.counter
  | @matched m t read _ found =>
    simp only [Operation.events, Inbound.events, read]
    exact .replaced e.rng found (.answered t m)

/-- A poll that finds a datagram is the receipt of as much of it as fits. -/
theorem report_poll (e : Engine κ) (bytes : Bytes) (claimed : Nat) (sender : Address)
    (buffer : Bytes) : e.report (.poll (some (.datagram bytes claimed sender)) buffer) =
      e.report (.receive ((fill buffer bytes).take claimed) sender) := by
  simp only [report, apply, poll]
  cases (e.receive ((fill buffer bytes).take claimed) sender).result <;> rfl

theorem transition_poll (e : Engine κ) (arrival : Option Arrival) (buffer : Bytes) :
    e.Transition (e.poll arrival buffer).engine (e.report (.poll arrival buffer))
      (e.poll arrival buffer).effects.completions := by
  cases arrival with
  | none => exact .idle e.counter
  | some arrival =>
    cases arrival with
    | fault code => exact .idle e.counter
    | datagram bytes claimed sender =>
      rw [report_poll]
      exact e.transition_receive _ sender

theorem transition_nextId (e : Engine κ) :
    e.Transition e.nextId.engine (e.report .nextId) e.nextId.effects.completions := by
  simp only [report, apply, nextId]
  split
  next id _ => exact .idle (id + 1)
  next => exact .idle e.counter

theorem resend_completions (e : Engine κ) (ids : List UInt16) (replies : List SendReply) :
    (e.resend ids replies).2.completions = [] := by
  induction ids generalizing replies with
  | nil => rfl
  | cons id ids ih =>
    unfold resend
    cases e.get? id with
    | none => exact ih replies
    | some t => exact ih _

theorem transition_tick (e : Engine κ) (now : Instant) (replies : List SendReply) :
    e.Transition (e.tick now replies).engine (e.report (.tick now replies))
      (e.tick now replies).effects.completions := by
  have hc : (e.tick now replies).effects.completions = (e.schedule now).effects.completions := by
    change _ ++ (resend _ _ _).2.completions = _
    rw [resend_completions, List.append_nil]
  rw [hc]
  exact .scheduled now

theorem transition (e : Engine κ) (o : Operation κ) :
    e.Transition (e.apply o).engine (e.report o) (e.apply o).effects.completions := by
  cases o with
  | nextId => exact e.transition_nextId
  | create id peer context observer => exact e.transition_create id peer context observer
  | setMessage id m => exact e.transition_setMessage id m
  | setContext id context => exact e.transition_setContext id context
  | send id now reply => exact e.transition_send id now reply
  | schedule now => exact .scheduled now
  | tick now replies => exact e.transition_tick now replies
  | complete id response => exact e.transition_complete id response
  | clear id => exact e.transition_clear id
  | receive datagram sender => exact e.transition_receive datagram sender
  | poll arrival buffer => exact e.transition_poll arrival buffer

theorem get?_eq_none_iff {e : Engine κ} {id : UInt16} :
    e.get? id = none ↔ id ∉ e.live.map (·.id) := by
  rw [get?, List.find?_eq_none, List.mem_map]
  constructor
  · rintro h ⟨t, ht, rfl⟩
    exact h t ht (by simp)
  · intro h t ht he
    exact h ⟨t, ht, by simpa using he⟩

/-- Clock, configuration and the number of slots are fixed. -/
theorem Transition.frame {e e' : Engine κ} {told : List Event} {ends : List Completion}
    (h : e.Transition e' told ends) :
    e'.clock = e.clock ∧ e'.config = e.config ∧ e'.slots.length = e.slots.length := by
  cases h with
  | idle => exact ⟨rfl, rfl, rfl⟩
  | created peer context observer free before after room => exact ⟨rfl, rfl, room⟩
  | replaced rng found change => exact ⟨rfl, rfl, List.length_map _⟩
  | scheduled now =>
    refine ⟨rfl, rfl, ?_⟩
    simp only [schedule, List.length_map]

theorem replaced_id_of_change {e : Engine κ} {id : UInt16} {t : Transaction κ}
    {slot : Option (Transaction κ)} {told : List Occurrence} (found : e.get? id = some t)
    (change : Change e id (some t) told slot) : ∀ u, slot = some u → u.id = id := by
  rintro u rfl
  exact change.id_eq.trans (mem_live_of_get? found).2

/-- A new transaction takes an id that is free, and no other operation changes an id. -/
theorem Transition.unique {e e' : Engine κ} {told : List Event} {ends : List Completion}
    (h : e.Transition e' told ends) (hu : e.Unique) : e'.Unique := by
  cases h with
  | idle => exact hu
  | @created id front back slots peer context observer free before after room =>
    have hfree : id ∉ (front ++ back).map (·.id) := by
      rw [← before]
      exact get?_eq_none_iff.mp free
    unfold Unique at hu ⊢
    rw [before] at hu
    rw [after, (List.perm_middle.map _).nodup_iff, List.map_cons]
    exact List.nodup_cons.mpr ⟨hfree, hu⟩
  | replaced rng found change => exact hu.replace (replaced_id_of_change found change)
  | scheduled now => exact hu.schedule now

/-- What is due tells about an id what the visit of its transaction says. -/
theorem Unique.occurrences_schedule {e : Engine κ} (h : e.Unique) (now : Instant) (id : UInt16) :
    occurrences (e.report (.schedule now)) id = (((e.get? id).bind fun t =>
      (visit e.clock now (some t)).due).map fun d => d.event.occurrence).toList := by
  have hid (t : Transaction κ) (v : Event)
      (hv : (visit e.clock now (some t)).due.map Due.event = some v) : v.id = t.id := by
    obtain ⟨d, hd, rfl⟩ := Option.map_eq_some_iff.mp hv
    exact visit_due_id hd
  change occurrences ((e.schedule now).result.map Due.event) id = _
  rw [schedule_result, List.map_filterMap, occurrences_filterMap hid h id]
  change (((e.get? id).bind _).map Event.occurrence).toList = _
  cases e.get? id with
  | none => rfl
  | some t =>
    rw [Option.bind_some, Option.bind_some, Option.map_map]
    rfl

/-- One operation changes the transaction with an id in one of the ways of `Change`, whatever it
does to the others. -/
theorem Transition.change {e e' : Engine κ} {told : List Event} {ends : List Completion}
    (h : e.Transition e' told ends) (hu : e.Unique) (p : UInt16) :
    Change e p (e.get? p) (occurrences told p) (e'.get? p) := by
  cases h with
  | idle => exact .stays _
  | @created id front back slots peer context observer free before after room =>
    have hold : e.get? p = (front.find? (·.id == p)).or (back.find? (·.id == p)) := by
      rw [get?, before, List.find?_append]
    have hnew : ({ e with slots } : Engine κ).get? p = (front.find? (·.id == p)).or
        ((Transaction.new id peer context observer :: back).find? (·.id == p)) := by
      rw [get?, after, List.find?_append]
    by_cases hp : p = id
    · subst hp
      rw [free] at hold
      obtain ⟨hfront, _⟩ := Option.or_eq_none_iff.mp hold.symm
      rw [hnew, hfront, free, occurrences_cons, if_pos rfl, Option.none_or,
        List.find?_cons_of_pos (by simp [Transaction.new])]
      exact .created peer context observer
    · have hne : (Transaction.new id peer context observer).id ≠ p := fun he => hp he.symm
      rw [hnew, hold, occurrences_cons, if_neg (fun he => hp he.symm),
        List.find?_cons_of_neg (by simpa using hne)]
      exact .stays _
  | @replaced id t slot told rng found change =>
    have hget := hu.get?_replace (replaced_id_of_change found change) p
    change Change e p (e.get? p) _ ((e.replace id slot).get? p)
    rw [hget]
    by_cases hp : p = id
    · subst hp
      rw [if_pos rfl, found, Option.bind_some, occurrences_map_self]
      exact change
    · rw [if_neg hp, occurrences_map_of_ne told hp]
      exact .stays _
  | scheduled now =>
    change Change e p (e.get? p) (occurrences (e.report (.schedule now)) p) _
    rw [hu.occurrences_schedule, hu.get?_schedule]
    cases hg : e.get? p with
    | none => exact .stays _
    | some t =>
      rcases visit_cases e.clock now t with hv | ⟨timer, ht, hd, hv⟩ | ⟨timer, ht, hd, hv⟩
      all_goals simp only [Option.bind_some, hv]
      · exact .stays _
      · exact .retransmitted ht hd
      · exact .abandoned ht hd

end Engine

end Coap
