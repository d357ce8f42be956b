import Coap.Proofs.LatestMessage
import Coap.Proofs.Lifecycle
import Coap.Proofs.RoundTrip

namespace Coap

namespace Message

/-- A message without options and payload comes back from the wire as it is. -/
theorem exists_encode_bare {code : Code} (hc : code.fitsByte = true) (hl : code.isLocal = false)
    (type : MessageType) (id : UInt16) (token : Token) :
    ∃ d, (bare type code id token).encode = .ok d ∧ decode d = .ok (bare type code id token) := by
  have h := coherent_bare type code id token
  obtain ⟨body, hs⟩ := h.exists_series
  exact ⟨(bare type code id token).layout body, h.encode hs hc hl, h.decode_layout hs rfl hc⟩

/-- The id of a message stands in the third and fourth byte and nowhere else. -/
theorem relabel_layout (m : Message) (id : UInt16) (body : Bytes) :
    Transaction.relabel id (m.layout body) = ({ m with id } : Message).layout body := rfl

/-- A datagram that is written under another id is that of the message with the other id. -/
theorem Coherent.decode_datagram {m : Message} (h : m.Coherent) (hv : m.version = 1)
    (hf : (m.writeTo (List.replicate maxPacketSize 0)).fault = none) (id : UInt16) :
    Message.decode (Transaction.datagram id m) = .ok ({ m with id } : Message).borrow := by
  obtain ⟨body, hs⟩ := h.exists_series
  have hw := h.writeTo_eq hs (List.replicate maxPacketSize 0)
  have hother : ({ m with id } : Message).Coherent := h.congr rfl (fun _ => rfl) rfl rfl
  rw [hw] at hf
  split at hf
  next => cases hf
  next hc =>
    split at hf
    next => cases hf
    next hl =>
      split at hf
      next => cases hf
      next hb =>
        rw [if_neg hc, if_neg hl, if_neg hb] at hw
        rw [Transaction.datagram, hw, relabel_layout]
        exact hother.decode_layout hs hv (fitsByte_eq_true_iff.mpr hc)

end Message

theorem Path.eq_none_of_none {limit : Nat} {os : List Occurrence} {last : Option Standing}
    (h : Path limit none os last) (hos : ∀ o ∈ os, o.isCreated = false) : last = none := by
  cases h with
  | nil => rfl
  | cons first rest =>
    cases first with
    | created peer observer => cases hos _ List.mem_cons_self

variable {κ : Type}

namespace Engine

theorem Sound.get?_run_of_free {e : Engine κ} (h : e.Sound) {id : UInt16}
    (free : e.get? id = none) {ops : List (Operation κ)}
    (hops : ∀ o ∈ occurrences (e.history ops) id, o.isCreated = false) :
    (e.run ops).get? id = none := by
  have hpath := h.path_history ops id
  rw [standing?, free] at hpath
  exact Option.map_eq_none_iff.mp (hpath.eq_none_of_none hops)

/-- A datagram ends the transaction with an id and no other: the transaction is removed, and its
owner is told once, with an empty message that has its id and token. -/
structure Ends (e : Engine κ) (t : Transaction κ) (token : Token) (d : Bytes) (sender : Address) :
    Prop where
  result : (e.receive d sender).result = .ok (.matched t.id)
  engine : (e.receive d sender).engine = e.replace t.id none
  others : ∀ p, (e.receive d sender).engine.get? p = if p = t.id then none else e.get? p
  told : ∃ response, (e.receive d sender).effects.completions =
    [⟨t.id, .response response, t.observer⟩] ∧
    response.id = t.id ∧ response.token = token ∧ response.code = .empty

/-- A datagram goes to the caller and has no other effect. -/
structure Ignores (e : Engine κ) (d : Bytes) (sender : Address) : Prop where
  result : ∃ m, (e.receive d sender).result = .ok (.unmatched m sender)
  engine : (e.receive d sender).engine = e
  told : (e.receive d sender).effects.completions = []

theorem Sound.ends {e : Engine κ} (h : e.Sound) {t : Transaction κ} (ht : t ∈ e.live) {d : Bytes}
    {type : MessageType} {token : Token}
    (hd : Message.decode d = .ok (.bare type .empty t.id token)) (hr : type.isReply = true)
    (sender : Address) : e.Ends t token d sender := by
  have ha : e.accept (.bare type .empty t.id token) sender = ⟨.matched t.id, e.replace t.id none,
      .logged [.completed t.id (.bare type .empty t.id token)] ++
        t.finish (.response (.bare type .empty t.id token))⟩ :=
    accept_of_get? hr (h.unique.get?_of_mem ht) sender
  have hs : e.receive d sender = ⟨.ok (.matched t.id), e.replace t.id none,
      .logged ((Message.decodeNotes d).map .decoding) ++
        (.logged [.completed t.id (.bare type .empty t.id token)] ++
          t.finish (.response (.bare type .empty t.id token)))⟩ := receive_of_accept hd ha
  constructor
  · rw [hs]
  · rw [hs]
  · intro p
    rw [hs]
    exact h.unique.get?_remove t.id p
  · rw [hs]
    exact ⟨_, rfl, rfl, rfl, rfl⟩

theorem ignores_of_free {e : Engine κ} {d : Bytes} {r : Message} (hd : Message.decode d = .ok r)
    (free : e.get? r.id = none) (sender : Address) : e.Ignores d sender := by
  have ha : ∃ effects, e.accept r sender = ⟨.unmatched r sender, e, effects⟩ ∧
      effects.completions = [] := by
    cases hr : r.type.isReply with
    | false => exact ⟨_, accept_of_request hr sender, rfl⟩
    | true => exact ⟨_, accept_of_none hr free sender, rfl⟩
  obtain ⟨effects, ha, htold⟩ := ha
  have hs := receive_of_accept hd ha
  constructor
  · rw [hs]
    exact ⟨r, rfl⟩
  · rw [hs]
  · rw [hs]
    exact htold

/-- The peer of a transaction that was given a message reads that message under the id of the
transaction. If it acknowledges or rejects what it reads, that ends the transaction; after that the
same reply has no effect, as long as the id is not taken anew. -/
theorem reply_completes {clock : Clock} {config : Config} {ops : List (Operation κ)}
    {t : Transaction κ} {m : Message} (hm : m.Reachable) (hv : m.version = 1)
    (live : t ∈ ((new clock config).run ops).live)
    (given : (new clock config : Engine κ).latest t.id none ops = some m) :
    ∃ view, Message.decode t.wire = .ok view ∧ (view == { m with id := t.id }) = true ∧
      ∀ reply ∈ [view.ack, view.reset], ∃ d, reply.encode = .ok d ∧
        ∀ sender, ((new clock config).run ops).Ends t m.token d sender ∧
          ∀ later again,
            (∀ o ∈ occurrences
              ((((new clock config).run ops).receive d sender).engine.history later) t.id,
              o.isCreated = false) →
            ((((new clock config).run ops).receive d sender).engine.run later).Ignores d again := by
  have hsound : ((new clock config).run ops).Sound := run_sound (sound_new clock config) ops
  have hholds := holds_latest (hsound.unique.get?_of_mem live)
  rw [given] at hholds
  obtain ⟨hf, hw, _⟩ := hholds
  refine ⟨({ m with id := t.id } : Message).borrow, ?_, ?_, ?_⟩
  · rw [hw]
    exact hm.coherent.decode_datagram hv hf t.id
  · exact Message.beq_iff_borrow_eq.mpr (Message.borrow_borrow _)
  · intro reply hreply
    -- Both replies are empty messages with the id and the token, and differ in the type only.
    have hbare : ∃ type, type.isReply = true ∧ reply = .bare type .empty t.id m.token := by
      rcases List.mem_cons.mp hreply with rfl | hreply
      · exact ⟨.acknowledgement, rfl, rfl⟩
      · exact ⟨.reset, rfl, List.mem_singleton.mp hreply⟩
    obtain ⟨type, htype, rfl⟩ := hbare
    have hc : Code.empty.fitsByte = true := rfl
    obtain ⟨d, he, hd⟩ := Message.exists_encode_bare hc rfl type t.id m.token
    refine ⟨d, he, fun sender => ?_⟩
    have hends := hsound.ends live hd htype sender
    refine ⟨hends, fun later again hlater => ?_⟩
    have hafter : (((new clock config).run ops).receive d sender).engine.Sound :=
      (((new clock config).run ops).transition (.receive d sender)).sound hsound
    have hfree : (((new clock config).run ops).receive d sender).engine.get? t.id = none := by
      rw [hends.others, if_pos rfl]
    exact ignores_of_free hd (hafter.get?_run_of_free hfree hlater) again

theorem reply_completes_token :
    let m := (((Message.new .confirmable .get 999).edit (.token [0xAB])).1.edit
      (.segment .uriPath [0x61])).1
    let e : Engine Unit :=
      (new .milliseconds { Config.standard with strategy := ⟨.constant, 10, 10⟩ }).run
        [.create 7 (.v4 ⟨#[10, 0, 0, 1], rfl⟩ 5683) () .owner, .setMessage 7 m,
          .send 7 ⟨0⟩ .accepted]
    ∃ t ∈ e.live, t.id = 7 ∧ t.wire = [0x41, 1, 0, 7, 0xAB, 0xB1, 0x61] ∧
      ∃ view, Message.decode t.wire = .ok view ∧ (view == { m with id := 7 }) = true ∧
        ∃ d, view.reset.encode = .ok d ∧ ∀ sender, e.Ends t m.token d sender := by
  intro m e
  have hm : m.Reachable := .edited (.edited (.new .confirmable .get 999) _) _
  have sent : e.live.map (fun t => (t.id, t.wire)) =
      [(7, [0x41, 1, 0, 7, 0xAB, 0xB1, 0x61])] := by
    subst e m
    decide +kernel
  have hmem : (7, [0x41, 1, 0, 7, 0xAB, 0xB1, 0x61]) ∈ e.live.map fun t => (t.id, t.wire) := by
    rw [sent]
    exact List.mem_singleton_self _
  obtain ⟨t, live, ht⟩ := List.mem_map.mp hmem
  obtain ⟨hid, hwire⟩ := Prod.mk.inj ht
  have set : (new .milliseconds { Config.standard with strategy := ⟨.constant, 10, 10⟩ } :
      Engine Unit).latest 7 none [.create 7 (.v4 ⟨#[10, 0, 0, 1], rfl⟩ 5683) () .owner,
        .setMessage 7 m] = some m := by
    subst e m
    cbv
  have given : (new .milliseconds { Config.standard with strategy := ⟨.constant, 10, 10⟩ } :
      Engine Unit).latest t.id none ([.create 7 (.v4 ⟨#[10, 0, 0, 1], rfl⟩ 5683) () .owner,
        .setMessage 7 m] ++ [.send 7 ⟨0⟩ .accepted]) = some m := by
    rw [hid, latest_append, set]
    rfl
  obtain ⟨view, hview, heq, hreply⟩ := reply_completes hm rfl live given
  obtain ⟨d, hd, hends⟩ := hreply view.reset (by simp)
  rw [hid] at heq
  exact ⟨t, live, hid, hwire, view, hview, heq, d, hd, fun sender => (hends sender).1⟩

end Engine

end Coap
