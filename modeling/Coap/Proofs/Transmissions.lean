import Coap.Proofs.LatestMessage

namespace Coap

variable {κ : Type}

/-- A datagram for a peer, with the context that goes to the socket. -/
structure Letter (κ : Type) where
  context : κ
  peer : Address
  datagram : Bytes

def Transmission.letter (x : Transmission κ) : Letter κ := ⟨x.context, x.peer, x.datagram⟩

def Transaction.letter (t : Transaction κ) : Letter κ := ⟨t.context, t.peer, t.wire⟩

theorem Transaction.transmissions_of_wire {t : Transaction κ} (h : t.wire ≠ [])
    (reply : SendReply) : (t.transmissions reply).map Transmission.letter = [t.letter] := by
  have hw : t.wire.isEmpty = false := by simpa using h
  rw [transmissions, hw]
  rfl

theorem SendReply.result_ne_nothingToSend (reply : SendReply) (id : UInt16) :
    reply.result ≠ .error (.nothingToSend id) := by
  cases reply <;> simp [result]

theorem Engine.eq_error_of_fault? {result : Except TransmitError Unit} {cause : TransmitError}
    (h : fault? result = some cause) : result = .error cause := by
  unfold fault? at h
  split at h
  next => cases h
  next => cases h
  next => rw [Option.some.inj h]

theorem Engine.eq_error_of_mem_failureLog {id p : UInt16} {result : Except TransmitError Unit}
    {cause : TransmitError} (h : .retransmissionFailed p cause ∈ failureLog id result) :
    result = .error cause := by
  unfold failureLog at h
  split at h
  next => cases h
  next =>
    cases List.mem_singleton.mp h
    rfl

namespace Engine

/-- The transactions that an operation sends for, in order: a send call if there is a datagram, and
a tick for those that it says are due for retransmission. -/
def senders (e : Engine κ) : Operation κ → List UInt16
  | .send id _ _ => if (e.get? id).any (!·.wire.isEmpty) then [id] else []
  | .tick now replies => (e.tick now replies).result.1.filterMap Due.retransmit?
  | _ => []

/-- What goes out for a transaction after some operations: its last message under its id, with its
peer and its context. -/
def letter? (e : Engine κ) (past : List (Operation κ)) (id : UInt16) : Option (Letter κ) :=
  match (e.run past).get? id, e.latest id none past with
  | some t, some m => some ⟨t.context, t.peer, Transaction.datagram id m⟩
  | _, _ => none

/-- What goes out in the course of some operations, after those of the past. -/
def letters (e : Engine κ) (past : List (Operation κ)) :
    List (Operation κ) → List (Option (Letter κ))
  | [] => []
  | o :: rest => ((e.run past).senders o).map (e.letter? past) ++ e.letters (past ++ [o]) rest

/-- A transaction that has something to send. -/
def HasDatagram (e : Engine κ) (id : UInt16) : Prop := ∃ t, e.get? id = some t ∧ t.wire ≠ []

theorem resend_letters {e : Engine κ} {ids : List UInt16} (h : ∀ id ∈ ids, e.HasDatagram id)
    (replies : List SendReply) :
    (e.resend ids replies).2.transmissions.map (fun x => some x.letter) =
      ids.map fun id => (e.get? id).map Transaction.letter := by
  induction ids generalizing replies with
  | nil => rfl
  | cons id ids ih =>
    obtain ⟨t, ht, hw⟩ := h id List.mem_cons_self
    have hfirst := congrArg (List.map some)
      (Transaction.transmissions_of_wire hw (replies.headD .accepted))
    have hrest := ih (fun p hp => h p (List.mem_cons_of_mem id hp))
      (replies.drop (t.transmissions (replies.headD .accepted)).length)
    rw [List.map_map] at hfirst
    unfold resend
    rw [List.map_cons, ht, ← hrest]
    change List.map _ (_ ++ _) = _
    rw [List.map_append]
    exact congrArg (· ++ _) hfirst

theorem resend_ne_nothingToSend {e : Engine κ} {ids : List UInt16}
    (h : ∀ id ∈ ids, e.HasDatagram id) (replies : List SendReply) (p : UInt16) :
    (e.resend ids replies).1 ≠ some (.nothingToSend p) ∧
      ∀ q, .retransmissionFailed q (.nothingToSend p) ∉ (e.resend ids replies).2.log := by
  induction ids generalizing replies with
  | nil => exact ⟨nofun, fun _ => List.not_mem_nil⟩
  | cons id ids ih =>
    obtain ⟨t, ht, hw⟩ := h id List.mem_cons_self
    obtain ⟨hfault, hlog⟩ := ih (fun p hp => h p (List.mem_cons_of_mem id hp))
      (replies.drop (t.transmissions (replies.headD .accepted)).length)
    have hreply := (replies.headD .accepted).result_ne_nothingToSend p
    unfold resend
    rw [ht]
    dsimp only
    rw [Transaction.transmit_of_wire hw]
    constructor
    · intro hf
      rcases Option.or_eq_some_iff.mp hf with hf | ⟨_, hf⟩
      · exact hreply (eq_error_of_fault? hf)
      · exact hfault hf
    · intro q hq
      rcases List.mem_append.mp hq with hq | hq
      · rcases List.mem_cons.mp hq with hq | hq
        · cases hq
        · exact hreply (eq_error_of_mem_failureLog hq)
      · exact hlog q hq

theorem schedule_transmissions (e : Engine κ) (now : Instant) :
    (e.schedule now).effects.transmissions = [] := by
  simp only [schedule, Effects.concat_eq, List.flatMap_eq_nil_iff, List.mem_map]
  rintro _ ⟨_, ⟨slot, _, rfl⟩, rfl⟩
  cases slot with
  | none => rfl
  | some t =>
    rcases visit_cases e.clock now t with hv | ⟨timer, _, _, hv⟩ | ⟨timer, _, _, hv⟩
    all_goals
      rw [hv]
      rfl

theorem retransmissionFailed_notMem_schedule (e : Engine κ) (now : Instant) (id : UInt16)
    (cause : TransmitError) :
    .retransmissionFailed id cause ∉ (e.schedule now).effects.log := by
  simp only [schedule, Effects.concat_eq, List.mem_flatMap, List.mem_map]
  rintro ⟨_, ⟨_, ⟨slot, _, rfl⟩, rfl⟩, hm⟩
  cases slot with
  | none => cases hm
  | some t =>
    rcases visit_cases e.clock now t with hv | ⟨timer, _, _, hv⟩ | ⟨timer, _, _, hv⟩
    · rw [hv] at hm
      cases hm
    · rw [hv] at hm
      cases hm
    · rw [hv] at hm
      rcases List.mem_append.mp hm with hm | hm
      · cases List.mem_singleton.mp hm
      · simp only [Transaction.finish] at hm
        cases ho : t.observer <;> simp [ho] at hm

/-- What a schedule says is due for retransmission is live and stays so, with the datagram that it
has been sent with. -/
theorem Sound.retransmit_letter {e : Engine κ} (h : e.Sound) {now : Instant} {id : UInt16}
    (hid : id ∈ (e.schedule now).result.filterMap Due.retransmit?) :
    (e.schedule now).engine.HasDatagram id ∧ e.HasDatagram id ∧
      ((e.schedule now).engine.get? id).map Transaction.letter =
        (e.get? id).map Transaction.letter := by
  obtain ⟨d, hd, hr⟩ := List.mem_filterMap.mp hid
  rw [schedule_result] at hd
  obtain ⟨t, ht, hdue⟩ := List.mem_filterMap.mp hd
  rcases visit_cases e.clock now t with hv | ⟨timer, running, _, hv⟩ | ⟨timer, _, _, hv⟩
  · rw [hv] at hdue
    cases hdue
  · rw [hv] at hdue
    cases hdue
    cases hr
    have hget := h.unique.get?_of_mem ht
    have hafter : (e.schedule now).engine.get? t.id =
        some { t with timer := some (timer.restart now) } := by
      rw [h.unique.get?_schedule, hget, Option.bind_some, hv]
    have hsound := h.transactions t ht
    have hw : t.wire ≠ [] := hsound.sent (hsound.waiting (by rw [running]; rfl))
    exact ⟨⟨_, hafter, hw⟩, ⟨t, hget, hw⟩, by rw [hafter, hget]; rfl⟩
  · rw [hv] at hdue
    cases hdue
    cases hr

theorem send_transmissions {e : Engine κ} {id : UInt16} {t : Transaction κ}
    (found : e.get? id = some t) (now : Instant) (reply : SendReply) :
    (e.send id now reply).effects.transmissions = t.transmissions reply := by
  rw [send, found]
  dsimp only
  split
  next => rfl
  next =>
    split
    next => rfl
    next => exact List.append_nil _

theorem complete_transmissions (e : Engine κ) (id : UInt16) (response : Message) :
    (e.complete id response).effects.transmissions = [] := by
  unfold complete
  split <;> rfl

theorem receive_transmissions (e : Engine κ) (datagram : Bytes) (sender : Address) :
    (e.receive datagram sender).effects.transmissions = [] := by
  have h := e.receipt datagram sender
  generalize e.receive datagram sender = s at h ⊢
  cases h <;> rfl

theorem letters_send (e : Engine κ) (id : UInt16) (now : Instant) (reply : SendReply) :
    (e.send id now reply).effects.transmissions.map (fun x => some x.letter) =
      (e.senders (.send id now reply)).map fun p => (e.get? p).map Transaction.letter := by
  cases hg : e.get? id with
  | none => simp [send, senders, hg, Effects.none]
  | some t =>
    rw [send_transmissions hg]
    by_cases hw : t.wire = []
    · simp [Transaction.transmissions, senders, hg, hw]
    · have hfirst := congrArg (List.map some) (Transaction.transmissions_of_wire hw reply)
      rw [List.map_map] at hfirst
      have ho : e.senders (.send id now reply) = [id] := by simp [senders, hg, hw]
      rw [ho, List.map_singleton, hg]
      exact hfirst

theorem Sound.hasDatagram_of_due {e : Engine κ} (h : e.Sound) (now : Instant) :
    ∀ id ∈ (e.schedule now).result.filterMap Due.retransmit?,
      (e.schedule now).engine.HasDatagram id :=
  fun _ hid => (h.retransmit_letter hid).1

theorem Sound.letters_tick {e : Engine κ} (h : e.Sound) (now : Instant)
    (replies : List SendReply) :
    (e.tick now replies).effects.transmissions.map (fun x => some x.letter) =
      (e.senders (.tick now replies)).map fun p => (e.get? p).map Transaction.letter := by
  have hids : e.senders (.tick now replies) =
      (e.schedule now).result.filterMap Due.retransmit? := rfl
  change (_ ++ (resend _ _ _).2.transmissions).map _ = _
  rw [schedule_transmissions, List.nil_append, resend_letters (h.hasDatagram_of_due now), hids]
  exact List.map_congr_left fun id hid => (h.retransmit_letter hid).2.2

/-- What an operation hands to the socket is the letter of each transaction that it sends for. -/
theorem Sound.transmissions_apply {e : Engine κ} (h : e.Sound) (o : Operation κ) :
    (e.apply o).effects.transmissions.map (fun x => some x.letter) =
      (e.senders o).map fun id => (e.get? id).map Transaction.letter := by
  have silent (hs : (e.apply o).effects.transmissions = []) (ho : e.senders o = []) :
      (e.apply o).effects.transmissions.map (fun x => some x.letter) =
        (e.senders o).map fun id => (e.get? id).map Transaction.letter := by
    rw [hs, ho]
    rfl
  cases o with
  | nextId =>
    refine silent ?_ rfl
    simp only [apply, nextId]
    split <;> rfl
  | create p peer context observer =>
    refine silent ?_ rfl
    rcases e.create_cases p peer context observer with ⟨err, hc⟩ | ⟨_, front, back, _, hc⟩
    · simp only [apply, hc]
      rfl
    · simp only [apply, hc]
      rfl
  | setMessage p m =>
    refine silent ?_ rfl
    simp only [apply, setMessage]
    split
    next => rfl
    next => split <;> rfl
  | setContext p context =>
    refine silent ?_ rfl
    simp only [apply, setContext]
    split <;> rfl
  | send p now reply => exact e.letters_send p now reply
  | schedule now => exact silent (e.schedule_transmissions now) rfl
  | tick now replies => exact h.letters_tick now replies
  | complete p response => exact silent (e.complete_transmissions p response) rfl
  | clear p =>
    refine silent ?_ rfl
    simp only [apply, clear]
    split <;> rfl
  | receive datagram sender => exact silent (e.receive_transmissions datagram sender) rfl
  | poll arrival buffer =>
    refine silent ?_ rfl
    simp only [apply, poll]
    split
    next => rfl
    next => rfl
    next => exact e.receive_transmissions _ _

theorem Sound.hasDatagram_of_mem_senders {e : Engine κ} (h : e.Sound) {o : Operation κ}
    {id : UInt16} (hid : id ∈ e.senders o) : e.HasDatagram id := by
  cases o with
  | send p now reply =>
    simp only [senders] at hid
    split at hid
    next hany =>
      obtain rfl := List.mem_singleton.mp hid
      cases hg : e.get? id with
      | none => simp [hg] at hany
      | some t => exact ⟨t, hg, by simpa [hg] using hany⟩
    next => cases hid
  | tick now replies => exact (h.retransmit_letter hid).2.1
  | nextId | create | setMessage | setContext | schedule | complete | clear | receive | poll =>
    cases hid

/-- The datagram of a transaction is that of its last message. -/
theorem letter?_of_hasDatagram {clock : Clock} {config : Config} {past : List (Operation κ)}
    {id : UInt16} (h : ((new clock config).run past).HasDatagram id) :
    (new clock config).letter? past id =
      (((new clock config).run past).get? id).map Transaction.letter := by
  obtain ⟨t, ht, hw⟩ := h
  have hid : t.id = id := (mem_live_of_get? ht).2
  have hholds := holds_latest ht
  unfold letter?
  rw [ht]
  cases hl : (new clock config : Engine κ).latest id none past with
  | none =>
    rw [hl] at hholds
    exact absurd hholds.1 hw
  | some m =>
    rw [hl] at hholds
    rw [Option.map_some, Transaction.letter, hholds.2.1, hid]

theorem transmissions_effects (clock : Clock) (config : Config) (past ops : List (Operation κ)) :
    (((new clock config).run past).effects ops).transmissions.map (fun x => some x.letter) =
      (new clock config).letters past ops := by
  -- The past grows with each operation: it decides which message a transaction has.
  induction ops generalizing past with
  | nil => rfl
  | cons o ops ih =>
    have hsound : ((new clock config).run past).Sound := run_sound (sound_new clock config) past
    have hrun : (((new clock config).run past).apply o).engine =
        (new clock config).run (past ++ [o]) := by
      rw [run_append]
      rfl
    have hletters : (((new clock config).run past).senders o).map
          ((new clock config).letter? past) =
        (((new clock config).run past).senders o).map fun id =>
          (((new clock config).run past).get? id).map Transaction.letter :=
      List.map_congr_left fun id hid =>
        letter?_of_hasDatagram (hsound.hasDatagram_of_mem_senders hid)
    rw [letters, hletters, ← hsound.transmissions_apply o, ← ih (past ++ [o]), ← hrun,
      ← List.map_append]
    rfl

/-- What goes out in a run: a datagram for each call that sends a transaction with a message, and
one for each retransmission that a tick reports, in that order, and nothing else. Each goes to the
peer and with the context that the transaction has then, and it is the message that the transaction
was given last, under its id; as long as it is given no other, all its datagrams are the same. No
tick lacks a message. -/
theorem transmissions_eq_letters (clock : Clock) (config : Config) (ops : List (Operation κ)) :
    ((new clock config).effects ops).transmissions.map (fun x => some x.letter) =
      (new clock config).letters [] ops ∧
    (∀ (past between : List (Operation κ)) id t u,
      ((new clock config).run past).get? id = some t →
      ((new clock config).run (past ++ between)).get? id = some u →
      (∀ held, ((new clock config).run past).latest id held between = held) →
      u.wire = t.wire) ∧
    ∀ now replies p,
      (((new clock config).run ops).tick now replies).result.2 ≠ some (.nothingToSend p) ∧
      ∀ id, .retransmissionFailed id (.nothingToSend p) ∉
        (((new clock config).run ops).tick now replies).effects.log := by
  refine ⟨transmissions_effects clock config [] ops, ?_, ?_⟩
  · intro past between id t u ht hu hquiet
    have hold := holds_latest ht
    have hnew := holds_latest hu
    rw [latest_append, hquiet] at hnew
    have hid : u.id = t.id := (mem_live_of_get? hu).2.trans (mem_live_of_get? ht).2.symm
    cases hl : (new clock config : Engine κ).latest id none past with
    | none =>
      rw [hl] at hold hnew
      exact hnew.1.trans hold.1.symm
    | some m =>
      rw [hl] at hold hnew
      rw [hnew.2.1, hold.2.1, hid]
  · intro now replies p
    have hsound : ((new clock config).run ops).Sound := run_sound (sound_new clock config) ops
    obtain ⟨hfault, hlog⟩ :=
      resend_ne_nothingToSend (hsound.hasDatagram_of_due now) replies p
    refine ⟨hfault, fun id hm => ?_⟩
    rcases List.mem_append.mp hm with hm | hm
    · exact retransmissionFailed_notMem_schedule _ now id _ hm
    · exact hlog id hm

/-- A message that the socket refuses at first is the same when it is sent and sent again. -/
example (peer : Address) :
    ((new .milliseconds { Config.standard with strategy := ⟨.constant, 10, 10⟩ }).effects
      [.create 7 peer () .owner, .setMessage 7 (.new .confirmable .get 0),
        .send 7 ⟨0⟩ .wouldBlock, .send 7 ⟨0⟩ .accepted, .tick ⟨10⟩ [.fault 5]]).transmissions.map
      (fun x => (x.datagram, x.reply)) =
    [([0x40, 1, 0, 7], .wouldBlock), ([0x40, 1, 0, 7], .accepted),
      ([0x40, 1, 0, 7], .fault 5)] := by
  cbv

end Engine

end Coap
