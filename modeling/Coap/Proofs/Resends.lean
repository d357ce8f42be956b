import Coap.Proofs.Transmissions

namespace Coap

variable {κ : Type}

namespace SendReply

/-- What a socket says to a number of datagrams in a row. It accepts when it has no more replies. -/
def answers : Nat → List SendReply → List SendReply
  | 0, _ => []
  | count + 1, replies => replies.headD .accepted :: answers count replies.tail

/-- The fault in an answer; that the socket would block is none. -/
def fault? : SendReply → Option TransmitError
  | fault code => some (.transport code)
  | accepted | wouldBlock => none

theorem length_answers (count : Nat) (replies : List SendReply) :
    (answers count replies).length = count := by
  induction count generalizing replies with
  | zero => rfl
  | succ count ih => rw [answers, List.length_cons, ih]

theorem fault?_result (reply : SendReply) : Engine.fault? reply.result = reply.fault? := by
  cases reply <;> rfl

end SendReply

/-- A datagram that is handed to the socket again, with the answer. -/
def Transaction.resent (t : Transaction κ) (reply : SendReply) : Transmission κ :=
  ⟨t.context, t.peer, t.wire, reply⟩

/-- All that sending a message again does. -/
def Transaction.resendEffects (t : Transaction κ) (reply : SendReply) : Effects κ :=
  ⟨[t.resent reply], [], .retransmission t.id t.retransmissions ::
    Engine.failureLog t.id reply.result⟩

/-- Operations that differ only in what the socket says to the resends of a tick. -/
inductive SameButReplies : List (Operation κ) → List (Operation κ) → Prop
  | nil : SameButReplies [] []
  | same (o : Operation κ) {ops ops' : List (Operation κ)} (rest : SameButReplies ops ops') :
      SameButReplies (o :: ops) (o :: ops')
  | tick (now : Instant) (replies replies' : List SendReply) {ops ops' : List (Operation κ)}
      (rest : SameButReplies ops ops') :
      SameButReplies (.tick now replies :: ops) (.tick now replies' :: ops')

theorem Effects.concat_zipWith_resendEffects (ts : List (Transaction κ))
    (answers : List SendReply) :
    (concat (List.zipWith Transaction.resendEffects ts answers)).transmissions =
        List.zipWith Transaction.resent ts answers ∧
      (concat (List.zipWith Transaction.resendEffects ts answers)).completions = [] := by
  induction ts generalizing answers with
  | nil => exact ⟨rfl, rfl⟩
  | cons t ts ih =>
    cases answers with
    | nil => exact ⟨rfl, rfl⟩
    | cons reply answers =>
      obtain ⟨hsent, hended⟩ := ih answers
      exact ⟨congrArg (t.resent reply :: ·) hsent, hended⟩

theorem filterMap_ids {find : UInt16 → Option (Transaction κ)} {ids : List UInt16}
    (h : ∀ id ∈ ids, ∃ t, find id = some t ∧ t.id = id) :
    (ids.filterMap find).map (·.id) = ids := by
  induction ids with
  | nil => rfl
  | cons id ids ih =>
    obtain ⟨t, hfind, hid⟩ := h id List.mem_cons_self
    have hrest := ih fun p hp => h p (List.mem_cons_of_mem id hp)
    rw [List.filterMap_cons_some hfind, List.map_cons, hid, hrest]

namespace Engine

/-- The ids of the transactions that are due for retransmission, in the order of the report. -/
def dueAgain (e : Engine κ) (now : Instant) : List UInt16 :=
  (e.schedule now).result.filterMap Due.retransmit?

/-- Those transactions, as the schedule leaves them. -/
def resumed (e : Engine κ) (now : Instant) : List (Transaction κ) :=
  (e.dueAgain now).filterMap (e.schedule now).engine.get?

/-- The due list of each operation. -/
def dues (e : Engine κ) : List (Operation κ) → List (List Due)
  | [] => []
  | o :: rest => o.due (e.apply o).result :: (e.apply o).engine.dues rest

/-- Each transaction is sent again, whatever the socket says to the ones before. -/
theorem resend_eq {e : Engine κ} {ts : List (Transaction κ)}
    (h : ∀ t ∈ ts, e.get? t.id = some t ∧ t.wire ≠ []) (replies : List SendReply) :
    e.resend (ts.map (·.id)) replies =
      ((SendReply.answers ts.length replies).findSome? SendReply.fault?,
        .concat (List.zipWith Transaction.resendEffects ts
          (SendReply.answers ts.length replies))) := by
  induction ts generalizing replies with
  | nil => rfl
  | cons t ts ih =>
    obtain ⟨hfound, hwire⟩ := h t List.mem_cons_self
    have hrest := ih (fun u hu => h u (List.mem_cons_of_mem t hu)) replies.tail
    have hhanded (reply : SendReply) : t.transmissions reply = [t.resent reply] := by
      have hw : t.wire.isEmpty = false := by simpa using hwire
      rw [Transaction.transmissions, hw]
      rfl
    rw [List.map_cons, resend, hfound]
    dsimp only
    rw [hhanded, List.length_singleton, List.drop_one, hrest, Transaction.transmit_of_wire hwire,
      SendReply.fault?_result, List.length_cons, SendReply.answers, List.findSome?_cons]
    cases (replies.headD .accepted).fault? with
    | none => rfl
    | some cause => rfl

theorem Unique.dueAgain_nodup {e : Engine κ} (h : e.Unique) (now : Instant) :
    (e.dueAgain now).Nodup := by
  have hid (d : Due) (id : UInt16) (hd : d.retransmit? = some id) : id = d.event.id := by
    cases d with
    | retransmit p => exact (Option.some.inj hd).symm
    | abandoned p => cases hd
  have hsub : ((e.dueAgain now).map fun id => id).Sublist
      ((e.schedule now).result.map (·.event.id)) :=
    map_filterMap_sublist hid (e.schedule now).result
  rw [List.map_id'] at hsub
  exact hsub.nodup (h.due_ids_nodup now)

theorem Sound.resumed_ids {e : Engine κ} (h : e.Sound) (now : Instant) :
    (e.resumed now).map (·.id) = e.dueAgain now := by
  apply filterMap_ids
  intro id hid
  obtain ⟨t, ht, _⟩ := h.hasDatagram_of_due now id hid
  exact ⟨t, ht, (mem_live_of_get? ht).2⟩

theorem Sound.mem_resumed {e : Engine κ} (h : e.Sound) {now : Instant} {t : Transaction κ}
    (ht : t ∈ e.resumed now) : (e.schedule now).engine.get? t.id = some t ∧ t.wire ≠ [] := by
  obtain ⟨id, hid, hfound⟩ := List.mem_filterMap.mp ht
  obtain ⟨u, hu, hwire⟩ := h.hasDatagram_of_due now id hid
  obtain rfl : u = t := Option.some.inj (hu.symm.trans hfound)
  exact ⟨(mem_live_of_get? hu).2.symm ▸ hu, hwire⟩

/-- A tick is a schedule, and then one send for each retransmission that is due. -/
theorem Sound.tick_eq {e : Engine κ} (h : e.Sound) (now : Instant) (replies : List SendReply) :
    e.tick now replies =
      ⟨((e.schedule now).result,
          (SendReply.answers (e.resumed now).length replies).findSome? SendReply.fault?),
        (e.schedule now).engine, (e.schedule now).effects ++
          .concat (List.zipWith Transaction.resendEffects (e.resumed now)
            (SendReply.answers (e.resumed now).length replies))⟩ := by
  have hready : ∀ t ∈ e.resumed now,
      (e.schedule now).engine.get? t.id = some t ∧ t.wire ≠ [] := fun t ht => h.mem_resumed ht
  have hresend := resend_eq hready replies
  rw [h.resumed_ids now] at hresend
  have htick : e.tick now replies =
      ⟨((e.schedule now).result, ((e.schedule now).engine.resend (e.dueAgain now) replies).1),
        (e.schedule now).engine,
        (e.schedule now).effects ++
          ((e.schedule now).engine.resend (e.dueAgain now) replies).2⟩ := rfl
  rw [htick, hresend]

theorem dues_eq_of_sameButReplies {ops ops' : List (Operation κ)} (h : SameButReplies ops ops')
    (e : Engine κ) :
    e.run ops = e.run ops' ∧ e.dues ops = e.dues ops' ∧ e.history ops = e.history ops' ∧
      (e.effects ops).completions = (e.effects ops').completions := by
  induction h generalizing e with
  | nil => exact ⟨rfl, rfl, rfl, rfl⟩
  | same o rest ih =>
    obtain ⟨hrun, hdues, hhistory, hended⟩ := ih (e.apply o).engine
    exact ⟨hrun, congrArg (_ :: ·) hdues, congrArg (_ ++ ·) hhistory, congrArg (_ ++ ·) hended⟩
  | tick now replies replies' rest ih =>
    -- The replies change only what the resends report.
    obtain ⟨hrun, hdues, hhistory, hended⟩ := ih (e.schedule now).engine
    have hsilent (replies : List SendReply) :
        (e.tick now replies).effects.completions = (e.schedule now).effects.completions := by
      change _ ++ (resend _ _ _).2.completions = _
      rw [resend_completions, List.append_nil]
    refine ⟨hrun, congrArg (_ :: ·) hdues, congrArg (_ ++ ·) hhistory, ?_⟩
    change (e.tick now replies).effects.completions ++
        ((e.schedule now).engine.effects _).completions =
      (e.tick now replies').effects.completions ++ ((e.schedule now).engine.effects _).completions
    rw [hsilent, hsilent, hended]

/-- A tick leaves the engine as the schedule leaves it and says the same. It hands the datagram of
each transaction that is due for retransmission to the socket once, in that order and whatever the
socket says, and gives the first fault. So nothing depends on what the socket says to resends but
the faults. -/
theorem tick_refines_schedule (clock : Clock) (config : Config) (past : List (Operation κ)) :
    let e := (new clock config : Engine κ).run past
    (∀ now replies,
      (e.tick now replies).engine = (e.schedule now).engine ∧
      (e.tick now replies).result.1 = (e.schedule now).result ∧
      (e.tick now replies).effects.completions = (e.schedule now).effects.completions ∧
      (e.resumed now).map (·.id) = (e.schedule now).result.filterMap Due.retransmit? ∧
      ((e.schedule now).result.filterMap Due.retransmit?).Nodup ∧
      (∀ t ∈ e.resumed now, (e.schedule now).engine.get? t.id = some t) ∧
      (e.tick now replies).effects.transmissions = List.zipWith Transaction.resent
        (e.resumed now) (SendReply.answers (e.resumed now).length replies) ∧
      (e.tick now replies).effects.transmissions.length =
        ((e.schedule now).result.filterMap Due.retransmit?).length ∧
      (e.tick now replies).result.2 =
        (SendReply.answers (e.resumed now).length replies).findSome? SendReply.fault?) ∧
    ∀ ops ops', SameButReplies ops ops' →
      e.run ops = e.run ops' ∧ e.dues ops = e.dues ops' ∧ e.history ops = e.history ops' ∧
        (e.effects ops).completions = (e.effects ops').completions := by
  intro e
  have hsound : e.Sound := run_sound (sound_new clock config) past
  refine ⟨fun now replies => ?_, fun ops ops' h => dues_eq_of_sameButReplies h e⟩
  have hids := hsound.resumed_ids now
  have htick := hsound.tick_eq now replies
  obtain ⟨hsent, hended⟩ := Effects.concat_zipWith_resendEffects (e.resumed now)
    (SendReply.answers (e.resumed now).length replies)
  have hcompletions := congrArg (fun s => s.effects.completions) htick
  have htransmissions : (e.tick now replies).effects.transmissions =
      List.zipWith Transaction.resent (e.resumed now)
        (SendReply.answers (e.resumed now).length replies) := by
    refine (congrArg (fun s => s.effects.transmissions) htick).trans ?_
    change (e.schedule now).effects.transmissions ++ (Effects.concat _).transmissions = _
    rw [schedule_transmissions, hsent, List.nil_append]
  refine ⟨rfl, rfl, ?_, hids, hsound.unique.dueAgain_nodup now,
    fun t ht => (hsound.mem_resumed ht).1, htransmissions, ?_,
    congrArg (fun s => s.result.2) htick⟩
  · refine hcompletions.trans ?_
    change _ ++ (Effects.concat _).completions = _
    rw [hended, List.append_nil]
  · have hcount : (e.resumed now).length = (e.dueAgain now).length := by
      rw [← hids, List.length_map]
    rw [htransmissions, List.length_zipWith, SendReply.length_answers, Nat.min_self, hcount]
    rfl

end Engine

end Coap
