import Coap.Proofs.Lifecycle

namespace Coap

variable {κ : Type}

theorem Ongoing.countP_isAbandoned {limit : Nat} {s s' : Standing} {os : List Occurrence}
    (h : Ongoing limit s os s') : os.countP (·.isAbandoned) = 0 := by
  apply List.countP_eq_zero.mpr
  intro o ho ha
  have hsteady := (h.steady o ho).2
  cases o with
  | abandoned => cases hsteady
  | created | sent | retransmitted | answered | cleared => cases ha

/-- From its creation on, a transaction counts what has been reported, up to the limit. -/
theorem Ongoing.countP_isRetransmitted {limit : Nat} {peer : Address} {observer : Observer}
    {os : List Occurrence} {s : Standing} (h : Ongoing limit (.start peer observer) os s) :
    os.countP (·.isRetransmitted) = s.retransmissions ∧ s.retransmissions ≤ limit := by
  have hcount := h.retransmissions
  have hlimit := h.limit (Nat.zero_le limit)
  simp only [Standing.start] at hcount
  omega

theorem Path.lifespan_budget {limit : Nat} {peer : Address} {observer : Observer}
    {os : List Occurrence} {last : Option Standing}
    (h : Path limit (some (.start peer observer)) os last) :
    (lifespan os).countP (·.isRetransmitted) ≤ limit ∧
      (lifespan os).countP (·.isAbandoned) ≤ 1 := by
  rcases h.lifespan_cases with ⟨s, _, _, ho⟩ | ⟨front, ending, s, hl, ho, he, _⟩
  · obtain ⟨hcount, hlimit⟩ := ho.countP_isRetransmitted
    have habandoned := ho.countP_isAbandoned
    omega
  · obtain ⟨hcount, hlimit⟩ := ho.countP_isRetransmitted
    have habandoned := ho.countP_isAbandoned
    -- What ends a transaction is no retransmission.
    have hretransmitted : [ending].countP (·.isRetransmitted) = 0 := by cases he <;> rfl
    have hending : [ending].countP (·.isAbandoned) ≤ 1 := List.countP_le_length
    rw [hl, List.countP_append, List.countP_append]
    omega

/-- Only what was sent since its creation is sent again or given up. -/
theorem Path.sent_of_due {limit : Nat} {before : List Occurrence} {s : Standing}
    (h : Path limit none before (some s)) (hs : s.progress = .sent) :
    ∃ front peer observer middle, before = front ++ .created peer observer :: middle ∧
      (∀ x ∈ middle, x.isCreated = false ∧ x.isEnd = false) ∧ Occurrence.sent ∈ middle := by
  obtain ⟨front, peer, observer, middle, heq, ho⟩ := h.created
  rcases ho.sent hs with hstart | hsent
  · cases hstart
  · exact ⟨front, peer, observer, middle, heq, ho.steady, hsent⟩

/-- What is at most sent keeps its count. -/
theorem Change.retransmissions_eq {e : Engine κ} {id : UInt16} {t? t?' : Option (Transaction κ)}
    {told : List Occurrence} (h : Change e id t? told t?') (hsent : ∀ o ∈ told, o = .sent) :
    t?'.map (·.retransmissions) = t?.map (·.retransmissions) := by
  cases h with
  | stays => rfl
  | message hm =>
    obtain ⟨_, rfl⟩ := Transaction.eq_of_setMessage hm
    rfl
  | context => rfl
  | sent accepted armed => exact congrArg some (Engine.retransmissions_of_arm? armed)
  | created | retransmitted | abandoned | answered | cleared =>
    cases hsent _ List.mem_cons_self

namespace Engine

theorem report_send (e : Engine κ) (id : UInt16) (now : Instant) (reply : SendReply) :
    ∀ v ∈ e.report (.send id now reply), v = ⟨id, .sent⟩ := by
  intro v hv
  simp only [report, apply] at hv
  cases hr : (e.send id now reply).result with
  | error err =>
    rw [hr] at hv
    cases hv
  | ok u =>
    rw [hr] at hv
    exact List.mem_singleton.mp hv

theorem Sound.retransmissions_send {e : Engine κ} (h : e.Sound) (id : UInt16) (now : Instant)
    (reply : SendReply) (p : UInt16) :
    ((e.send id now reply).engine.get? p).map (·.retransmissions) =
      (e.get? p).map (·.retransmissions) := by
  have hchange := (e.transition (.send id now reply)).change h.unique p
  apply hchange.retransmissions_eq
  intro o ho
  obtain ⟨v, hv, hvo⟩ := List.mem_filterMap.mp ho
  split at hvo
  next =>
    obtain rfl := Option.some.inj hvo
    rw [e.report_send id now reply v hv]
  next => cases hvo

/-- A transaction counts the retransmissions that are reported for it. They stay within the limit,
it is given up once when they have reached it, and neither is reported for an id that has not been
created and sent since its last end. What the socket says has no part in it. -/
theorem retransmissions_budget (clock : Clock) (config : Config) (ops : List (Operation κ)) :
    (∀ id t, ((new clock config).run ops).get? id = some t →
      ∃ before peer observer after, occurrences ((new clock config).history ops) id =
          before ++ .created peer observer :: after ∧
        (∀ x ∈ after, x.isCreated = false ∧ x.isEnd = false) ∧
        t.retransmissions.toNat = after.countP (·.isRetransmitted)) ∧
    (∀ id before peer observer after, occurrences ((new clock config).history ops) id =
        before ++ .created peer observer :: after →
      (lifespan after).countP (·.isRetransmitted) ≤ config.maxRetransmit.toNat ∧
      (lifespan after).countP (·.isAbandoned) ≤ 1 ∧
      ∀ front back, lifespan after = front ++ .abandoned :: back →
        front.countP (·.isRetransmitted) = config.maxRetransmit.toNat ∧ back = [] ∧
        (lifespan after = after → ((new clock config).run ops).get? id = none)) ∧
    (∀ id before o after, occurrences ((new clock config).history ops) id = before ++ o :: after →
      o = .retransmitted ∨ o = .abandoned →
      ∃ front peer observer middle, before = front ++ .created peer observer :: middle ∧
        (∀ x ∈ middle, x.isCreated = false ∧ x.isEnd = false) ∧ .sent ∈ middle) ∧
    (∀ id now reply,
      (∀ v ∈ ((new clock config).run ops).report (.send id now reply), v = ⟨id, .sent⟩) ∧
      ∀ p, ((((new clock config).run ops).send id now reply).engine.get? p).map
          (·.retransmissions) = (((new clock config).run ops).get? p).map (·.retransmissions)) ∧
    ∀ now replies,
      (((new clock config).run ops).tick now replies).engine =
        (((new clock config).run ops).schedule now).engine ∧
      ((new clock config).run ops).report (.tick now replies) =
        ((new clock config).run ops).report (.schedule now) := by
  have hsound : ((new clock config).run ops).Sound := run_sound (sound_new clock config) ops
  refine ⟨?_, ?_, ?_, ?_, fun now replies => ⟨rfl, rfl⟩⟩
  · intro id t ht
    obtain ⟨before, peer, observer, after, heq, ho⟩ := exists_created_of_get? ht
    exact ⟨before, peer, observer, after, heq, ho.steady, ho.countP_isRetransmitted.1.symm⟩
  · intro id before peer observer after heq
    have hpath := path_after_created heq
    obtain ⟨hretransmitted, habandoned⟩ := hpath.lifespan_budget
    refine ⟨hretransmitted, habandoned, ?_⟩
    intro front back hl
    obtain ⟨hback, s, ho, he, hlast⟩ := hpath.end_of_lifespan hl rfl
    have hgone : lifespan after = after → ((new clock config).run ops).get? id = none :=
      fun hall => Option.map_eq_none_iff.mp (hlast hall)
    cases he with
    | abandoned _ hreached => exact ⟨ho.countP_isRetransmitted.1.trans hreached, hback, hgone⟩
  · intro id before o after heq hdue
    have hpath := path_history clock config ops id
    rw [heq] at hpath
    obtain ⟨s?, hbefore, hrest⟩ := hpath.exists_of_append
    cases hrest with
    | cons first rest =>
      rcases hdue with rfl | rfl
      · cases first with
        | retransmitted hs _ => exact hbefore.sent_of_due hs
      · cases first with
        | abandoned hs _ => exact hbefore.sent_of_due hs
  · intro id now reply
    exact ⟨report_send _ id now reply, fun p => hsound.retransmissions_send id now reply p⟩

end Engine

end Coap
