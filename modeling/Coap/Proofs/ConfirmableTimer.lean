import Coap.Proofs.LatestMessage

namespace Coap

variable {κ : Type}

theorem RetryTimer.deadline?_of_isDue {c : Clock} {timer : RetryTimer} {now : Instant}
    (h : timer.isDue c now = true) : (timer.deadline? c).isSome := by
  unfold isDue at h
  cases hd : timer.deadline? c with
  | none =>
    rw [hd] at h
    cases h
  | some deadline => rfl

theorem RetryTimer.deadline?_of_verdict {c : Clock} {timer : RetryTimer} {now : Instant}
    (h : timer.verdict c now ≠ .wait) : (timer.deadline? c).isSome := by
  cases hd : timer.isDue c now with
  | true => exact deadline?_of_isDue hd
  | false => exact absurd (by simp [verdict, hd]) h

theorem Engine.arm?_confirmable {e : Engine κ} {t : Transaction κ} {now : Instant}
    {timer? : Option RetryTimer} {rng : Option ChaCha} (h : e.arm? t now = some (timer?, rng)) :
    timer? = t.timer ∨ t.type = .confirmable := by
  unfold arm? at h
  split at h
  next hc =>
    obtain ⟨hc, _⟩ := Bool.and_eq_true_iff.mp hc
    exact Or.inr (by simpa using hc)
  next =>
    cases h
    exact Or.inl rfl

/-- A deadline is there before, or it starts with a confirmable message. -/
theorem Change.deadline? {e : Engine κ} {id : UInt16} {t t' : Transaction κ}
    {told : List Occurrence} (h : Change e id (some t) told (some t'))
    (hd : (t'.deadline? e.clock).isSome) :
    (t.deadline? e.clock).isSome ∨ t.type = .confirmable := by
  cases h with
  | stays => exact Or.inl hd
  | message hm =>
    obtain ⟨_, rfl⟩ := Transaction.eq_of_setMessage hm
    exact Or.inl hd
  | context => exact Or.inl hd
  | sent accepted armed =>
    rcases Engine.arm?_confirmable armed with rfl | hc
    · exact Or.inl hd
    · exact Or.inr hc
  | retransmitted running due =>
    left
    rw [Transaction.deadline?_of_timer running]
    exact RetryTimer.deadline?_of_verdict (by rw [due]; decide)

namespace Engine

/-- Only confirmable messages have deadlines. -/
def Confirmed (e : Engine κ) : Prop :=
  ∀ t ∈ e.live, (t.deadline? e.clock).isSome → t.type = .confirmable

/-- An operation does not replace the message of a transaction with a deadline by one that is not
confirmable. -/
def Respects (e : Engine κ) (o : Operation κ) : Prop :=
  ∀ id m t t', o = .setMessage id m → e.get? id = some t → (t.deadline? e.clock).isSome →
    t.setMessage m = .ok t' → m.type = .confirmable

theorem Unique.confirmed_apply {e : Engine κ} (h : e.Unique) (hc : e.Confirmed) {o : Operation κ}
    (ho : e.Respects o) : (e.apply o).engine.Confirmed := by
  have hclock := (e.transition o).frame.1
  intro t' ht' hd
  rw [hclock] at hd
  have hget := ((e.transition o).unique h).get?_of_mem ht'
  have hchange := (e.transition o).change h t'.id
  rw [hget] at hchange
  -- The deadline of what is there after the operation is an old one, or it has just started.
  have before {t : Transaction κ} (found : e.get? t'.id = some t) :
      (t.deadline? e.clock).isSome ∨ t.type = .confirmable := by
    rw [found] at hchange
    exact hchange.deadline? hd
  cases h.origin o hget with
  | @kept _ t found same _ =>
    rw [same.type]
    rcases before found with hs | ht
    · exact hc t (mem_live_of_get? found).1 hs
    · exact ht
  | created fresh _ => rw [fresh]; rfl
  | @assigned t m found taken _ =>
    have hs : (t.deadline? e.clock).isSome := by
      obtain ⟨_, rfl⟩ := Transaction.eq_of_setMessage taken
      exact hd
    have hm := ho _ m t t' rfl found hs taken
    obtain ⟨_, rfl⟩ := Transaction.eq_of_setMessage taken
    exact hm

theorem Unique.confirmed_run {e : Engine κ} (h : e.Unique) (hc : e.Confirmed)
    {ops : List (Operation κ)}
    (ho : ∀ past o later, ops = past ++ o :: later → (e.run past).Respects o) :
    (e.run ops).Confirmed := by
  induction ops generalizing e with
  | nil => exact hc
  | cons o ops ih =>
    have hfirst := h.confirmed_apply hc (ho [] o ops rfl)
    refine ih ((e.transition o).unique h) hfirst ?_
    rintro past p later rfl
    exact ho (o :: past) p later rfl

theorem confirmed_new (clock : Clock) (config : Config) :
    (new clock config : Engine κ).Confirmed := by
  intro t ht
  rw [live_new] at ht
  cases ht

theorem deadline?_of_due {e : Engine κ} {now : Instant} {d : Due}
    (h : d ∈ (e.schedule now).result) :
    ∃ t ∈ e.live, t.id = d.event.id ∧ (t.deadline? e.clock).isSome := by
  rw [schedule_result] at h
  obtain ⟨t, ht, hd⟩ := List.mem_filterMap.mp h
  refine ⟨t, ht, (visit_due_id hd).symm, ?_⟩
  rcases visit_cases e.clock now t with hv | ⟨timer, running, due, _⟩ | ⟨timer, running, due, _⟩
  · rw [hv] at hd
    cases hd
  all_goals
    rw [Transaction.deadline?_of_timer running]
    exact RetryTimer.deadline?_of_verdict (by rw [due]; decide)

/-- Deadlines and what is due are those of confirmable messages as long as no message of another
type takes the place of one whose timer runs, and only as long: its timer goes on. -/
theorem confirmable_deadlines_iff (clock : Clock) (config : Config) (ops : List (Operation κ)) :
    (∀ past later, ops = past ++ later →
      (∀ t ∈ ((new clock config).run past).live,
        (t.deadline? clock).isSome → t.type = .confirmable) ∧
      ∀ now replies,
        (((new clock config).run past).tick now replies).result.1 =
          (((new clock config).run past).schedule now).result ∧
        ∀ d ∈ (((new clock config).run past).schedule now).result,
          ∃ t ∈ ((new clock config).run past).live, t.id = d.event.id ∧ t.type = .confirmable) ↔
    ∀ past o later, ops = past ++ o :: later → ((new clock config).run past).Respects o := by
  have hunique (past : List (Operation κ)) : ((new clock config).run past).Unique :=
    (run_sound (sound_new clock config) past).unique
  have hclock (past : List (Operation κ)) : ((new clock config).run past).clock = clock :=
    (run_frame (new clock config) past).1
  constructor
  · -- After the message has been replaced, its transaction has a deadline and the new type.
    rintro hall past _ later rfl id m t t' rfl found hd taken
    rw [hclock] at hd
    have hrun : (new clock config).run (past ++ [.setMessage id m]) =
        ((new clock config).run past).replace id (some t') := by
      rw [run_append]
      simp only [run, apply, setMessage, found, taken]
    have hmem : t' ∈ ((new clock config).run (past ++ [.setMessage id m])).live := by
      rw [hrun, live_replace]
      obtain ⟨ht, hid⟩ := mem_live_of_get? found
      exact List.mem_filterMap.mpr ⟨t, ht, if_pos hid⟩
    have hconfirmed := (hall (past ++ [.setMessage id m]) later (by simp)).1 t' hmem
    obtain ⟨_, rfl⟩ := Transaction.eq_of_setMessage taken
    exact hconfirmed hd
  · rintro hall past later rfl
    have hnew : (new clock config : Engine κ).Unique := hunique []
    have hc : ((new clock config).run past).Confirmed := by
      refine hnew.confirmed_run (confirmed_new clock config) ?_
      rintro front o back rfl
      exact hall front o (back ++ later) (by simp)
    unfold Confirmed at hc
    rw [hclock] at hc
    refine ⟨hc, fun now replies => ⟨rfl, fun d hd => ?_⟩⟩
    obtain ⟨t, ht, hid, hs⟩ := deadline?_of_due hd
    rw [hclock] at hs
    exact ⟨t, ht, hid, hc t ht hs⟩

/-- A message that wants no answer takes the place of a confirmable one that has been sent: it has
the deadline of the other and is due for retransmission. -/
theorem nonConfirmable_deadline :
    let e := (new .milliseconds { Config.standard with strategy := ⟨.constant, 10, 10⟩ }).run
      [.create 7 (.v4 ⟨#[10, 0, 0, 1], rfl⟩ 5683) () .owner,
        .setMessage 7 (.new .confirmable .get 0), .send 7 ⟨0⟩ .accepted,
        .setMessage 7 (.new .nonConfirmable .get 0)]
    e.live.map (fun t => (t.id, t.type, t.deadline? .milliseconds)) =
        [(7, .nonConfirmable, some ⟨10⟩)] ∧
      (e.schedule ⟨10⟩).result = [.retransmit 7] := by
  decide +kernel

end Engine

end Coap
