import Coap.Proofs.EngineInvariant
import Coap.Proofs.PunctualTimer
import Coap.Proofs.Timetable

namespace Coap

variable {κ : Type}

theorem Change.timer_of_silent {e : Engine κ} {id : UInt16} {t : Transaction κ}
    {t? : Option (Transaction κ)} (h : Change e id (some t) [] t?) :
    ∃ t', t? = some t' ∧ t'.timer = t.timer := by
  cases h with
  | stays => exact ⟨t, rfl, rfl⟩
  | message hm =>
    obtain ⟨_, rfl⟩ := Transaction.eq_of_setMessage hm
    exact ⟨_, rfl, rfl⟩
  | context => exact ⟨_, rfl, rfl⟩

theorem Change.none_of_silent {e : Engine κ} {id : UInt16} {t? : Option (Transaction κ)}
    (h : Change e id none [] t?) : t? = none := by
  cases h with
  | stays => rfl

namespace Engine

/-- The transaction with an id was sent at an instant, and since then its timer has granted a number
of retries, each at its deadline. -/
def Awaits (e : Engine κ) (id : UInt16) (start : Instant) (first : Millis) (retries : Nat) :
    Prop :=
  ∃ t timer, e.get? id = some t ∧ t.timer = some timer ∧
    timer.Counts e.config start first retries

/-- Operations that report the transaction with an id at its deadlines only, each within half of the
clock's range from an instant, with what they report and when. -/
inductive Attended (id : UInt16) (start : Instant) :
    Engine κ → List (Operation κ) → List (Instant × Occurrence) → Prop
  | done (e : Engine κ) : Attended id start e [] []
  | quiet {e : Engine κ} {o : Operation κ} {ops : List (Operation κ)}
      {told : List (Instant × Occurrence)} (silent : occurrences (e.report o) id = [])
      (rest : Attended id start (e.apply o).engine ops told) : Attended id start e (o :: ops) told
  | asked {e : Engine κ} {o : Operation κ} {ops : List (Operation κ)}
      {told : List (Instant × Occurrence)} {now : Instant} (asks : o.asks? = some now)
      (due : (e.get? id).bind (·.deadline? e.clock) = some now)
      (near : now.ticks - start.ticks ≤ Instant.half)
      (rest : Attended id start (e.apply o).engine ops told) :
      Attended id start e (o :: ops) ((occurrences (e.report o) id).map (now, ·) ++ told)

variable {e : Engine κ} {id : UInt16} {start now : Instant} {first : Millis} {retries : Nat}
  {o : Operation κ}

theorem Unique.awaits_quiet (h : e.Unique) (hw : e.Awaits id start first retries)
    (silent : occurrences (e.report o) id = []) :
    (e.apply o).engine.Awaits id start first retries := by
  obtain ⟨t, timer, found, running, counts⟩ := hw
  have hconfig := (e.transition o).frame.2.1
  have hchange := (e.transition o).change h id
  rw [found, silent] at hchange
  obtain ⟨t', found', htimer⟩ := hchange.timer_of_silent
  refine ⟨t', timer, found', htimer.trans running, ?_⟩
  rw [hconfig]
  exact counts

theorem Unique.asked (h : e.Unique) (asks : o.asks? = some now) (id : UInt16) :
    (e.apply o).engine.get? id = ((e.get? id).bind fun t => (visit e.clock now (some t)).slot) ∧
    occurrences (e.report o) id = (((e.get? id).bind fun t =>
      (visit e.clock now (some t)).due).map fun d => d.event.occurrence).toList := by
  have hengine : (e.apply o).engine = (e.schedule now).engine ∧
      e.report o = e.report (.schedule now) := by
    cases o with
    | schedule => cases asks; exact ⟨rfl, rfl⟩
    | tick => cases asks; exact ⟨rfl, rfl⟩
    | nextId | create | setMessage | setContext | send | complete | clear | receive | poll =>
      cases asks
  rw [hengine.1, hengine.2]
  exact ⟨h.get?_schedule now id, h.occurrences_schedule now id⟩

/-- A transaction that is asked at its deadline has waited for one more interval: it is
retransmitted and goes on waiting, or its budget is used up and it is given up. -/
theorem Unique.awaits_asked (h : e.Unique) (hclock : e.clock = .milliseconds)
    (hw : e.Awaits id start first retries) (asks : o.asks? = some now)
    (due : (e.get? id).bind (·.deadline? e.clock) = some now)
    (near : now.ticks - start.ticks ≤ Instant.half) :
    (now.ticks - start.ticks).toNat = e.config.strategy.elapsed first (retries + 1) ∧
    (retries < e.config.maxRetransmit.toNat ∧ occurrences (e.report o) id = [.retransmitted] ∧
        (e.apply o).engine.Awaits id start first (retries + 1) ∨
      retries = e.config.maxRetransmit.toNat ∧ occurrences (e.report o) id = [.abandoned] ∧
        (e.apply o).engine.get? id = none) := by
  obtain ⟨t, timer, found, running, counts⟩ := hw
  obtain ⟨hget, htold⟩ := h.asked asks id
  rw [found, Option.bind_some] at hget htold due
  have hd : timer.deadline? e.clock = some now := by
    rw [← Transaction.deadline?_of_timer running]
    exact due
  have hlast := counts.deadline (hclock ▸ hd)
  refine ⟨hlast, ?_⟩
  rcases counts.verdict hd with ⟨hv, hlt⟩ | ⟨hv, heq⟩
  · left
    rw [visit_of_retry running hv] at hget htold
    refine ⟨hlt, htold, _, timer.restart now, hget, rfl, ?_⟩
    rw [(e.transition o).frame.2.1]
    exact counts.restart hv hlast near
  · right
    rw [visit_of_giveUp running hv] at hget htold
    exact ⟨heq, htold, hget⟩

theorem Attended.eq_nil_of_free {ops : List (Operation κ)} {told : List (Instant × Occurrence)}
    (h : Attended id start e ops told) (hu : e.Unique) (free : e.get? id = none) : told = [] := by
  induction h with
  | done => rfl
  | @quiet e o ops told silent rest ih =>
    have hchange := (e.transition o).change hu id
    rw [free, silent] at hchange
    exact ih ((e.transition o).unique hu) hchange.none_of_silent
  | asked asks due near rest ih =>
    rw [free] at due
    cases due

theorem Attended.timetable {ops : List (Operation κ)} {told : List (Instant × Occurrence)}
    (h : Attended id start e ops told) (hu : e.Unique) (hclock : e.clock = .milliseconds)
    (hw : e.Awaits id start first retries) : e.config.Timetable start first retries told := by
  -- Along the run `Awaits` holds of the retries so far, until the transaction is given up.
  induction h generalizing retries with
  | done => exact .stop retries
  | @quiet e o ops told silent rest ih =>
    obtain ⟨hc, hconfig, _⟩ := (e.transition o).frame
    rw [← hconfig]
    exact ih ((e.transition o).unique hu) (hc.trans hclock) (hu.awaits_quiet hw silent)
  | @asked e o ops told now asks due near rest ih =>
    obtain ⟨hc, hconfig, _⟩ := (e.transition o).frame
    have hunique := (e.transition o).unique hu
    obtain ⟨hlast, ⟨hlt, htold, hnext⟩ | ⟨heq, htold, hgone⟩⟩ :=
      hu.awaits_asked hclock hw asks due near
    · rw [htold]
      refine .retransmitted hlt hlast near ?_
      rw [← hconfig]
      exact ih hunique (hc.trans hclock) hnext
    · -- The id is free now, and what creates it anew would be reported.
      rw [htold, rest.eq_nil_of_free hunique hgone]
      exact .abandoned heq hlast near

theorem Awaits.exists_deadline (hw : e.Awaits id start first retries)
    (hclock : e.clock = .milliseconds)
    (near : e.config.strategy.elapsed first (retries + 1) ≤ Instant.half.toNat) :
    ∃ now, (e.get? id).bind (·.deadline? e.clock) = some now ∧
      now.ticks - start.ticks ≤ Instant.half := by
  obtain ⟨t, timer, found, running, counts⟩ := hw
  rw [found, Option.bind_some, Transaction.deadline?_of_timer running, hclock]
  exact counts.exists_deadline near

theorem Awaits.budget (hw : e.Awaits id start first retries) :
    retries ≤ e.config.maxRetransmit.toNat := by
  obtain ⟨t, timer, found, running, counts⟩ := hw
  exact counts.budget

/-- If all its deadlines come within half of the clock's range, a transaction can be asked at each
of them until it is given up. -/
theorem Unique.exists_attended {e : Engine κ} {retries : Nat} (hu : e.Unique)
    (hclock : e.clock = .milliseconds) (hw : e.Awaits id start first retries)
    (near : e.config.strategy.elapsed first (e.config.maxRetransmit.toNat + 1) ≤
      Instant.half.toNat) :
    ∃ ops told now, Attended id start e ops (told ++ [(now, .abandoned)]) := by
  have hbudget := hw.budget
  have hnext : e.config.strategy.elapsed first (retries + 1) ≤ Instant.half.toNat :=
    Nat.le_trans (e.config.strategy.elapsed_mono first (by omega)) near
  obtain ⟨now, due, hnear⟩ := hw.exists_deadline hclock hnext
  -- It is asked at that deadline, and if it is retransmitted then, at all the later ones.
  have asks : (Operation.schedule now : Operation κ).asks? = some now := rfl
  obtain ⟨_, ⟨hlt, htold, hawaits⟩ | ⟨_, htold, _⟩⟩ := hu.awaits_asked hclock hw asks due hnear
  · obtain ⟨hc, hconfig, _⟩ := (e.transition (.schedule now)).frame
    have hunique := (e.transition (.schedule now)).unique hu
    obtain ⟨ops, told, later, rest⟩ := hunique.exists_attended (hc.trans hclock) hawaits (by
      rw [hconfig]
      exact near)
    have hrun := Attended.asked asks due hnear rest
    rw [htold] at hrun
    exact ⟨_, (now, .retransmitted) :: told, later, hrun⟩
  · have hrun := Attended.asked asks due hnear (.done _)
    rw [htold] at hrun
    exact ⟨_, [], now, hrun⟩
  -- Each retransmission takes one from what is left of the budget.
termination_by e.config.maxRetransmit.toNat - retries
decreasing_by
  rw [hconfig]
  omega

theorem Unique.awaits_send (hu : e.Unique) (bounds : e.config.strategy.min ≤ e.config.strategy.max)
    {t : Transaction κ} (found : e.get? id = some t) (confirmable : t.type = .confirmable)
    (fresh : t.timer = none) (written : t.wire ≠ []) (start : Instant) :
    (e.send id start .accepted).result = .ok () ∧
    ∃ first rest, e.config.strategy.firstInterval?
        (e.rng.getD (.ofSeed (e.jitterSeed start))) = some (first, rest) ∧
      (e.send id start .accepted).engine.Awaits id start first 0 := by
  obtain ⟨first, rest, drawn⟩ :=
    Strategy.firstInterval?_of_le bounds (e.rng.getD (.ofSeed (e.jitterSeed start)))
  have armed : e.arm? t start = some (some
      ⟨start, first, e.config.strategy, 0, e.config.maxRetransmit⟩, some rest) := by
    rw [arm?, confirmable, fresh, RetryTimer.start?, drawn]
    rfl
  have accepted : t.transmit .accepted = .ok () := Transaction.transmit_of_wire written .accepted
  have hid : ∀ u : Transaction κ, some { t with
      timer := some ⟨start, first, e.config.strategy, 0, e.config.maxRetransmit⟩
      progress := .sent } = some u → u.id = id := by
    rintro _ ⟨rfl⟩
    exact (mem_live_of_get? found).2
  have hget := hu.get?_replace hid id
  rw [if_pos rfl, found, Option.bind_some] at hget
  rw [send_of_armed found accepted armed]
  exact ⟨rfl, first, rest, drawn, _, _, hget, rfl, RetryTimer.counts_start e.config start first⟩

theorem Unique.inTime_of_send (hu : e.Unique) (hclock : e.clock = .milliseconds)
    (bounds : e.config.strategy.min ≤ e.config.strategy.max) {t : Transaction κ}
    (found : e.get? id = some t) (confirmable : t.type = .confirmable) (fresh : t.timer = none)
    (written : t.wire ≠ []) (start : Instant) :
    (e.send id start .accepted).result = .ok () ∧
    ∃ first rest, e.config.strategy.firstInterval?
        (e.rng.getD (.ofSeed (e.jitterSeed start))) = some (first, rest) ∧
      (∀ ops told, Attended id start (e.send id start .accepted).engine ops told →
        e.config.InTime start first told) ∧
      (e.config.strategy.elapsed first (e.config.maxRetransmit.toNat + 1) ≤ Instant.half.toNat →
        ∃ ops told now, Attended id start (e.send id start .accepted).engine ops
          (told ++ [(now, .abandoned)])) := by
  obtain ⟨hsent, first, rest, drawn, hawaits⟩ :=
    hu.awaits_send bounds found confirmable fresh written start
  obtain ⟨hc, hconfig, _⟩ := (e.transition (.send id start .accepted)).frame
  change (e.send id start .accepted).engine.clock = e.clock at hc
  change (e.send id start .accepted).engine.config = e.config at hconfig
  have hafter : (e.send id start .accepted).engine.Unique :=
    (e.transition (.send id start .accepted)).unique hu
  refine ⟨hsent, first, rest, drawn, ?_, ?_⟩
  · intro ops told hrun
    have htable := hrun.timetable hafter (hc.trans hclock) hawaits
    rw [hconfig] at htable
    exact htable.inTime (Strategy.firstInterval?_range drawn).2
  · intro near
    rw [← hconfig] at near
    exact hafter.exists_attended (hc.trans hclock) hawaits near

/-- On a clock that counts milliseconds, a confirmable transaction that is sent once and always
asked at its deadline is retransmitted within the longest span and given up within the longest wait
of the configuration, exactly at their ends if the longest first interval is drawn. Only for
intervals that stay the same and as many retransmissions as can be counted, the wait is an interval
short. As long as the deadlines come within half of the clock's range, it can be asked at all of
them. -/
theorem giveUp_inTime {config : Config} (bounds : config.strategy.min ≤ config.strategy.max)
    {past : List (Operation κ)} {e : Engine κ} (reached : (new .milliseconds config).run past = e)
    {id : UInt16} {t : Transaction κ} (found : e.get? id = some t)
    (confirmable : t.type = .confirmable) (fresh : t.timer = none) (written : t.wire ≠ [])
    (start : Instant) :
    (e.send id start .accepted).result = .ok () ∧
    ∃ first rest, config.strategy.firstInterval?
        (e.rng.getD (.ofSeed (e.jitterSeed start))) = some (first, rest) ∧
      (∀ ops told, Attended id start (e.send id start .accepted).engine ops told →
        config.InTime start first told) ∧
      (config.strategy.elapsed first (config.maxRetransmit.toNat + 1) ≤ Instant.half.toNat →
        ∃ ops told now, Attended id start (e.send id start .accepted).engine ops
          (told ++ [(now, .abandoned)])) := by
  obtain ⟨hclock, hconfig⟩ := run_frame (new .milliseconds config : Engine κ) past
  have hu : e.Unique := reached ▸ (run_sound (sound_new .milliseconds config) past).unique
  rw [reached] at hclock hconfig
  change e.clock = .milliseconds at hclock
  change e.config = config at hconfig
  subst hconfig
  exact hu.inTime_of_send hclock bounds found confirmable fresh written start

theorem giveUp_inTime_once :
    let config : Config :=
      { Config.standard with strategy := ⟨.constant, 10, 10⟩, maxRetransmit := 1 }
    let e : Engine Unit := (new .milliseconds config).run
      [.create 7 (.v4 ⟨#[10, 0, 0, 1], rfl⟩ 5683) () .owner,
        .setMessage 7 (.new .confirmable .get 0)]
    ∃ ops told now, told.length = 1 ∧ now = 20 ∧
      Attended 7 ⟨0⟩ (e.send 7 ⟨0⟩ .accepted).engine ops (told ++ [(⟨now⟩, .abandoned)]) := by
  intro config e
  have found : e.get? 7 = some ⟨7, .v4 ⟨#[10, 0, 0, 1], rfl⟩ 5683, .confirmable, .created,
      [0x40, 1, 0, 7], none, (), .owner⟩ := by
    subst e config
    cbv
  have bounds : config.strategy.min ≤ config.strategy.max := by decide
  obtain ⟨_, first, rest, drawn, htime, hrun⟩ :=
    giveUp_inTime bounds rfl found rfl rfl (by simp) ⟨0⟩
  have hfirst : first = 10 := by
    obtain ⟨hmin, hmax⟩ := Strategy.firstInterval?_range drawn
    exact UInt64.le_antisymm hmax hmin
  subst hfirst
  obtain ⟨ops, told, ⟨now⟩, hops⟩ := hrun (by decide)
  obtain ⟨hcount, _, hwait, _⟩ := (htime ops _ hops).abandoned told ⟨now⟩ [] rfl
  have hnow : now - 0 = 20 := (hwait (Or.inr (by decide))).2 rfl
  rw [UInt64.sub_zero] at hnow
  exact ⟨ops, told, now, hcount, hnow, hops⟩

/-- One interval of the longest budget is not counted. -/
theorem constant_giveUp_late :
    let config : Config :=
      { Config.standard with strategy := ⟨.constant, 1, 1⟩, maxRetransmit := 65535 }
    let e : Engine Unit := (new .milliseconds config).run
      [.create 7 (.v4 ⟨#[10, 0, 0, 1], rfl⟩ 5683) () .owner,
        .setMessage 7 (.new .confirmable .get 0)]
    config.maxTransmitWait = 65535 ∧ ∃ ops told now, now = 65536 ∧
      Attended 7 ⟨0⟩ (e.send 7 ⟨0⟩ .accepted).engine ops (told ++ [(⟨now⟩, .abandoned)]) := by
  intro config e
  have found : e.get? 7 = some ⟨7, .v4 ⟨#[10, 0, 0, 1], rfl⟩ 5683, .confirmable, .created,
      [0x40, 1, 0, 7], none, (), .owner⟩ := by
    subst e config
    cbv
  have hu : e.Unique := (run_sound (sound_new .milliseconds config) _).unique
  have bounds : config.strategy.min ≤ config.strategy.max := by decide
  have hconfig : e.config = config := (run_frame _ _).2
  obtain ⟨_, first, rest, drawn, htime, hrun⟩ :=
    hu.inTime_of_send (run_frame _ _).1 (hconfig ▸ bounds) found rfl rfl (by simp) ⟨0⟩
  rw [hconfig] at drawn htime hrun
  have hfirst : first = 1 := by
    obtain ⟨hmin, hmax⟩ := Strategy.firstInterval?_range drawn
    exact UInt64.le_antisymm hmax hmin
  subst hfirst
  have near : config.strategy.elapsed 1 (config.maxRetransmit.toNat + 1) ≤ Instant.half.toNat := by
    rw [Strategy.elapsed_constant rfl]
    decide
  obtain ⟨ops, told, ⟨now⟩, hops⟩ := hrun near
  obtain ⟨_, _, _, hlate⟩ := (htime ops _ hops).abandoned told ⟨now⟩ [] rfl
  have hnow : (now - 0).toNat = (65536 : UInt64).toNat := hlate rfl rfl
  rw [UInt64.sub_zero] at hnow
  exact ⟨by decide, ops, told, now, UInt64.toNat_inj.mp hnow, hops⟩

end Engine

end Coap
