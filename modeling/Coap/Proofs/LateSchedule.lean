import Coap.Proofs.NextDeadline
import Coap.Proofs.RetryRun

namespace Coap

variable {κ : Type}

/-- What is added to an instant is ahead of it, unless it is nothing. -/
theorem Instant.reached_add_iff {now : Instant} {ticks : UInt64} (hle : ticks.toNat ≤ half.toNat) :
    now.reached ⟨now.ticks + ticks⟩ = true ↔ ticks = 0 := by
  have hhalf : half.toNat = 9223372036854775807 := rfl
  by_cases hz : ticks = 0
  · have hsame : (⟨now.ticks + ticks⟩ : Instant) = now := by rw [hz, UInt64.add_zero]
    rw [hsame]
    exact iff_of_true now.reached_self hz
  · have hpos : 0 < ticks.toNat := Nat.pos_of_ne_zero fun h => hz (UInt64.toNat_inj.mp h)
    have hnow := now.ticks.toNat_lt
    have hahead : (now.ticks - (now.ticks + ticks)).toNat = 18446744073709551616 - ticks.toNat := by
      rw [UInt64.toNat_sub, UInt64.toNat_add]
      omega
    have hne : now ≠ ⟨now.ticks + ticks⟩ := by
      intro he
      have hticks := congrArg (fun i : Instant => i.ticks.toNat) he
      rw [UInt64.toNat_add] at hticks
      omega
    have hlt : now.compare ⟨now.ticks + ticks⟩ = .lt := by
      simp only [compare, if_neg hne, UInt64.lt_iff_toNat_lt, ← UInt64.toNat_inj, hahead]
      rw [if_neg (by omega), if_neg (by omega)]
    have hreached : now.reached ⟨now.ticks + ticks⟩ = false := by rw [reached, hlt]; rfl
    rw [hreached]
    exact iff_of_false Bool.false_ne_true hz

/-- A timer that starts again is due at once only if its next interval takes no tick. -/
theorem RetryTimer.due_restart_iff {c : Clock} {timer : RetryTimer} {now : Instant} :
    (∃ d, (timer.restart now).deadline? c = some d ∧ now.reached d = true) ↔
      c.ofMillis? (timer.strategy.next timer.interval) = some 0 := by
  have hdeadline (d : Instant) : (timer.restart now).deadline? c = some d ↔
      ∃ ticks, c.ofMillis? (timer.strategy.next timer.interval) = some ticks ∧
        ticks.toNat ≤ Instant.half.toNat ∧ d = ⟨now.ticks + ticks⟩ := Instant.add?_eq_some_iff
  constructor
  · rintro ⟨d, hd, hreached⟩
    obtain ⟨ticks, hticks, hle, rfl⟩ := (hdeadline d).mp hd
    rw [hticks, (Instant.reached_add_iff hle).mp hreached]
  · intro hzero
    exact ⟨_, (hdeadline _).mpr ⟨0, hzero, Nat.zero_le _, rfl⟩,
      (Instant.reached_add_iff (Nat.zero_le _)).mpr rfl⟩

namespace Engine

theorem Unique.mem_retransmit_iff {e : Engine κ} (h : e.Unique) {now : Instant} {id : UInt16} :
    .retransmit id ∈ (e.schedule now).result ↔ ∃ t timer, e.get? id = some t ∧
      t.timer = some timer ∧ timer.verdict e.clock now = .retry := by
  rw [schedule_result, List.mem_filterMap]
  constructor
  · rintro ⟨t, ht, hdue⟩
    rcases visit_cases e.clock now t with hv | ⟨timer, running, due, hv⟩ | ⟨timer, _, _, hv⟩
    · rw [hv] at hdue
      cases hdue
    · rw [hv] at hdue
      obtain rfl := Due.retransmit.inj (Option.some.inj hdue)
      exact ⟨t, timer, h.get?_of_mem ht, running, due⟩
    · rw [hv] at hdue
      cases hdue
  · rintro ⟨t, timer, found, running, due⟩
    obtain ⟨ht, rfl⟩ := mem_live_of_get? found
    exact ⟨t, ht, congrArg Visit.due (visit_of_retry running due)⟩

theorem Unique.get?_schedule_of_retry {e : Engine κ} (h : e.Unique) {now : Instant} {id : UInt16}
    {t : Transaction κ} {timer : RetryTimer} (found : e.get? id = some t)
    (running : t.timer = some timer) (due : timer.verdict e.clock now = .retry) :
    (e.schedule now).engine.get? id = some { t with timer := some (timer.restart now) } := by
  rw [h.get?_schedule, found, Option.bind_some, visit_of_retry running due]

/-- A second question at the same instant is answered for those whose timers started again and need
no tick. -/
theorem Unique.mem_again_iff {e : Engine κ} (h : e.Unique) {now : Instant} {id : UInt16} :
    id ∈ ((e.schedule now).engine.schedule now).result.map (·.event.id) ↔
      ∃ t timer, e.get? id = some t ∧ t.timer = some timer ∧
        timer.verdict e.clock now = .retry ∧
        e.clock.ofMillis? (timer.strategy.next timer.interval) = some 0 := by
  rw [(h.schedule now).mem_due_ids_iff, h.get?_schedule]
  constructor
  · rintro ⟨t', d, hslot, hd, hreached⟩
    obtain ⟨t, found, hslot⟩ := Option.bind_eq_some_iff.mp hslot
    rcases visit_cases e.clock now t with hv | ⟨timer, running, due, hv⟩ | ⟨timer, _, _, hv⟩
    · rw [hv] at hslot
      obtain rfl := Option.some.inj hslot
      -- Its deadline has been reached, so the first question was answered for it.
      obtain ⟨due, hdue⟩ := visit_of_reached (c := e.clock) hd hreached
      rw [hv] at hdue
      cases hdue
    · rw [hv] at hslot
      obtain rfl := Option.some.inj hslot
      exact ⟨t, timer, found, running, due, RetryTimer.due_restart_iff.mp ⟨d, hd, hreached⟩⟩
    · rw [hv] at hslot
      cases hslot
  · rintro ⟨t, timer, found, running, due, hzero⟩
    obtain ⟨d, hd, hreached⟩ := RetryTimer.due_restart_iff.mpr hzero
    rw [found, Option.bind_some, visit_of_retry running due]
    exact ⟨_, d, rfl, hd, hreached⟩

theorem Unique.mem_again_iff_of_retry {e : Engine κ} (h : e.Unique) {now : Instant} {id : UInt16}
    {t : Transaction κ} {timer : RetryTimer} (found : e.get? id = some t)
    (running : t.timer = some timer) (due : timer.verdict e.clock now = .retry) :
    id ∈ ((e.schedule now).engine.schedule now).result.map (·.event.id) ↔
      e.clock.ofMillis? (timer.strategy.next timer.interval) = some 0 := by
  rw [h.mem_again_iff]
  constructor
  · rintro ⟨t', timer', found', running', _, hzero⟩
    obtain rfl := Option.some.inj (found.symm.trans found')
    obtain rfl := Option.some.inj (running.symm.trans running')
    exact hzero
  · exact fun hzero => ⟨t, timer, found, running, due, hzero⟩

theorem Unique.schedule_of_nothing_due {e : Engine κ} (h : e.Unique) {now : Instant}
    (nothing : ∀ id, id ∉ (e.schedule now).result.map (·.event.id)) :
    e.schedule now = ⟨[], e, .none⟩ := by
  apply schedule_of_early
  intro t ht d hd
  rw [← Bool.not_eq_true]
  intro hreached
  exact nothing t.id (h.mem_due_ids_iff.mpr ⟨t, d, h.get?_of_mem ht, hd, hreached⟩)

/-- A second question at the same instant finds nothing if every timer that started again has a
deadline ahead of it, or none. -/
theorem Unique.schedule_again_of_long {e : Engine κ} (h : e.Unique) {now : Instant}
    (long : ∀ id t timer, .retransmit id ∈ (e.schedule now).result →
      (e.schedule now).engine.get? id = some t → t.timer = some timer →
      (∃ ticks, e.clock.ofMillis? timer.interval = some ticks ∧ 0 < ticks) ∨
        timer.deadline? e.clock = none) :
    (e.schedule now).engine.schedule now = ⟨[], (e.schedule now).engine, .none⟩ := by
  apply (h.schedule now).schedule_of_nothing_due
  intro id hid
  obtain ⟨t, timer, found, running, due, hzero⟩ := h.mem_again_iff.mp hid
  have hdue := h.mem_retransmit_iff.mpr ⟨t, timer, found, running, due⟩
  rcases long id _ _ hdue (h.get?_schedule_of_retry found running due) rfl with
    ⟨ticks, hticks, hpos⟩ | hnone
  · obtain rfl := Option.some.inj (hzero.symm.trans hticks)
    cases hpos
  · obtain ⟨d, hd, _⟩ :
        ∃ d, (timer.restart now).deadline? e.clock = some d ∧ now.reached d = true :=
      RetryTimer.due_restart_iff.mpr hzero
    rw [hnone] at hd
    cases hd

/-- However late it is asked, an engine names each live transaction at most once. Asked again at the
same instant, it names those again that it named as due for a retransmission and whose next interval
takes no tick of the clock, and no others; without such a one, it names nothing and stays as it is.
-/
theorem schedule_noBurst (clock : Clock) (config : Config) (past : List (Operation κ))
    (now : Instant) :
    let e := (new clock config : Engine κ).run past
    let s := e.schedule now
    let again := s.engine.schedule now
    (s.result.map (·.event.id)).Nodup ∧
    (∀ due ∈ s.result, ∃ t ∈ e.live, t.id = due.event.id) ∧
    (∀ id, .retransmit id ∈ s.result → ∃ t timer, e.get? id = some t ∧ t.timer = some timer ∧
      s.engine.get? id = some { t with timer := some (timer.restart now) } ∧
      (timer.restart now).interval = config.strategy.next timer.interval ∧
      (id ∈ again.result.map (·.event.id) ↔
        clock.ofMillis? (config.strategy.next timer.interval) = some 0)) ∧
    (∀ id ∈ again.result.map (·.event.id), .retransmit id ∈ s.result) ∧
    ((∀ id t timer, .retransmit id ∈ s.result → s.engine.get? id = some t →
        t.timer = some timer →
        (∃ ticks, clock.ofMillis? timer.interval = some ticks ∧ 0 < ticks) ∨
          timer.deadline? clock = none) →
      again = ⟨[], s.engine, .none⟩) := by
  intro e s again
  have hs : e.Sound := run_sound (sound_new clock config) past
  have hu := hs.unique
  obtain ⟨hclock, hconfig⟩ : e.clock = clock ∧ e.config = config := run_frame _ past
  have hstrategy {id : UInt16} {t : Transaction κ} {timer : RetryTimer} (found : e.get? id = some t)
      (running : t.timer = some timer) : timer.strategy = config.strategy := by
    have hregular := (hs.transactions t (mem_live_of_get? found).1).timer timer running
    rw [hregular.strategy, hconfig]
  refine ⟨hu.due_ids_nodup now, ?_, ?_, ?_, ?_⟩
  · intro due hdue
    obtain ⟨t, _, found, _⟩ := hu.mem_due_ids_iff.mp (List.mem_map_of_mem hdue)
    obtain ⟨ht, hid⟩ := mem_live_of_get? found
    exact ⟨t, ht, hid⟩
  · intro id hdue
    obtain ⟨t, timer, found, running, due⟩ := hu.mem_retransmit_iff.mp hdue
    have hnext := hstrategy found running
    have hagain := hu.mem_again_iff_of_retry found running due
    rw [hnext, hclock] at hagain
    exact ⟨t, timer, found, running, hu.get?_schedule_of_retry found running due,
      congrArg (·.next timer.interval) hnext, hagain⟩
  · intro id hid
    obtain ⟨t, timer, found, running, due, _⟩ := hu.mem_again_iff.mp hid
    exact hu.mem_retransmit_iff.mpr ⟨t, timer, found, running, due⟩
  · intro hlong
    rw [← hclock] at hlong
    exact hu.schedule_again_of_long hlong

/-- A message that is sent at 0 and repeated after 10 ticks, asked about at 55: five intervals are
over, and it is due once. -/
theorem schedule_noBurst_late :
    let e := (new .milliseconds { Config.standard with strategy := ⟨.constant, 10, 10⟩ }).run
      [.create 7 (.v4 ⟨#[10, 0, 0, 1], rfl⟩ 5683) () .owner,
        .setMessage 7 (.new .confirmable .get 0), .send 7 ⟨0⟩ .accepted]
    let s := e.schedule ⟨55⟩
    s.result = [.retransmit 7] ∧
    (∀ id t timer, .retransmit id ∈ s.result → s.engine.get? id = some t → t.timer = some timer →
      (∃ ticks, Clock.milliseconds.ofMillis? timer.interval = some ticks ∧ 0 < ticks) ∨
        timer.deadline? .milliseconds = none) ∧
    s.engine.schedule ⟨55⟩ = ⟨[], s.engine, .none⟩ := by
  intro e s
  have hdue : s.result = [.retransmit 7] := by decide +kernel
  have htimer : ((s.engine.get? 7).bind (·.timer)).map (·.interval) = some 10 := by decide +kernel
  have hlong : ∀ id t timer, .retransmit id ∈ s.result → s.engine.get? id = some t →
      t.timer = some timer →
      (∃ ticks, Clock.milliseconds.ofMillis? timer.interval = some ticks ∧ 0 < ticks) ∨
        timer.deadline? .milliseconds = none := by
    intro id t timer hid found running
    rw [hdue] at hid
    obtain rfl := Due.retransmit.inj (List.mem_singleton.mp hid)
    rw [found, Option.bind_some, running] at htimer
    have hinterval : timer.interval = 10 := Option.some.inj htimer
    rw [hinterval]
    exact Or.inl ⟨10, by decide, by decide⟩
  obtain ⟨_, _, _, _, hquiet⟩ := schedule_noBurst .milliseconds
    { Config.standard with strategy := ⟨.constant, 10, 10⟩ }
    [.create 7 (.v4 ⟨#[10, 0, 0, 1], rfl⟩ 5683) () .owner,
      .setMessage 7 (.new .confirmable .get 0), .send 7 ⟨0⟩ .accepted] ⟨55⟩
  exact ⟨hdue, hlong, hquiet hlong⟩

end Engine

end Coap
