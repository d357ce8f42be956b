import Coap.Proofs.EngineInvariant
import Coap.Proofs.InstantOrder

namespace Coap

variable {κ : Type}

namespace Engine

/-- Whether an instant and all deadlines come less than half of the clock's range after a start. -/
def InWindow (e : Engine κ) (start now : Instant) : Prop :=
  start.Within now ∧ ∀ t ∈ e.live, ∀ d, t.deadline? e.clock = some d → start.Within d

/-- Whether an operation asks what is due before anything is, in a window with all deadlines. -/
def Early (e : Engine κ) (o : Operation κ) : Prop :=
  ∃ start now, o.asks? = some now ∧ e.InWindow start now ∧
    ∀ d, e.nextDeadline? = some d → now.compare d = .lt

theorem visit_of_early {c : Clock} {now : Instant} {t : Transaction κ}
    (h : ∀ d, t.deadline? c = some d → now.reached d = false) :
    visit c now (some t) = ⟨some t, none, .none⟩ := by
  cases ht : t.timer with
  | none => simp only [visit, ht]
  | some timer =>
    rw [Transaction.deadline?_of_timer ht] at h
    simp only [visit, ht, RetryTimer.verdict_eq_wait_iff.mpr h]

theorem visit_of_reached {c : Clock} {now d : Instant} {t : Transaction κ}
    (hd : t.deadline? c = some d) (h : now.reached d = true) :
    ∃ due, (visit c now (some t)).due = some due := by
  obtain ⟨timer, ht, htd⟩ := Option.bind_eq_some_iff.mp hd
  cases hv : timer.verdict c now with
  | wait =>
    have hearly := RetryTimer.verdict_eq_wait_iff.mp hv d htd
    rw [hearly] at h
    cases h
  | retry => exact ⟨_, congrArg Visit.due (visit_of_retry ht hv)⟩
  | giveUp => exact ⟨_, congrArg Visit.due (visit_of_giveUp ht hv)⟩

theorem exists_due_iff {c : Clock} {now : Instant} {t : Transaction κ} :
    (∃ due, (visit c now (some t)).due = some due) ↔
      ∃ d, t.deadline? c = some d ∧ now.reached d = true := by
  constructor
  · rintro ⟨due, hdue⟩
    apply Classical.byContradiction
    intro hnone
    have hearly : ∀ d, t.deadline? c = some d → now.reached d = false := by
      intro d hd
      rw [← Bool.not_eq_true]
      exact fun hr => hnone ⟨d, hd, hr⟩
    rw [visit_of_early hearly] at hdue
    cases hdue
  · rintro ⟨d, hd, hr⟩
    exact visit_of_reached hd hr

/-- What is due is said about the transactions whose deadlines have come. -/
theorem Unique.mem_due_ids_iff {e : Engine κ} (h : e.Unique) {now : Instant} {id : UInt16} :
    id ∈ (e.schedule now).result.map (·.event.id) ↔
      ∃ t d, e.get? id = some t ∧ t.deadline? e.clock = some d ∧ now.reached d = true := by
  rw [schedule_result, List.mem_map]
  constructor
  · rintro ⟨due, hdue, rfl⟩
    obtain ⟨t, ht, hvisit⟩ := List.mem_filterMap.mp hdue
    obtain ⟨d, hd, hr⟩ := exists_due_iff.mp ⟨due, hvisit⟩
    rw [visit_due_id hvisit]
    exact ⟨t, d, h.get?_of_mem ht, hd, hr⟩
  · rintro ⟨t, d, hfound, hd, hr⟩
    obtain ⟨ht, rfl⟩ := mem_live_of_get? hfound
    obtain ⟨due, hdue⟩ := exists_due_iff.mpr ⟨d, hd, hr⟩
    exact ⟨due, List.mem_filterMap.mpr ⟨t, ht, hdue⟩, visit_due_id hdue⟩

theorem Effects.concat_map_none {α : Type} (l : List α) :
    (Effects.concat (l.map fun _ => Effects.none) : Effects κ) = .none := by
  induction l with
  | nil => rfl
  | cons a l ih =>
    rw [List.map_cons, Effects.concat, ih]
    rfl

theorem schedule_of_early {e : Engine κ} {now : Instant}
    (h : ∀ t ∈ e.live, ∀ d, t.deadline? e.clock = some d → now.reached d = false) :
    e.schedule now = ⟨[], e, .none⟩ := by
  have hvisits : e.slots.map (visit e.clock now) = e.slots.map fun s => ⟨s, none, .none⟩ := by
    apply List.map_congr_left
    intro s hs
    cases s with
    | none => rfl
    | some t => exact visit_of_early (h t (List.mem_filterMap.mpr ⟨some t, hs, rfl⟩))
  have hsilent : e.slots.filterMap (fun _ => (none : Option Due)) = [] :=
    List.filterMap_eq_nil_iff.mpr fun _ _ => rfl
  unfold schedule
  rw [hvisits]
  simp only [List.map_map, List.filterMap_map, Function.comp_def, Effects.concat_map_none,
    List.map_id', hsilent]

theorem tick_of_early {e : Engine κ} {now : Instant}
    (h : e.schedule now = ⟨[], e, .none⟩) (replies : List SendReply) :
    e.tick now replies = ⟨([], none), e, .none⟩ := by
  unfold tick
  rw [h]
  rfl

theorem mem_deadlines {e : Engine κ} {t : Transaction κ} {d : Instant} (ht : t ∈ e.live)
    (hd : t.deadline? e.clock = some d) : d ∈ e.live.filterMap (·.deadline? e.clock) :=
  List.mem_filterMap.mpr ⟨t, ht, hd⟩

section InWindow

variable {e : Engine κ} {start now d : Instant} (h : e.InWindow start now)

include h

/-- The next deadline is the earliest. -/
theorem InWindow.since_le (next : e.nextDeadline? = some d) {t : Transaction κ} (ht : t ∈ e.live)
    {d' : Instant} (hd' : t.deadline? e.clock = some d') : start.since d ≤ start.since d' := by
  apply Instant.since_earliest_le ?_ next d' (mem_deadlines ht hd')
  intro p hp
  obtain ⟨u, hu, hpu⟩ := List.mem_filterMap.mp hp
  exact h.2 u hu p hpu

/-- Nothing is due before the next deadline. -/
theorem InWindow.not_reached (before : ∀ d, e.nextDeadline? = some d → now.compare d = .lt) :
    ∀ t ∈ e.live, ∀ d, t.deadline? e.clock = some d → now.reached d = false := by
  intro t ht d hd
  cases hnext : e.nextDeadline? with
  | none =>
    have hnil := Instant.earliest_eq_none_iff.mp hnext
    have hmem := mem_deadlines ht hd
    rw [hnil] at hmem
    cases hmem
  | some first =>
    obtain ⟨u, hu, hfirst⟩ := List.mem_filterMap.mp (Instant.earliest_mem hnext)
    have hlt := before first hnext
    rw [Instant.compare_eq h.1 (h.2 u hu first hfirst), Nat.compare_eq_lt] at hlt
    have hle := h.since_le hnext ht hd
    rw [← Bool.not_eq_true, Instant.reached_iff h.1 (h.2 t ht d hd)]
    omega

end InWindow

theorem Early.apply_eq {e : Engine κ} {o : Operation κ} (h : e.Early o) :
    (e.apply o).engine = e ∧ e.report o = [] ∧ (e.apply o).effects = .none := by
  obtain ⟨start, now, hasks, hwindow, before⟩ := h
  have hquiet := schedule_of_early (hwindow.not_reached before)
  cases o with
  | schedule now' =>
    obtain rfl := Option.some.inj hasks
    have hs : e.apply (.schedule now') = ⟨[], e, .none⟩ := hquiet
    unfold report
    rw [hs]
    exact ⟨rfl, rfl, rfl⟩
  | tick now' replies =>
    obtain rfl := Option.some.inj hasks
    have hs : e.apply (.tick now' replies) = ⟨([], none), e, .none⟩ := tick_of_early hquiet replies
    unfold report
    rw [hs]
    exact ⟨rfl, rfl, rfl⟩
  | nextId | create | setMessage | setContext | send | complete | clear | receive | poll =>
    cases hasks

attribute [ext] Effects

theorem Padded.eq_of_early {e : Engine κ} {ops padded : List (Operation κ)}
    (h : Padded Early e ops padded) :
    e.run padded = e.run ops ∧ e.history padded = e.history ops ∧
      e.effects padded = e.effects ops := by
  have same (e : Engine κ) (o : Operation κ) (h : e.Early o) : (e.apply o).engine = e :=
    h.apply_eq.1
  have silent (e : Engine κ) (o : Operation κ) (h : e.Early o) : (e.apply o).effects = .none :=
    h.apply_eq.2.2
  have hsent := h.effects_eq same (fun _ _ => rfl) fun e o ho =>
    congrArg Effects.transmissions (silent e o ho)
  have hended := h.effects_eq same (fun _ _ => rfl) fun e o ho =>
    congrArg Effects.completions (silent e o ho)
  have hlogged := h.effects_eq same (fun _ _ => rfl) fun e o ho =>
    congrArg Effects.log (silent e o ho)
  refine ⟨h.run_eq same, h.history_eq same fun _ _ ho => ho.apply_eq.2.1, ?_⟩
  exact Effects.ext hsent hended hlogged

/-- In a window of less than half of the clock's range, the order of instants is that of the ticks
and the next deadline is the earliest. To ask what is due before it does nothing; from then on, it
reports the transactions whose deadlines have come and no others. So questions that come before the
next deadline can be left out of a run. -/
theorem nextDeadline_exact (clock : Clock) (config : Config) (past : List (Operation κ)) :
    let e := (new clock config : Engine κ).run past
    (∀ start now, e.InWindow start now →
      (∀ t ∈ e.live, ∀ d, t.deadline? e.clock = some d →
        now.compare d = Ord.compare (start.since now) (start.since d)) ∧
      (∀ d, e.nextDeadline? = some d →
        (∃ t ∈ e.live, t.deadline? e.clock = some d) ∧
        ∀ t ∈ e.live, ∀ d', t.deadline? e.clock = some d' → start.since d ≤ start.since d') ∧
      ((∀ d, e.nextDeadline? = some d → now.compare d = .lt) →
        e.schedule now = ⟨[], e, .none⟩ ∧
        ∀ replies, e.tick now replies = ⟨([], none), e, .none⟩) ∧
      ∀ d, e.nextDeadline? = some d → now.compare d ≠ .lt →
        (e.schedule now).result ≠ [] ∧
        ((e.schedule now).result.map (·.event.id)).Nodup ∧
        ∀ id, id ∈ (e.schedule now).result.map (·.event.id) ↔
          ∃ t d', e.get? id = some t ∧ t.deadline? e.clock = some d' ∧ now.compare d' ≠ .lt) ∧
    ∀ ops padded, Padded Early e ops padded →
      e.run padded = e.run ops ∧ e.history padded = e.history ops ∧
        e.effects padded = e.effects ops := by
  intro e
  have hu : e.Unique := (run_sound (sound_new clock config) past).unique
  have hreached (now d : Instant) : now.reached d = true ↔ now.compare d ≠ .lt := bne_iff_ne
  refine ⟨fun start now h => ?_, fun ops padded h => h.eq_of_early⟩
  refine ⟨fun t ht d hd => Instant.compare_eq h.1 (h.2 t ht d hd), fun d next => ?_, ?_, ?_⟩
  · obtain ⟨t, ht, hd⟩ := List.mem_filterMap.mp (Instant.earliest_mem next)
    exact ⟨⟨t, ht, hd⟩, fun u hu d' hd' => h.since_le next hu hd'⟩
  · intro before
    have hquiet := schedule_of_early (h.not_reached before)
    exact ⟨hquiet, tick_of_early hquiet⟩
  · intro d next hnow
    have hids (id : UInt16) : id ∈ (e.schedule now).result.map (·.event.id) ↔
        ∃ t d', e.get? id = some t ∧ t.deadline? e.clock = some d' ∧ now.compare d' ≠ .lt := by
      rw [hu.mem_due_ids_iff]
      simp only [hreached]
    obtain ⟨t, ht, hd⟩ := List.mem_filterMap.mp (Instant.earliest_mem next)
    have hmem := (hids t.id).mpr ⟨t, d, hu.get?_of_mem ht, hd, hnow⟩
    refine ⟨?_, hu.due_ids_nodup now, hids⟩
    intro hnil
    rw [hnil] at hmem
    cases hmem

/-- A message that is sent at 0 and repeated after 10 ticks: nothing is due at 9, it is at 10. -/
theorem nextDeadline_exact_once :
    let e := (new .milliseconds { Config.standard with strategy := ⟨.constant, 10, 10⟩ }).run
      [.create 7 (.v4 ⟨#[10, 0, 0, 1], rfl⟩ 5683) () .owner,
        .setMessage 7 (.new .confirmable .get 0), .send 7 ⟨0⟩ .accepted]
    e.nextDeadline? = some ⟨10⟩ ∧ e.InWindow ⟨0⟩ ⟨9⟩ ∧ e.InWindow ⟨0⟩ ⟨10⟩ ∧
      e.schedule ⟨9⟩ = ⟨[], e, .none⟩ ∧ (e.schedule ⟨10⟩).result ≠ [] := by
  intro e
  have hnext : e.nextDeadline? = some ⟨10⟩ := by decide +kernel
  have hdeadlines : e.live.filterMap (·.deadline? e.clock) = [⟨10⟩] := by decide +kernel
  have hwindow (now : Instant) (hnow : Instant.Within ⟨0⟩ now) : e.InWindow ⟨0⟩ now := by
    refine ⟨hnow, fun t ht d hd => ?_⟩
    have hmem := mem_deadlines ht hd
    rw [hdeadlines] at hmem
    rw [List.mem_singleton.mp hmem]
    decide
  have h9 : e.InWindow ⟨0⟩ ⟨9⟩ := hwindow ⟨9⟩ (by decide)
  have h10 : e.InWindow ⟨0⟩ ⟨10⟩ := hwindow ⟨10⟩ (by decide)
  obtain ⟨hexact, _⟩ := nextDeadline_exact .milliseconds
    { Config.standard with strategy := ⟨.constant, 10, 10⟩ }
    [.create 7 (.v4 ⟨#[10, 0, 0, 1], rfl⟩ 5683) () .owner,
      .setMessage 7 (.new .confirmable .get 0), .send 7 ⟨0⟩ .accepted]
  obtain ⟨_, _, hquiet, _⟩ := hexact ⟨0⟩ ⟨9⟩ h9
  obtain ⟨_, _, _, hdue⟩ := hexact ⟨0⟩ ⟨10⟩ h10
  refine ⟨hnext, h9, h10, (hquiet ?_).1, (hdue ⟨10⟩ hnext (by decide)).1⟩
  intro d hd
  obtain rfl := Option.some.inj (hnext.symm.trans hd)
  decide

end Engine

end Coap
