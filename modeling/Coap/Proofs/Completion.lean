import Coap.Proofs.Lifecycle

namespace Coap

variable {κ : Type}

def Event.isCreated (v : Event) : Bool := v.occurrence.isCreated
def Event.isCleared (v : Event) : Bool := v.occurrence.isCleared
def Event.isEnd (v : Event) : Bool := v.occurrence.isEnd

/-- What a visit tells the owner of a transaction is what it says is due. -/
theorem visit_notices (c : Clock) (now : Instant) (t : Transaction κ) :
    (Engine.visit c now (some t)).effects.completions.map Completion.notice =
      ((Engine.visit c now (some t)).due.map Due.event).toList.filterMap Event.notice? := by
  rcases Engine.visit_cases c now t with hv | ⟨timer, _, _, hv⟩ | ⟨timer, _, _, hv⟩
  all_goals
    rw [hv]
    rfl

theorem Transaction.map_notice_notices (t : Transaction κ) (told : List Occurrence) :
    (t.notices told).map Completion.notice =
      (told.map (Event.mk t.id)).filterMap Event.notice? := by
  rw [notices, List.map_filterMap, List.filterMap_map]
  congr 1
  funext o
  simp only [Event.notice?, Function.comp_apply, Option.map_map]
  rfl

/-- An operation that does not end a transaction keeps it in the table. -/
theorem Change.balance {e : Engine κ} {id : UInt16} {t? t?' : Option (Transaction κ)}
    {told : List Occurrence} (h : Change e id t? told t?') :
    t?'.toList.length + told.countP (·.isEnd) = t?.toList.length + told.countP (·.isCreated) := by
  cases h <;> rfl

theorem filterMap_of_id_notMem {l : List (Transaction κ)} {id : UInt16}
    (h : id ∉ l.map (·.id)) (slot : Option (Transaction κ)) :
    (l.filterMap fun t => if t.id = id then slot else some t) = l := by
  induction l with
  | nil => rfl
  | cons u l ih =>
    rw [List.map_cons, List.mem_cons, not_or] at h
    simp only [List.filterMap_cons, if_neg (Ne.symm h.1), ih h.2]

/-- With unique ids, one transaction is replaced. -/
theorem length_replace {l : List (Transaction κ)} (hl : (l.map (·.id)).Nodup) {id : UInt16}
    {t : Transaction κ} (ht : l.find? (·.id == id) = some t) (slot : Option (Transaction κ)) :
    (l.filterMap fun t => if t.id = id then slot else some t).length + 1 =
      l.length + slot.toList.length := by
  induction l with
  | nil => cases ht
  | cons u l ih =>
    obtain ⟨hn, hl⟩ := List.nodup_cons.mp hl
    by_cases hu : u.id = id
    · subst hu
      have hrest := filterMap_of_id_notMem hn slot
      cases slot with
      | none =>
        simp only [List.filterMap_cons, if_true, hrest]
        rfl
      | some s =>
        simp only [List.filterMap_cons, if_true, hrest]
        rfl
    · have hi := ih hl (by rwa [List.find?_cons_of_neg (by simpa using hu)] at ht)
      simp only [List.filterMap_cons, if_neg hu, List.length_cons]
      omega

namespace Engine

/-- The owners that are told are those of the ends that the result reports, in order. -/
theorem Transition.notices {e e' : Engine κ} {told : List Event} {ends : List Completion}
    (h : e.Transition e' told ends) :
    ends.map Completion.notice = told.filterMap Event.notice? := by
  cases h with
  | idle => rfl
  | created => rfl
  | @replaced id t slot told rng found change =>
    rw [Transaction.map_notice_notices, (mem_live_of_get? found).2]
  | scheduled now =>
    rw [schedule_completions, schedule_result]
    induction e.live with
    | nil => rfl
    | cons t l ih =>
      rw [List.flatMap_cons, List.map_append, visit_notices, ih]
      simp only [List.filterMap_cons]
      cases (visit e.clock now (some t)).due with
      | none => rfl
      | some d => exact (List.filterMap_append (l := [d.event])).symm

/-- Whoever is told about the end of a transaction is its observer. -/
theorem Transition.observer {e e' : Engine κ} {told : List Event} {ends : List Completion}
    (h : e.Transition e' told ends) (hu : e.Unique) {c : Completion} (hc : c ∈ ends) :
    ∃ t, e.get? c.id = some t ∧ t.observer = c.observer := by
  cases h with
  | idle => cases hc
  | created => cases hc
  | @replaced id t slot told rng found change =>
    obtain ⟨o, _, ho⟩ := List.mem_filterMap.mp hc
    obtain ⟨outcome, _, rfl⟩ := Option.map_eq_some_iff.mp ho
    exact ⟨t, (mem_live_of_get? found).2.symm ▸ found, rfl⟩
  | scheduled now =>
    rw [schedule_completions] at hc
    obtain ⟨t, ht, hc⟩ := List.mem_flatMap.mp hc
    have hget := hu.get?_of_mem ht
    rcases visit_cases e.clock now t with hv | ⟨timer, _, _, hv⟩ | ⟨timer, _, _, hv⟩
    · rw [hv] at hc
      cases hc
    · rw [hv] at hc
      cases hc
    · rw [hv] at hc
      obtain rfl := List.mem_singleton.mp hc
      exact ⟨t, hget, rfl⟩

/-- The table gains what is created and loses what ends. -/
theorem Transition.size {e e' : Engine κ} {told : List Event} {ends : List Completion}
    (h : e.Transition e' told ends) (hu : e.Unique) :
    e'.size + told.countP (·.isEnd) = e.size + told.countP (·.isCreated) := by
  cases h with
  | idle => rfl
  | @created id front back slots peer context observer free before after room =>
    rw [Engine.size, Engine.size, before, after, List.length_append, List.length_append,
      List.length_cons]
    rfl
  | @replaced id t slot told rng found change =>
    have hlength := length_replace hu found slot
    have hbalance := change.balance
    rw [← live_replace] at hlength
    rw [List.countP_map, List.countP_map]
    change (e.replace id slot).live.length + told.countP (·.isEnd) =
      e.live.length + told.countP (·.isCreated)
    simp only [Option.toList_some, List.length_singleton] at hbalance
    omega
  | scheduled now =>
    rw [Engine.size, Engine.size, live_schedule, schedule_result]
    induction e.live with
    | nil => rfl
    | cons t l ih =>
      rcases visit_cases e.clock now t with hv | ⟨timer, _, _, hv⟩ | ⟨timer, _, _, hv⟩
      · simp only [List.filterMap_cons, hv, List.length_cons]
        omega
      · simp only [List.filterMap_cons, hv, List.length_cons, List.map_cons]
        rw [List.countP_cons_of_neg (show ¬false = true by decide),
          List.countP_cons_of_neg (show ¬false = true by decide)]
        omega
      · simp only [List.filterMap_cons, hv, List.length_cons, List.map_cons]
        rw [List.countP_cons_of_pos rfl, List.countP_cons_of_neg (show ¬false = true by decide)]
        omega

theorem completions_effects (e : Engine κ) (ops : List (Operation κ)) :
    (e.effects ops).completions.map Completion.notice =
      (e.history ops).filterMap Event.notice? := by
  induction ops generalizing e with
  | nil => rfl
  | cons o ops ih =>
    rw [history, List.filterMap_append, ← ih, ← (e.transition o).notices, ← List.map_append]
    rfl

theorem Sound.size_run {e : Engine κ} (h : e.Sound) (ops : List (Operation κ)) :
    (e.run ops).size + (e.history ops).countP (·.isEnd) =
      e.size + (e.history ops).countP (·.isCreated) := by
  induction ops generalizing e with
  | nil => rfl
  | cons o ops ih =>
    have hfirst := (e.transition o).size h.unique
    have hrest := ih ((e.transition o).sound h)
    rw [history, List.countP_append, List.countP_append]
    change ((e.apply o).engine.run ops).size + _ = _
    omega

end Engine

/-- An end is a clear or tells an owner. -/
theorem countP_isEnd (h : List Event) :
    h.countP (·.isEnd) = h.countP (·.isCleared) + (h.filterMap Event.notice?).length := by
  induction h with
  | nil => rfl
  | cons v h ih =>
    obtain ⟨id, o⟩ := v
    rw [List.countP_cons, List.countP_cons, List.filterMap_cons, ih]
    cases o with
    | cleared => exact Nat.add_right_comm _ _ _
    | created | sent | retransmitted | abandoned | answered => rfl

theorem Ongoing.silent {limit : Nat} {s s' : Standing} {os : List Occurrence}
    (h : Ongoing limit s os s') :
    os.filterMap Occurrence.outcome? = [] ∧ os.countP (·.isCleared) = 0 := by
  constructor
  · apply List.filterMap_eq_nil_iff.mpr
    intro o ho
    obtain ⟨_, hi⟩ := Bool.or_eq_false_iff.mp (h.steady o ho).2
    exact Option.isNone_iff_eq_none.mp (Option.isSome_eq_false_iff.mp hi)
  · apply List.countP_eq_zero.mpr
    intro o ho hc
    obtain ⟨hi, _⟩ := Bool.or_eq_false_iff.mp (h.steady o ho).2
    rw [hi] at hc
    cases hc

namespace Engine

/-- Each owner is told once how its transaction ended, unless it was cleared, and nobody else is
told anything. -/
theorem completes_exactlyOnce (clock : Clock) (config : Config) (ops : List (Operation κ)) :
    (((new clock config).effects ops).completions.map Completion.notice =
      ((new clock config).history ops).filterMap Event.notice?) ∧
    (∀ o, ∀ c ∈ (((new clock config).run ops).apply o).effects.completions,
      ∃ before peer after, occurrences ((new clock config).history ops) c.id =
          before ++ .created peer c.observer :: after ∧
        ∀ x ∈ after, x.isCreated = false ∧ x.isEnd = false) ∧
    (∀ id before peer observer after, occurrences ((new clock config).history ops) id =
        before ++ .created peer observer :: after →
      ((lifespan after).filterMap Occurrence.outcome? = [] ∧
          (lifespan after).countP (·.isCleared) = 0 ∧ lifespan after = after ∧
          (∃ t, ((new clock config).run ops).get? id = some t ∧
            t.peer = peer ∧ t.observer = observer) ∨
        (lifespan after).filterMap Occurrence.outcome? = [] ∧
          (lifespan after).countP (·.isCleared) = 1 ∧
          (lifespan after = after → ((new clock config).run ops).get? id = none) ∨
        (∃ outcome, (lifespan after).filterMap Occurrence.outcome? = [outcome]) ∧
          (lifespan after).countP (·.isCleared) = 0 ∧
          (lifespan after = after → ((new clock config).run ops).get? id = none)) ∧
      ∀ front ending back, lifespan after = front ++ ending :: back → ending.isEnd = true →
        back = []) ∧
    ((new clock config).history ops).countP (·.isCreated) =
      ((new clock config).run ops).size + ((new clock config).history ops).countP (·.isCleared) +
        ((new clock config).effects ops).completions.length := by
  have hnew : (new clock config : Engine κ).Sound := sound_new clock config
  have hnotices := (new clock config : Engine κ).completions_effects ops
  refine ⟨hnotices, ?_, ?_, ?_⟩
  · intro o c hc
    have hsound := run_sound hnew ops
    obtain ⟨t, ht, hobserver⟩ :=
      (((new clock config).run ops).transition o).observer hsound.unique hc
    obtain ⟨before, peer, observer, after, heq, ho⟩ := exists_created_of_get? ht
    obtain rfl : observer = c.observer := ho.observer.symm.trans hobserver
    exact ⟨before, peer, after, heq, ho.steady⟩
  · intro id before peer observer after heq
    have hpath := path_after_created heq
    refine ⟨?_, fun front ending back hl hend => (hpath.end_of_lifespan hl hend).1⟩
    rcases hpath.lifespan_cases with ⟨s', hlast, hall, ho⟩ | ⟨front, ending, s', hl, ho, he, hlast⟩
    · left
      obtain ⟨t, ht, hs⟩ := Option.map_eq_some_iff.mp hlast
      subst hs
      exact ⟨ho.silent.1, ho.silent.2, hall, t, ht, ho.peer, ho.observer⟩
    · have hgone : lifespan after = after → ((new clock config).run ops).get? id = none :=
        fun hall => Option.map_eq_none_iff.mp (hlast hall)
      obtain ⟨houtcome, hcleared⟩ := ho.silent
      right
      rw [hl, List.filterMap_append, List.countP_append, houtcome, hcleared, ← hl]
      cases he with
      | cleared => exact Or.inl ⟨rfl, rfl, hgone⟩
      | abandoned => exact Or.inr ⟨⟨.timeout, rfl⟩, rfl, hgone⟩
      | answered s response => exact Or.inr ⟨⟨.response response, rfl⟩, rfl, hgone⟩
  · have hsize := hnew.size_run ops
    have hempty : (new clock config : Engine κ).size = 0 := by
      rw [size, live_new]
      rfl
    have hends := countP_isEnd ((new clock config : Engine κ).history ops)
    have hlength := congrArg List.length hnotices
    rw [List.length_map] at hlength
    omega

/-- An id that is used again: the first transaction is given up, the second one cleared. -/
example (peer : Address) :
    ((new .milliseconds
        { Config.standard with strategy := ⟨.constant, 10, 10⟩, maxRetransmit := 0 }).effects
      [.create 7 peer () .owner, .setMessage 7 (.new .confirmable .get 0), .send 7 ⟨0⟩ .accepted,
        .tick ⟨10⟩ [], .create 7 peer () .owner, .clear 7]).completions.map Completion.notice =
    [(7, .timeout)] := by
  cbv

end Engine

end Coap
