import Coap.Proofs.EngineRun

namespace Coap

variable {κ : Type}

/-- What is read off some of the entries of a list, in their order, is a part of what is read off
all. -/
theorem map_filterMap_sublist {α β γ : Type} {f : α → Option β} {read : β → γ} {key : α → γ}
    (hf : ∀ a b, f a = some b → read b = key a) (l : List α) :
    ((l.filterMap f).map read).Sublist (l.map key) := by
  induction l with
  | nil => exact List.Sublist.slnil
  | cons a l ih =>
    cases ha : f a with
    | none =>
      rw [List.filterMap_cons_none ha, List.map_cons]
      exact ih.cons _
    | some b =>
      rw [List.filterMap_cons_some ha, List.map_cons, List.map_cons, hf a b ha]
      exact ih.cons_cons _

theorem find?_eq_none_of_id_notMem {l : List (Transaction κ)} {id : UInt16}
    (h : id ∉ l.map (·.id)) : l.find? (·.id == id) = none := by
  apply List.find?_eq_none.mpr
  intro t ht he
  exact h (List.mem_map.mpr ⟨t, ht, beq_iff_eq.mp he⟩)

/-- With unique ids, what becomes of the transactions can be looked up one by one. -/
theorem find?_filterMap {f : Transaction κ → Option (Transaction κ)}
    (hf : ∀ t t', f t = some t' → t'.id = t.id) {l : List (Transaction κ)}
    (hl : (l.map (·.id)).Nodup) (id : UInt16) :
    (l.filterMap f).find? (·.id == id) = (l.find? (·.id == id)).bind f := by
  induction l with
  | nil => rfl
  | cons t l ih =>
    obtain ⟨hn, hl⟩ := List.nodup_cons.mp hl
    have hi := ih hl
    by_cases ht : t.id = id
    · subst ht
      have hrest := find?_eq_none_of_id_notMem hn
      rw [hrest, Option.bind_none] at hi
      rw [List.find?_cons_of_pos (by simp), Option.bind_some]
      cases hft : f t with
      | none => rw [List.filterMap_cons_none hft, hi]
      | some t' =>
        rw [List.filterMap_cons_some hft, List.find?_cons_of_pos (by simpa using hf t t' hft)]
    · rw [List.find?_cons_of_neg (by simpa using ht), ← hi]
      cases hft : f t with
      | none => rw [List.filterMap_cons_none hft]
      | some t' =>
        have hne : t'.id ≠ id := fun he => ht ((hf t t' hft).symm.trans he)
        rw [List.filterMap_cons_some hft, List.find?_cons_of_neg (by simpa using hne)]

/-- With unique ids, at most one transaction tells something about an id. -/
theorem occurrences_filterMap {f : Transaction κ → Option Event}
    (hf : ∀ t v, f t = some v → v.id = t.id) {l : List (Transaction κ)}
    (hl : (l.map (·.id)).Nodup) (id : UInt16) :
    occurrences (l.filterMap f) id =
      (((l.find? (·.id == id)).bind f).map Event.occurrence).toList := by
  induction l with
  | nil => rfl
  | cons t l ih =>
    obtain ⟨hn, hl⟩ := List.nodup_cons.mp hl
    have hi := ih hl
    by_cases ht : t.id = id
    · subst ht
      have hrest := find?_eq_none_of_id_notMem hn
      rw [hrest] at hi
      rw [List.find?_cons_of_pos (by simp), Option.bind_some]
      cases hft : f t with
      | none =>
        rw [List.filterMap_cons_none hft]
        exact hi
      | some v =>
        rw [List.filterMap_cons_some hft, occurrences_cons, if_pos (hf t v hft), hi]
        rfl
    · rw [List.find?_cons_of_neg (by simpa using ht), ← hi]
      cases hft : f t with
      | none => rw [List.filterMap_cons_none hft]
      | some v =>
        have hne : v.id ≠ id := fun he => ht ((hf t v hft).symm.trans he)
        rw [List.filterMap_cons_some hft, occurrences_cons, if_neg hne]

theorem Effects.concat_eq (l : List (Effects κ)) : concat l =
    ⟨l.flatMap (·.transmissions), l.flatMap (·.completions), l.flatMap (·.log)⟩ := by
  induction l with
  | nil => rfl
  | cons a l ih =>
    rw [concat, ih]
    rfl

namespace Engine

/-- No two live transactions have the same id. -/
def Unique (e : Engine κ) : Prop := (e.live.map (·.id)).Nodup

theorem mem_live_of_get? {e : Engine κ} {id : UInt16} {t : Transaction κ} (h : e.get? id = some t) :
    t ∈ e.live ∧ t.id = id :=
  ⟨List.mem_of_find?_eq_some h, by simpa using List.find?_some h⟩

theorem Unique.get?_of_mem {e : Engine κ} (h : e.Unique) {t : Transaction κ} (ht : t ∈ e.live) :
    e.get? t.id = some t := by
  unfold Unique at h
  unfold get?
  generalize e.live = l at h ht
  induction l with
  | nil => cases ht
  | cons u l ih =>
    obtain ⟨hn, hl⟩ := List.nodup_cons.mp h
    rcases List.mem_cons.mp ht with rfl | ht
    · exact List.find?_cons_of_pos (by simp)
    · have hne : u.id ≠ t.id := fun he => hn (List.mem_map.mpr ⟨t, ht, he.symm⟩)
      rw [List.find?_cons_of_neg (by simpa using hne)]
      exact ih hl ht

theorem live_new (clock : Clock) (config : Config) : (new clock config : Engine κ).live = [] := by
  apply List.filterMap_eq_nil_iff.mpr
  intro slot h
  exact List.eq_of_mem_replicate h

/-! What becomes of the live transactions. -/

theorem live_replace (e : Engine κ) (id : UInt16) (slot : Option (Transaction κ)) :
    (e.replace id slot).live = e.live.filterMap fun t => if t.id = id then slot else some t := by
  simp only [live, replace, List.filterMap_map, List.filterMap_filterMap]
  congr 1
  funext s
  cases s with
  | none => rfl
  | some t => by_cases h : t.id = id <;> simp [h]

theorem live_schedule (e : Engine κ) (now : Instant) :
    (e.schedule now).engine.live =
      e.live.filterMap fun t => (visit e.clock now (some t)).slot := by
  simp only [live, schedule, List.filterMap_map, List.filterMap_filterMap]
  congr 1
  funext s
  cases s <;> rfl

theorem schedule_result (e : Engine κ) (now : Instant) :
    (e.schedule now).result = e.live.filterMap fun t => (visit e.clock now (some t)).due := by
  simp only [live, schedule, List.filterMap_map, List.filterMap_filterMap]
  congr 1
  funext s
  cases s <;> rfl

theorem schedule_completions (e : Engine κ) (now : Instant) :
    (e.schedule now).effects.completions =
      e.live.flatMap fun t => (visit e.clock now (some t)).effects.completions := by
  simp only [schedule, Effects.concat_eq, live, List.flatMap_map]
  induction e.slots with
  | nil => rfl
  | cons s slots ih =>
    cases s with
    | none => exact ih
    | some t => exact congrArg (_ ++ ·) ih

/-- There is room for a transaction as long as not every slot is taken. -/
theorem all_isSome_iff (e : Engine κ) :
    e.slots.all Option.isSome = true ↔ ¬e.size < e.slots.length := by
  have hsize : e.size = e.slots.countP Option.isSome := List.length_filterMap_eq_countP
  have hle : e.slots.countP Option.isSome ≤ e.slots.length := List.countP_le_length
  rw [List.all_eq_true, ← List.countP_eq_length, hsize]
  omega

/-- A creation succeeds if the id is not taken and there is room. -/
theorem create_result (e : Engine κ) (id : UInt16) (peer : Address) (context : κ)
    (observer : Observer) : (e.create id peer context observer).result =
      if (e.get? id).isSome then .error (.idInUse id)
      else if e.size < e.slots.length then .ok () else .error .tableFull := by
  unfold create
  split
  next => rfl
  next =>
    by_cases hroom : e.size < e.slots.length
    · rw [if_neg (fun hall => e.all_isSome_iff.mp hall hroom), if_pos hroom]
    · rw [if_pos (e.all_isSome_iff.mpr hroom), if_neg hroom]

theorem exists_occupy (t : Transaction κ) {slots : List (Option (Transaction κ))}
    (h : slots.all Option.isSome = false) :
    ∃ front back, slots = front ++ none :: back ∧ occupy t slots = front ++ some t :: back := by
  induction slots with
  | nil => cases h
  | cons s slots ih =>
    cases s with
    | none => exact ⟨[], slots, rfl, rfl⟩
    | some u =>
      obtain ⟨front, back, hs, ho⟩ := ih (by simpa using h)
      exact ⟨some u :: front, back, by rw [hs]; rfl, by rw [occupy, ho]; rfl⟩

/-- A creation is refused, or it takes the first free slot. -/
theorem create_cases (e : Engine κ) (id : UInt16) (peer : Address) (context : κ)
    (observer : Observer) :
    (∃ err, e.create id peer context observer = ⟨.error err, e, .none⟩) ∨
    e.get? id = none ∧ ∃ front back, e.slots = front ++ none :: back ∧
      e.create id peer context observer =
        ⟨.ok (), { e with slots := front ++ some (.new id peer context observer) :: back },
          .logged [.created id peer]⟩ := by
  cases hg : e.get? id with
  | some t => exact Or.inl ⟨.idInUse id, by simp [create, hg]⟩
  | none =>
    cases ha : e.slots.all Option.isSome with
    | true =>
      left
      refine ⟨.tableFull, ?_⟩
      rw [create, hg, ha]
      rfl
    | false =>
      obtain ⟨front, back, hs, ho⟩ := exists_occupy (.new id peer context observer) ha
      right
      refine ⟨rfl, front, back, hs, ?_⟩
      rw [create, hg, ha, ho]
      rfl

theorem visit_of_retry {c : Clock} {now : Instant} {t : Transaction κ} {timer : RetryTimer}
    (running : t.timer = some timer) (due : timer.verdict c now = .retry) : visit c now (some t) =
      ⟨some { t with timer := some (timer.restart now) }, some (.retransmit t.id), .none⟩ := by
  simp only [visit, running, due, RetryTimer.ask]

theorem visit_of_giveUp {c : Clock} {now : Instant} {t : Transaction κ} {timer : RetryTimer}
    (running : t.timer = some timer) (due : timer.verdict c now = .giveUp) : visit c now (some t) =
      ⟨none, some (.abandoned t.id),
        .logged [.abandoned t.id t.peer t.retransmissions] ++ t.finish .timeout⟩ := by
  simp only [visit, running, due]

/-- What a visit can do: nothing, count a retransmission that is due, or end the transaction. -/
theorem visit_cases (c : Clock) (now : Instant) (t : Transaction κ) :
    visit c now (some t) = ⟨some t, none, .none⟩ ∨
    (∃ timer, t.timer = some timer ∧ timer.verdict c now = .retry ∧ visit c now (some t) =
      ⟨some { t with timer := some (timer.restart now) }, some (.retransmit t.id), .none⟩) ∨
    (∃ timer, t.timer = some timer ∧ timer.verdict c now = .giveUp ∧ visit c now (some t) =
      ⟨none, some (.abandoned t.id),
        .logged [.abandoned t.id t.peer t.retransmissions] ++ t.finish .timeout⟩) := by
  cases ht : t.timer with
  | none => exact Or.inl (by simp only [visit, ht])
  | some timer =>
    cases hv : timer.verdict c now with
    | wait => exact Or.inl (by simp only [visit, ht, hv])
    | retry => exact Or.inr (Or.inl ⟨timer, rfl, hv, visit_of_retry ht hv⟩)
    | giveUp => exact Or.inr (Or.inr ⟨timer, rfl, hv, visit_of_giveUp ht hv⟩)

theorem visit_slot_id {c : Clock} {now : Instant} {t t' : Transaction κ}
    (h : (visit c now (some t)).slot = some t') : t'.id = t.id := by
  rcases visit_cases c now t with hv | ⟨timer, _, _, hv⟩ | ⟨timer, _, _, hv⟩
  · rw [hv] at h
    rw [← Option.some.inj h]
  · rw [hv] at h
    rw [← Option.some.inj h]
  · rw [hv] at h
    cases h

theorem visit_due_id {c : Clock} {now : Instant} {t : Transaction κ} {d : Due}
    (h : (visit c now (some t)).due = some d) : d.event.id = t.id := by
  rcases visit_cases c now t with hv | ⟨timer, _, _, hv⟩ | ⟨timer, _, _, hv⟩
  · rw [hv] at h
    cases h
  · rw [hv] at h
    obtain rfl := Option.some.inj h
    rfl
  · rw [hv] at h
    obtain rfl := Option.some.inj h
    rfl

/-- What is due is said once for each transaction. -/
theorem Unique.due_ids_nodup {e : Engine κ} (h : e.Unique) (now : Instant) :
    ((e.schedule now).result.map (·.event.id)).Nodup := by
  have hsub : ((e.schedule now).result.map (·.event.id)).Sublist (e.live.map (·.id)) := by
    rw [schedule_result]
    exact map_filterMap_sublist (fun _ _ => visit_due_id) e.live
  exact hsub.nodup h

theorem replaced_id {id : UInt16} {slot : Option (Transaction κ)} {t t' : Transaction κ}
    (hs : ∀ u, slot = some u → u.id = id)
    (h : (if t.id = id then slot else some t) = some t') : t'.id = t.id := by
  split at h
  next ht => rw [hs t' h, ht]
  next => rw [Option.some.inj h]

theorem Unique.replace {e : Engine κ} (h : e.Unique) {id : UInt16}
    {slot : Option (Transaction κ)} (hs : ∀ u, slot = some u → u.id = id) :
    (e.replace id slot).Unique := by
  unfold Unique
  rw [live_replace]
  exact (map_filterMap_sublist (fun _ _ => replaced_id hs) e.live).nodup h

theorem Unique.schedule {e : Engine κ} (h : e.Unique) (now : Instant) :
    (e.schedule now).engine.Unique := by
  unfold Unique
  rw [live_schedule]
  exact (map_filterMap_sublist (fun _ _ => visit_slot_id) e.live).nodup h

theorem Unique.get?_replace {e : Engine κ} (h : e.Unique) {id : UInt16}
    {slot : Option (Transaction κ)} (hs : ∀ u, slot = some u → u.id = id) (p : UInt16) :
    (e.replace id slot).get? p = if p = id then (e.get? p).bind fun _ => slot else e.get? p := by
  have hf := find?_filterMap (fun _ _ => replaced_id hs) h p
  rw [get?, live_replace, hf]
  change (e.get? p).bind _ = _
  cases hg : e.get? p with
  | none => simp
  | some t =>
    have ht : t.id = p := (mem_live_of_get? hg).2
    subst ht
    rfl

theorem Unique.get?_remove {e : Engine κ} (h : e.Unique) (id p : UInt16) :
    (e.replace id none).get? p = if p = id then none else e.get? p := by
  have hs : ∀ u : Transaction κ, none = some u → u.id = id := by
    intro u hu
    cases hu
  rw [h.get?_replace hs]
  cases e.get? p <;> rfl

theorem Unique.get?_schedule {e : Engine κ} (h : e.Unique) (now : Instant) (id : UInt16) :
    (e.schedule now).engine.get? id =
      (e.get? id).bind fun t => (visit e.clock now (some t)).slot := by
  rw [get?, live_schedule, find?_filterMap (fun _ _ => visit_slot_id) h id]
  rfl

end Engine

end Coap
