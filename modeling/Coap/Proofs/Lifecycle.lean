import Coap.Proofs.EngineInvariant

namespace Coap

/-- Where a transaction stands between its creation and its end. -/
structure Standing where
  peer : Address
  observer : Observer
  progress : Progress
  retransmissions : Nat

def Standing.start (peer : Address) (observer : Observer) : Standing :=
  ⟨peer, observer, .created, 0⟩

/-- What can happen to the transaction with an id. Without a standing the id is free; a message is
sent again only up to a limit. -/
inductive Passes (limit : Nat) : Option Standing → Occurrence → Option Standing → Prop
  | created (peer : Address) (observer : Observer) :
      Passes limit none (.created peer observer) (some (.start peer observer))
  | sent (s : Standing) : Passes limit (some s) .sent (some { s with progress := .sent })
  | retransmitted {s : Standing} (hs : s.progress = .sent) (hl : s.retransmissions < limit) :
      Passes limit (some s) .retransmitted
        (some { s with retransmissions := s.retransmissions + 1 })
  | abandoned {s : Standing} (hs : s.progress = .sent) (hl : s.retransmissions = limit) :
      Passes limit (some s) .abandoned none
  | answered (s : Standing) (response : Message) : Passes limit (some s) (.answered response) none
  | cleared (s : Standing) : Passes limit (some s) .cleared none

/-- What can happen in a row. -/
inductive Path (limit : Nat) : Option Standing → List Occurrence → Option Standing → Prop
  | nil (s? : Option Standing) : Path limit s? [] s?
  | cons {s? s?' s?'' : Option Standing} {o : Occurrence} {os : List Occurrence}
      (first : Passes limit s? o s?') (rest : Path limit s?' os s?'') : Path limit s? (o :: os) s?''

theorem Path.single {limit : Nat} {s? s?' : Option Standing} {o : Occurrence}
    (h : Passes limit s? o s?') : Path limit s? [o] s?' := .cons h (.nil s?')

theorem Path.append {limit : Nat} {a b c : Option Standing} {os later : List Occurrence}
    (h : Path limit a os b) (hl : Path limit b later c) : Path limit a (os ++ later) c := by
  induction h with
  | nil => exact hl
  | cons first _ ih => exact .cons first (ih hl)

theorem Path.exists_of_append {limit : Nat} {a c : Option Standing} {os later : List Occurrence}
    (h : Path limit a (os ++ later) c) : ∃ b, Path limit a os b ∧ Path limit b later c := by
  induction os generalizing a with
  | nil => exact ⟨a, .nil a, h⟩
  | cons o os ih =>
    cases h with
    | cons first rest =>
      obtain ⟨b, hb, hc⟩ := ih rest
      exact ⟨b, .cons first hb, hc⟩

/-- What a transaction goes through while it lives. -/
structure Ongoing (limit : Nat) (s : Standing) (os : List Occurrence) (s' : Standing) : Prop where
  steady : ∀ o ∈ os, o.isCreated = false ∧ o.isEnd = false
  peer : s'.peer = s.peer
  observer : s'.observer = s.observer
  retransmissions : s'.retransmissions = s.retransmissions + os.countP (·.isRetransmitted)
  limit : s.retransmissions ≤ limit → s'.retransmissions ≤ limit
  sent : s'.progress = .sent → s.progress = .sent ∨ Occurrence.sent ∈ os

theorem Ongoing.nil (limit : Nat) (s : Standing) : Ongoing limit s [] s where
  steady _ h := by cases h
  peer := rfl
  observer := rfl
  retransmissions := rfl
  limit h := h
  sent h := Or.inl h

theorem Ongoing.cons {limit : Nat} {s s' s'' : Standing} {o : Occurrence} {os : List Occurrence}
    (first : Passes limit (some s) o (some s')) (h : Ongoing limit s' os s'') :
    Ongoing limit s (o :: os) s'' := by
  cases first with
  | sent =>
    refine ⟨?_, h.peer, h.observer, h.retransmissions, h.limit, fun _ => Or.inr List.mem_cons_self⟩
    exact List.forall_mem_cons.mpr ⟨⟨rfl, rfl⟩, h.steady⟩
  | retransmitted hs hl =>
    have hcount := h.retransmissions
    refine ⟨?_, h.peer, h.observer, ?_, fun _ => h.limit hl, fun _ => Or.inl hs⟩
    · exact List.forall_mem_cons.mpr ⟨⟨rfl, rfl⟩, h.steady⟩
    · rw [List.countP_cons_of_pos rfl]
      dsimp only at hcount
      omega

/-- A transaction lives on, or it has ended at some point; then its id is free again. -/
theorem Path.ongoing_or_ended {limit : Nat} {s : Standing} {os : List Occurrence}
    {last : Option Standing} (h : Path limit (some s) os last) :
    (∃ s', last = some s' ∧ Ongoing limit s os s') ∨
    ∃ front ending back s', os = front ++ ending :: back ∧ Ongoing limit s front s' ∧
      Passes limit (some s') ending none ∧ Path limit none back last := by
  induction os generalizing s with
  | nil =>
    cases h
    exact Or.inl ⟨s, rfl, .nil limit s⟩
  | cons o os ih =>
    cases h with
    | @cons _ s?' _ _ _ first rest =>
      cases s?' with
      | none => exact Or.inr ⟨[], o, os, s, rfl, .nil limit s, first, rest⟩
      | some s' =>
        rcases ih rest with ⟨s'', hl, ho⟩ | ⟨front, ending, back, s'', rfl, ho, he, hb⟩
        · exact Or.inl ⟨s'', hl, ho.cons first⟩
        · exact Or.inr ⟨o :: front, ending, back, s'', rfl, ho.cons first, he, hb⟩

/-- A transaction that lives has been created, unless it was there from the start. -/
theorem Path.exists_created {limit : Nat} {s? : Option Standing} {os : List Occurrence}
    {s : Standing} (h : Path limit s? os (some s)) :
    (∃ s₀, s? = some s₀ ∧ Ongoing limit s₀ os s) ∨
    ∃ before peer observer after, os = before ++ .created peer observer :: after ∧
      Ongoing limit (.start peer observer) after s := by
  induction os generalizing s? with
  | nil =>
    cases h
    exact Or.inl ⟨s, rfl, .nil limit s⟩
  | cons o os ih =>
    cases h with
    | cons first rest =>
      rcases ih rest with ⟨s₁, rfl, ho⟩ | ⟨before, peer, observer, after, rfl, ho⟩
      · cases s? with
        | none =>
          cases first with
          | created peer observer => exact Or.inr ⟨[], peer, observer, os, rfl, ho⟩
        | some s₀ => exact Or.inl ⟨s₀, rfl, ho.cons first⟩
      · exact Or.inr ⟨o :: before, peer, observer, after, rfl, ho⟩

theorem Path.created {limit : Nat} {os : List Occurrence} {s : Standing}
    (h : Path limit none os (some s)) :
    ∃ before peer observer after, os = before ++ .created peer observer :: after ∧
      Ongoing limit (.start peer observer) after s := by
  rcases h.exists_created with ⟨_, hnone, _⟩ | hcreated
  · cases hnone
  · exact hcreated

theorem Passes.isCreated {limit : Nat} {s : Standing} {o : Occurrence} {s? : Option Standing}
    (h : Passes limit (some s) o s?) : o.isCreated = false := by
  cases h <;> rfl

/-- What happens to a transaction itself after its creation, before its id is taken anew. -/
def lifespan (after : List Occurrence) : List Occurrence := after.takeWhile fun o => !o.isCreated

theorem lifespan_append {os : List Occurrence} (h : ∀ o ∈ os, o.isCreated = false)
    (later : List Occurrence) : lifespan (os ++ later) = os ++ lifespan later := by
  apply List.takeWhile_append_of_pos
  intro o ho
  rw [h o ho]
  rfl

theorem Ongoing.lifespan_eq {limit : Nat} {s s' : Standing} {os : List Occurrence}
    (h : Ongoing limit s os s') : lifespan os = os := by
  have ho := lifespan_append (fun o ho => (h.steady o ho).1) []
  rw [List.append_nil] at ho
  rw [ho]
  exact List.append_nil os

theorem Path.lifespan_eq_nil {limit : Nat} {os : List Occurrence} {last : Option Standing}
    (h : Path limit none os last) : lifespan os = [] := by
  cases h with
  | nil => rfl
  | cons first rest => cases first; rfl

/-- The lifespan of a transaction: all of it while it lives, or it ends with an end. -/
theorem Path.lifespan_cases {limit : Nat} {s : Standing} {os : List Occurrence}
    {last : Option Standing} (h : Path limit (some s) os last) :
    (∃ s', last = some s' ∧ lifespan os = os ∧ Ongoing limit s (lifespan os) s') ∨
    ∃ front ending s', lifespan os = front ++ [ending] ∧ Ongoing limit s front s' ∧
      Passes limit (some s') ending none ∧ (lifespan os = os → last = none) := by
  rcases h.ongoing_or_ended with ⟨s', hl, ho⟩ | ⟨front, ending, back, s', rfl, ho, he, hb⟩
  · exact Or.inl ⟨s', hl, ho.lifespan_eq, ho.lifespan_eq.symm ▸ ho⟩
  · have hfront : ∀ o ∈ front ++ [ending], o.isCreated = false := by
      intro o hm
      rcases List.mem_append.mp hm with hm | hm
      · exact (ho.steady o hm).1
      · rw [List.mem_singleton.mp hm]
        exact he.isCreated
    have hown : lifespan (front ++ ending :: back) = front ++ [ending] := by
      rw [List.append_cons, lifespan_append hfront, hb.lifespan_eq_nil, List.append_nil]
    refine Or.inr ⟨front, ending, s', hown, ho, he, ?_⟩
    intro heq
    rw [hown] at heq
    have hback : back = [] := by
      have hlength := congrArg List.length heq
      simp only [List.length_append, List.length_cons, List.length_nil] at hlength
      exact List.eq_nil_of_length_eq_zero (by omega)
    subst hback
    cases hb
    rfl

/-- Nothing follows an end in a lifespan. -/
theorem Path.end_of_lifespan {limit : Nat} {s : Standing} {os : List Occurrence}
    {last : Option Standing} (h : Path limit (some s) os last) {front back : List Occurrence}
    {ending : Occurrence} (hl : lifespan os = front ++ ending :: back)
    (hend : ending.isEnd = true) :
    back = [] ∧ ∃ s', Ongoing limit s front s' ∧ Passes limit (some s') ending none ∧
      (lifespan os = os → last = none) := by
  have hsteady {s' : Standing} {before : List Occurrence} (ho : Ongoing limit s before s') :
      ending ∉ before := by
    intro hm
    rw [(ho.steady ending hm).2] at hend
    cases hend
  rcases h.lifespan_cases with ⟨s', _, _, ho⟩ | ⟨before, ending', s', hb, ho, he, hlast⟩
  · rw [hl] at ho
    exact absurd (List.mem_append_right front List.mem_cons_self) (hsteady ho)
  · rw [hl] at hb
    rcases List.eq_nil_or_concat back with rfl | ⟨back, o, rfl⟩
    · obtain ⟨rfl, hsingle⟩ := List.append_inj' hb rfl
      obtain rfl := List.singleton_inj.mp hsingle
      exact ⟨rfl, s', ho, he, hlast⟩
    · rw [List.concat_eq_append, ← List.cons_append, ← List.append_assoc] at hb
      obtain ⟨rfl, _⟩ := List.append_inj' hb rfl
      exact absurd (List.mem_append_right front List.mem_cons_self) (hsteady ho)

variable {κ : Type}

def Transaction.standing (t : Transaction κ) : Standing :=
  ⟨t.peer, t.observer, t.progress, t.retransmissions.toNat⟩

theorem Transaction.retransmissions_of_timer {t : Transaction κ} {timer : RetryTimer}
    (h : t.timer = some timer) : t.retransmissions = timer.attempts := by
  rw [retransmissions, h]

/-- A message that is sent is not counted. -/
theorem Engine.retransmissions_of_arm? {e : Engine κ} {t : Transaction κ} {now : Instant}
    {timer : Option RetryTimer} {rng : Option ChaCha} (h : e.arm? t now = some (timer, rng)) :
    ({ t with timer, progress := .sent } : Transaction κ).retransmissions =
      t.retransmissions := by
  rcases arm?_cases h with rfl | ⟨hn, timer, rfl, _, ha⟩
  · rfl
  · simp only [Transaction.retransmissions, hn, ha]

/-- Every change of a sound transaction is one that can happen. -/
theorem Change.path {e : Engine κ} {id : UInt16} {t? t?' : Option (Transaction κ)}
    {told : List Occurrence} (h : Change e id t? told t?')
    (hs : ∀ t, t? = some t → t.Sound e.config) :
    Path e.config.maxRetransmit.toNat (t?.map (·.standing)) told (t?'.map (·.standing)) := by
  cases h with
  | stays => exact .nil _
  | created peer context observer => exact .single (.created peer observer)
  | message hm =>
    obtain ⟨_, rfl⟩ := Transaction.eq_of_setMessage hm
    exact .nil _
  | context t context => exact .nil _
  | @sent t now reply timer rng accepted armed =>
    have hstanding : ({ t with timer, progress := .sent } : Transaction κ).standing =
        { t.standing with progress := .sent } := by
      simp only [Transaction.standing, Engine.retransmissions_of_arm? armed]
    rw [Option.map_some, Option.map_some, hstanding]
    exact .single (.sent t.standing)
  | @retransmitted t timer now running due =>
    have ht := hs t rfl
    have hr := ht.timer timer running
    have hsent : t.progress = .sent := ht.waiting (by rw [running]; rfl)
    have hold : t.retransmissions = timer.attempts := Transaction.retransmissions_of_timer running
    have hlt : t.standing.retransmissions < e.config.maxRetransmit.toNat := by
      have hlt := RetryTimer.attempts_lt_of_retry due
      rw [hr.maxAttempts, ← hold] at hlt
      exact hlt
    have hstanding :
        ({ t with timer := some (timer.restart now) } : Transaction κ).standing =
          { t.standing with retransmissions := t.standing.retransmissions + 1 } := by
      have hcount := RetryTimer.toNat_attempts_restart due now
      rw [← hold] at hcount
      exact congrArg (Standing.mk t.peer t.observer t.progress) hcount
    rw [Option.map_some, Option.map_some, hstanding]
    exact .single (.retransmitted hsent hlt)
  | @abandoned t timer now running due =>
    have ht := hs t rfl
    have hr := ht.timer timer running
    have hsent : t.progress = .sent := ht.waiting (by rw [running]; rfl)
    have hlimit : t.standing.retransmissions = e.config.maxRetransmit.toNat := by
      have hle := RetryTimer.le_attempts_of_giveUp due
      rw [hr.maxAttempts] at hle
      have heq : timer.attempts = e.config.maxRetransmit := UInt16.le_antisymm hr.attempts hle
      rw [← heq, ← Transaction.retransmissions_of_timer running]
      rfl
    exact .single (.abandoned hsent hlimit)
  | answered t response => exact .single (.answered t.standing response)
  | cleared t => exact .single (.cleared t.standing)

namespace Engine

def standing? (e : Engine κ) (id : UInt16) : Option Standing := (e.get? id).map (·.standing)

theorem Sound.path_report {e : Engine κ} (h : e.Sound) (o : Operation κ) (id : UInt16) :
    Path e.config.maxRetransmit.toNat (e.standing? id) (occurrences (e.report o) id)
      ((e.apply o).engine.standing? id) := by
  have hold : ∀ t, e.get? id = some t → t.Sound e.config := fun t ht =>
    h.transactions t (mem_live_of_get? ht).1
  exact ((e.transition o).change h.unique id).path hold

/-- What the results of operations tell about an id is a path to where it stands. -/
theorem Sound.path_history {e : Engine κ} (h : e.Sound) (ops : List (Operation κ)) (id : UInt16) :
    Path e.config.maxRetransmit.toNat (e.standing? id) (occurrences (e.history ops) id)
      ((e.run ops).standing? id) := by
  induction ops generalizing e with
  | nil => exact .nil _
  | cons o ops ih =>
    obtain ⟨_, hconfig, _⟩ := (e.transition o).frame
    have hrest := ih ((e.transition o).sound h)
    rw [hconfig] at hrest
    rw [history, occurrences_append]
    exact (h.path_report o id).append hrest

theorem path_history (clock : Clock) (config : Config) (ops : List (Operation κ)) (id : UInt16) :
    Path config.maxRetransmit.toNat none (occurrences ((new clock config).history ops) id)
      (((new clock config).run ops).standing? id) := by
  have hnone : (new clock config : Engine κ).standing? id = none := by
    rw [standing?, get?, live_new]
    rfl
  have h := (sound_new clock config : (new clock config : Engine κ).Sound).path_history ops id
  rw [hnone] at h
  exact h

/-- A live transaction has been created, and it has not ended since. -/
theorem exists_created_of_get? {clock : Clock} {config : Config} {ops : List (Operation κ)}
    {id : UInt16} {t : Transaction κ} (h : ((new clock config).run ops).get? id = some t) :
    ∃ before peer observer after, occurrences ((new clock config).history ops) id =
        before ++ .created peer observer :: after ∧
      Ongoing config.maxRetransmit.toNat (.start peer observer) after t.standing := by
  have hpath := path_history clock config ops id
  rw [standing?, h] at hpath
  exact hpath.created

/-- From a creation on, what happens is a path of the new transaction. -/
theorem path_after_created {clock : Clock} {config : Config} {ops : List (Operation κ)}
    {id : UInt16} {before after : List Occurrence} {peer : Address} {observer : Observer}
    (h : occurrences ((new clock config).history ops) id =
      before ++ .created peer observer :: after) :
    Path config.maxRetransmit.toNat (some (.start peer observer)) after
      (((new clock config).run ops).standing? id) := by
  have hpath := path_history clock config ops id
  rw [h] at hpath
  obtain ⟨_, _, hcreated⟩ := hpath.exists_of_append
  cases hcreated with
  | cons first rest =>
    cases first
    exact rest

end Engine

end Coap
