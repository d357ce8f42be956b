import Coap.Proofs.Addressee
import Coap.Proofs.Transmissions

namespace Coap

variable {κ : Type}

/-- Results that say the same: what is due may come in any order, but each of it once. -/
def Operation.SameResult : (o : Operation κ) → o.Result → o.Result → Prop
  | .schedule _, (due : List Due), (due' : List Due) =>
    due.Perm due' ∧ (due.map (·.event.id)).Nodup
  | .tick .., ((due, _) : List Due × Option TransmitError),
      ((due', _) : List Due × Option TransmitError) =>
    due.Perm due' ∧ (due.map (·.event.id)).Nodup
  | _, r, r' => r = r'

/-- A table has its transactions in some of its slots, and the others are free. -/
theorem exists_perm_slots (slots : List (Option (Transaction κ))) : ∃ free, slots.Perm
    ((slots.filterMap fun slot => slot).map some ++ List.replicate free none) := by
  induction slots with
  | nil => exact ⟨0, .nil⟩
  | cons slot slots ih =>
    obtain ⟨free, hperm⟩ := ih
    cases slot with
    | some t => exact ⟨free, hperm.cons (some t)⟩
    | none => exact ⟨free + 1, (hperm.cons none).trans List.perm_middle.symm⟩

namespace Engine

/-- Engines that differ only in the order of their slots. -/
def Alike (e e' : Engine κ) : Prop := ∃ slots, e.slots.Perm slots ∧ e' = { e with slots }

/-- Steps that do the same, with results that are related in some way, but for the order of the
slots. -/
structure AlikeStep {α : Type} (same : α → α → Prop) (s s' : Step κ α) : Prop where
  result : same s.result s'.result
  engine : s.engine.Alike s'.engine
  completions : s.effects.completions.Perm s'.effects.completions

theorem mem_live_iff_get? {e : Engine κ} (h : e.Unique) {t : Transaction κ} :
    t ∈ e.live ↔ e.get? t.id = some t :=
  ⟨fun ht => h.get?_of_mem ht, fun ht => (mem_live_of_get? ht).1⟩

theorem Unique.live_nodup {e : Engine κ} (h : e.Unique) : e.live.Nodup :=
  List.Pairwise.of_map (·.id) (fun _ _ hne he => hne (congrArg _ he)) h

theorem Unique.of_perm {e e' : Engine κ} (h : e.Unique) (hp : e.slots.Perm e'.slots) :
    e'.Unique :=
  ((hp.filterMap _).map _).nodup_iff.mp h

/-- With unique ids it does not matter in which slot a transaction is. -/
theorem Unique.get?_eq_of_perm {e e' : Engine κ} (h : e.Unique) (hp : e.slots.Perm e'.slots)
    (id : UInt16) : e.get? id = e'.get? id := by
  have hlive : e.live.Perm e'.live := hp.filterMap _
  have hu' := h.of_perm hp
  cases hg : e.get? id with
  | some t =>
    obtain ⟨ht, rfl⟩ := mem_live_of_get? hg
    exact (hu'.get?_of_mem (hlive.mem_iff.mp ht)).symm
  | none =>
    have hfree := get?_eq_none_iff.mp hg
    rw [(hlive.map _).mem_iff] at hfree
    exact (get?_eq_none_iff.mpr hfree).symm

/-- Tables of the same size are permutations of each other if they give the same transactions. -/
theorem Unique.perm_iff_get? {e e' : Engine κ} (h : e.Unique) (h' : e'.Unique)
    (room : e.slots.length = e'.slots.length) :
    e.slots.Perm e'.slots ↔ ∀ id, e.get? id = e'.get? id := by
  constructor
  · exact h.get?_eq_of_perm
  · intro hget
    have hmem (t : Transaction κ) : t ∈ e.live ↔ t ∈ e'.live := by
      rw [mem_live_iff_get? h, mem_live_iff_get? h', hget]
    have hlive : e.live.Perm e'.live :=
      (List.perm_ext_iff_of_nodup h.live_nodup h'.live_nodup).mpr hmem
    obtain ⟨free, hp⟩ := exists_perm_slots e.slots
    obtain ⟨free', hp'⟩ := exists_perm_slots e'.slots
    have hsize := hlive.length_eq
    have hlength := hp.length_eq
    have hlength' := hp'.length_eq
    simp only [List.length_append, List.length_map, List.length_replicate] at hlength hlength'
    have hfree : free = free' := by
      unfold live at hsize
      omega
    subst hfree
    exact hp.trans ((((hlive.map some).append_right _)).trans hp'.symm)

/-- The slot that is found is the only one with its id, and the only one that is replaced. -/
theorem Unique.replace_found {e : Engine κ} (h : e.Unique) {id : UInt16} {t : Transaction κ}
    (found : e.get? id = some t) (slot : Option (Transaction κ)) :
    ∃ front back, e.slots = front ++ some t :: back ∧
      (∀ u, some u ∈ front ++ back → u.id ≠ id) ∧
      (e.replace id slot).slots = front ++ slot :: back := by
  obtain ⟨ht, rfl⟩ := mem_live_of_get? found
  obtain ⟨s, hmem, rfl⟩ := List.mem_filterMap.mp ht
  obtain ⟨front, back, hs⟩ := List.append_of_mem hmem
  have hlive : e.live.Perm (t :: (front ++ back).filterMap fun slot => slot) := by
    unfold live
    rw [hs]
    exact List.perm_middle.filterMap _
  obtain ⟨hfree, _⟩ := List.nodup_cons.mp ((hlive.map _).nodup_iff.mp h)
  have others (u : Transaction κ) (hu : some u ∈ front ++ back) : u.id ≠ t.id := fun he =>
    hfree (List.mem_map.mpr ⟨u, List.mem_filterMap.mpr ⟨some u, hu, rfl⟩, he⟩)
  have kept {part : List (Option (Transaction κ))} (hpart : ∀ s ∈ part, s ∈ front ++ back) :
      (part.map fun s => if s.any (·.id == t.id) then slot else s) = part := by
    refine (List.map_congr_left fun s hsp => ?_).trans (List.map_id part)
    cases s with
    | none => rfl
    | some u =>
      have hu := others u (hpart _ hsp)
      simp [hu]
  refine ⟨front, back, hs, others, ?_⟩
  rw [Engine.replace, hs, List.map_append, List.map_cons, kept fun s => List.mem_append_left back,
    kept fun s => List.mem_append_right front]
  simp

/-! What the order of the slots has no part in. -/

variable {e e' : Engine κ}

theorem Alike.perm (h : e.Alike e') : e.slots.Perm e'.slots := by
  obtain ⟨slots, hp, rfl⟩ := h
  exact hp

theorem Alike.get? (h : e.Alike e') (hu : e.Unique) (id : UInt16) : e'.get? id = e.get? id :=
  (hu.get?_eq_of_perm h.perm id).symm

theorem Alike.size (h : e.Alike e') : e.size = e'.size := (h.perm.filterMap _).length_eq

theorem Alike.withCounter (h : e.Alike e') (counter : UInt16) :
    ({ e with counter } : Engine κ).Alike { e' with counter } := by
  obtain ⟨slots, hp, rfl⟩ := h
  exact ⟨slots, hp, rfl⟩

theorem Alike.withRng (h : e.Alike e') (rng : Option ChaCha) :
    ({ e with rng } : Engine κ).Alike { e' with rng } := by
  obtain ⟨slots, hp, rfl⟩ := h
  exact ⟨slots, hp, rfl⟩

theorem Alike.replace (h : e.Alike e') (id : UInt16) (slot : Option (Transaction κ)) :
    (e.replace id slot).Alike (e'.replace id slot) := by
  obtain ⟨slots, hp, rfl⟩ := h
  exact ⟨_, hp.map _, rfl⟩

theorem Alike.arm?_eq (h : e.Alike e') (t : Transaction κ) (now : Instant) :
    e'.arm? t now = e.arm? t now := by
  obtain ⟨slots, _, rfl⟩ := h
  rfl

theorem Alike.steps {α : Type} (h : e.Alike e') (r : α) (f : Effects κ) :
    AlikeStep Eq ⟨r, e, f⟩ ⟨r, e', f⟩ := ⟨rfl, h, .refl _⟩

theorem Alike.nextId (h : e.Alike e') (hu : e.Unique) : AlikeStep Eq e.nextId e'.nextId := by
  have hcounter : e'.counter = e.counter := by
    obtain ⟨slots, _, rfl⟩ := h
    rfl
  unfold Engine.nextId
  simp only [h.get? hu, hcounter]
  split
  next id _ => exact (h.withCounter (id + 1)).steps _ _
  next => exact h.steps _ _

theorem Alike.create (h : e.Alike e') (hu : e.Unique) (id : UInt16) (peer : Address) (context : κ)
    (observer : Observer) : AlikeStep Eq (e.create id peer context observer)
      (e'.create id peer context observer) := by
  have hresult : (e.create id peer context observer).result =
      (e'.create id peer context observer).result := by
    rw [create_result, create_result, h.get? hu, h.size, h.perm.length_eq]
  rcases e.create_cases id peer context observer with ⟨err, hc⟩ | ⟨_, front, back, hs, hc⟩
  · rcases e'.create_cases id peer context observer with ⟨err', hc'⟩ | ⟨_, front', back', _, hc'⟩
    · rw [hc, hc'] at hresult
      cases hresult
      rw [hc, hc']
      exact h.steps _ _
    · rw [hc, hc'] at hresult
      cases hresult
  · rcases e'.create_cases id peer context observer with ⟨err', hc'⟩ | ⟨_, front', back', hs', hc'⟩
    · rw [hc, hc'] at hresult
      cases hresult
    · rw [hc, hc']
      -- Both take a free slot; what is in the others is the same.
      obtain ⟨slots, hp, rfl⟩ := h
      change slots = _ at hs'
      rw [hs, hs'] at hp
      have hothers : (front ++ back).Perm (front' ++ back') :=
        ((List.perm_middle.symm.trans hp).trans List.perm_middle).cons_inv
      have hslots := (List.perm_middle.trans (hothers.cons
        (some (.new id peer context observer)))).trans List.perm_middle.symm
      exact ⟨rfl, ⟨_, hslots, rfl⟩, .refl _⟩

theorem Alike.setMessage (h : e.Alike e') (hu : e.Unique) (id : UInt16) (m : Message) :
    AlikeStep Eq (e.setMessage id m) (e'.setMessage id m) := by
  unfold Engine.setMessage
  rw [h.get? hu]
  split
  next => exact h.steps _ _
  next =>
    split
    next => exact h.steps _ _
    next => exact (h.replace _ _).steps _ _

theorem Alike.setContext (h : e.Alike e') (hu : e.Unique) (id : UInt16) (context : κ) :
    AlikeStep Eq (e.setContext id context) (e'.setContext id context) := by
  unfold Engine.setContext
  rw [h.get? hu]
  split
  next => exact h.steps _ _
  next => exact (h.replace _ _).steps _ _

theorem Alike.send (h : e.Alike e') (hu : e.Unique) (id : UInt16) (now : Instant)
    (reply : SendReply) : AlikeStep Eq (e.send id now reply) (e'.send id now reply) := by
  unfold Engine.send
  rw [h.get? hu]
  split
  next => exact h.steps _ _
  next t _ =>
    dsimp only
    split
    next => exact h.steps _ _
    next =>
      rw [h.arm?_eq]
      split
      next => exact h.steps _ _
      next => exact ((h.replace _ _).withRng _).steps _ _

theorem Alike.schedule (h : e.Alike e') (now : Instant) :
    (e.schedule now).result.Perm (e'.schedule now).result ∧
      (e.schedule now).engine.Alike (e'.schedule now).engine ∧
      (e.schedule now).effects.completions.Perm (e'.schedule now).effects.completions := by
  obtain ⟨slots, hp, rfl⟩ := h
  have hlive : e.live.Perm ({ e with slots } : Engine κ).live := hp.filterMap _
  refine ⟨(hp.map _).filterMap _, ⟨_, (hp.map _).map _, rfl⟩, ?_⟩
  rw [schedule_completions, schedule_completions]
  exact hlive.flatMap_right _

theorem Alike.complete (h : e.Alike e') (hu : e.Unique) (id : UInt16) (response : Message) :
    AlikeStep Eq (e.complete id response) (e'.complete id response) := by
  unfold Engine.complete
  rw [h.get? hu]
  split
  next => exact (h.replace _ _).steps _ _
  next => exact h.steps _ _

theorem Alike.clear (h : e.Alike e') (hu : e.Unique) (id : UInt16) :
    AlikeStep Eq (e.clear id) (e'.clear id) := by
  unfold Engine.clear
  rw [h.get? hu]
  split
  next => exact (h.replace _ _).steps _ _
  next => exact h.steps _ _

theorem Alike.receive (h : e.Alike e') (hu : e.Unique) (datagram : Bytes) (sender : Address) :
    AlikeStep Eq (e.receive datagram sender) (e'.receive datagram sender) := by
  unfold Engine.receive
  dsimp only
  split
  next => exact h.steps _ _
  next m _ =>
    have haccept : AlikeStep Eq (e.accept m sender) (e'.accept m sender) := by
      unfold Engine.accept
      split
      next =>
        have hcomplete := h.complete hu m.id m
        dsimp only
        rw [hcomplete.result]
        exact ⟨rfl, hcomplete.engine, hcomplete.completions⟩
      next => exact h.steps _ _
    exact ⟨congrArg Except.ok haccept.result, haccept.engine, haccept.completions⟩

theorem Alike.poll (h : e.Alike e') (hu : e.Unique) (arrival : Option Arrival) (buffer : Bytes) :
    AlikeStep Eq (e.poll arrival buffer) (e'.poll arrival buffer) := by
  cases arrival with
  | none => exact h.steps _ _
  | some arrival =>
    cases arrival with
    | fault code => exact h.steps _ _
    | datagram bytes claimed sender =>
      have hreceive := h.receive hu ((fill buffer bytes).take claimed) sender
      exact ⟨congrArg (Except.mapError PollError.decode) hreceive.result, hreceive.engine,
        hreceive.completions⟩

/-- No operation can tell engines apart that differ only in the order of their slots. -/
theorem Alike.apply (h : e.Alike e') (hu : e.Unique) (o : Operation κ) :
    AlikeStep o.SameResult (e.apply o) (e'.apply o) := by
  cases o with
  | nextId => exact h.nextId hu
  | create id peer context observer => exact h.create hu id peer context observer
  | setMessage id m => exact h.setMessage hu id m
  | setContext id context => exact h.setContext hu id context
  | send id now reply => exact h.send hu id now reply
  | schedule now =>
    obtain ⟨hdue, hengine, hended⟩ := h.schedule now
    exact ⟨⟨hdue, hu.due_ids_nodup now⟩, hengine, hended⟩
  | tick now replies =>
    obtain ⟨hdue, hengine, hended⟩ := h.schedule now
    refine ⟨⟨hdue, hu.due_ids_nodup now⟩, hengine, ?_⟩
    change ((e.schedule now).effects.completions ++ (resend _ _ _).2.completions).Perm
      ((e'.schedule now).effects.completions ++ (resend _ _ _).2.completions)
    rw [resend_completions, resend_completions, List.append_nil, List.append_nil]
    exact hended
  | complete id response => exact h.complete hu id response
  | clear id => exact h.clear hu id
  | receive datagram sender => exact h.receive hu datagram sender
  | poll arrival buffer => exact h.poll hu arrival buffer

theorem Alike.run (h : e.Alike e') (hu : e.Unique) (ops : List (Operation κ)) :
    (e.run ops).Alike (e'.run ops) := by
  induction ops generalizing e e' with
  | nil => exact h
  | cons o ops ih => exact ih (h.apply hu o).engine ((e.transition o).unique hu)

/-- What goes out is the same, but for the order in which retransmissions are due. -/
theorem Alike.letters (h : e.Alike e') (hs : e.Sound) (hs' : e'.Sound) (o : Operation κ) :
    ((e.apply o).effects.transmissions.map Transmission.letter).Perm
      ((e'.apply o).effects.transmissions.map Transmission.letter) := by
  have hsenders : (e.senders o).Perm (e'.senders o) := by
    cases o with
    | send id now reply =>
      simp only [senders, h.get? hs.unique]
      exact .refl _
    | tick now replies => exact (h.schedule now).1.filterMap _
    | nextId | create | setMessage | setContext | schedule | complete | clear | receive | poll =>
      exact .refl _
  have hfind : (fun id => (e'.get? id).map Transaction.letter) =
      fun id => (e.get? id).map Transaction.letter := by
    funext id
    rw [h.get? hs.unique]
  have hsome := hsenders.map fun id => (e.get? id).map Transaction.letter
  rw [← hs.transmissions_apply, ← hfind, ← hs'.transmissions_apply] at hsome
  have hletters := hsome.filterMap fun letter? => letter?
  rw [List.filterMap_map, List.filterMap_map] at hletters
  simpa [Function.comp_def] using hletters

theorem alike_of_perm (clock : e'.clock = e.clock) (config : e'.config = e.config)
    (counter : e'.counter = e.counter) (rng : e'.rng = e.rng) (hp : e.slots.Perm e'.slots) :
    e.Alike e' := by
  refine ⟨e'.slots, hp, ?_⟩
  rw [← clock, ← config, ← counter, ← rng]

/-- The table is only a map from ids to transactions, of limited size. Engines that differ in the
order of their slots have the same transactions, and whatever is done to both, they give the same
results. A transaction is replaced in the one slot where it is found. An id that is taken is refused
before a table that is full. An operation changes at most the transaction that it is for and those
that it says are due. -/
theorem table_represents_map (clock : Clock) (config : Config) (ops ops' : List (Operation κ))
    (counter : ((new clock config).run ops).counter = ((new clock config).run ops').counter)
    (rng : ((new clock config).run ops).rng = ((new clock config).run ops').rng) :
    let e := (new clock config).run ops
    let e' := (new clock config).run ops'
    (e.slots.Perm e'.slots ↔ ∀ id, e.get? id = e'.get? id) ∧
    (e.slots.Perm e'.slots → ∀ later,
      (e.run later).Alike (e'.run later) ∧
      (e.run later).size = (e'.run later).size ∧
      (∀ id, (e.run later).get? id = (e'.run later).get? id) ∧
      ∀ o, AlikeStep o.SameResult ((e.run later).apply o) ((e'.run later).apply o) ∧
        (((e.run later).apply o).effects.transmissions.map Transmission.letter).Perm
          (((e'.run later).apply o).effects.transmissions.map Transmission.letter)) ∧
    (∀ id t slot, e.get? id = some t → ∃ front back, e.slots = front ++ some t :: back ∧
      (∀ u, some u ∈ front ++ back → u.id ≠ id) ∧
      (e.replace id slot).slots = front ++ slot :: back) ∧
    (∀ id peer context observer, (e.create id peer context observer).result =
      if (e.get? id).isSome then .error (.idInUse id)
      else if e.size < config.maxTransactions then .ok () else .error .tableFull) ∧
    ∀ o p, o.addressee? ≠ some p → (∀ d ∈ o.due (e.apply o).result, d.event.id ≠ p) →
      (e.apply o).engine.get? p = e.get? p := by
  intro e e'
  have hs : e.Sound := run_sound (sound_new clock config) ops
  have hs' : e'.Sound := run_sound (sound_new clock config) ops'
  obtain ⟨hclock, hconfig⟩ := run_frame (new clock config : Engine κ) ops
  obtain ⟨hclock', hconfig'⟩ := run_frame (new clock config : Engine κ) ops'
  have room : e.slots.length = config.maxTransactions := hs.room.trans
    (congrArg Config.maxTransactions hconfig)
  have room' : e'.slots.length = config.maxTransactions := hs'.room.trans
    (congrArg Config.maxTransactions hconfig')
  refine ⟨hs.unique.perm_iff_get? hs'.unique (room.trans room'.symm), ?_, ?_, ?_, ?_⟩
  · intro hp later
    have halike : e.Alike e' := alike_of_perm (hclock'.trans hclock.symm)
      (hconfig'.trans hconfig.symm) counter.symm rng.symm hp
    have hlater := halike.run hs.unique later
    have hsound := run_sound hs later
    refine ⟨hlater, hlater.size, fun id => (hlater.get? hsound.unique id).symm, fun o => ?_⟩
    exact ⟨hlater.apply hsound.unique o, hlater.letters hsound (run_sound hs' later) o⟩
  · intro id t slot found
    exact hs.unique.replace_found found slot
  · intro id peer context observer
    rw [create_result, room]
  · intro o p other silent
    exact hs.unique.get?_apply_of_ne other silent

deriving instance DecidableEq for Transaction

/-- Two transactions that were created in either order are due in either order. -/
theorem table_represents_map_swapped :
    let config : Config :=
      { Config.standard with strategy := ⟨.constant, 10, 10⟩, maxTransactions := 2 }
    let peer : Address := .v4 ⟨#[10, 0, 0, 1], rfl⟩ 5683
    let sending : List (Operation Unit) := [.setMessage 1 (.new .confirmable .get 0),
      .setMessage 2 (.new .confirmable .get 0), .send 1 ⟨0⟩ .accepted, .send 2 ⟨0⟩ .accepted]
    let e := (new .milliseconds config).run
      ([.create 1 peer () .owner, .create 2 peer () .owner] ++ sending)
    let e' := (new .milliseconds config).run
      ([.create 2 peer () .owner, .create 1 peer () .owner] ++ sending)
    (e.schedule ⟨10⟩).result = [.retransmit 1, .retransmit 2] ∧
      (e'.schedule ⟨10⟩).result = [.retransmit 2, .retransmit 1] ∧
      (e.schedule ⟨10⟩).engine.Alike (e'.schedule ⟨10⟩).engine := by
  intro config peer sending e e'
  have single {a b : Engine Unit} (h : AlikeStep (Operation.SameResult (.schedule ⟨10⟩))
      ((a.run []).apply (.schedule ⟨10⟩)) ((b.run []).apply (.schedule ⟨10⟩))) :
      (a.schedule ⟨10⟩).engine.Alike (b.schedule ⟨10⟩).engine := h.engine
  have hperm : e.slots.Perm e'.slots := by decide +kernel
  have counter : e.counter = e'.counter := by decide +kernel
  have rng : e.rng = e'.rng := by decide +kernel
  obtain ⟨_, hlater, _⟩ := table_represents_map .milliseconds config _ _ counter rng
  have hstep := ((hlater hperm []).2.2.2 (.schedule ⟨10⟩)).1
  exact ⟨by decide +kernel, by decide +kernel, single hstep⟩

end Engine

end Coap
