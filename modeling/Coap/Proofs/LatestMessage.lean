import Coap.Proofs.EngineInvariant

namespace Coap

variable {κ : Type}

/-- The message of the transaction with an id after an operation, given the one before: a new
transaction has none. -/
def Operation.latest (id : UInt16) : (o : Operation κ) → o.Result → Option Message → Option Message
  | .create p _ _ _, Except.ok (), held => if p = id then none else held
  | .setMessage p m, some (Except.ok ()), held => if p = id then some m else held
  | _, _, held => held

/-- The message that the transaction with an id was given last, since it was created; before the
operations it held a given one. -/
def Engine.latest (e : Engine κ) (id : UInt16) (held : Option Message) :
    List (Operation κ) → Option Message
  | [] => held
  | o :: rest => (e.apply o).engine.latest id (o.latest id (e.apply o).result held) rest

namespace Transaction

/-- The datagram of a message under an id, if a packet has room for it. -/
def datagram (id : UInt16) (m : Message) : Bytes :=
  relabel id (m.writeTo (List.replicate maxPacketSize 0)).bytes

/-- A transaction is as its message made it. Without one it is as it was created. -/
def Holds (t : Transaction κ) : Option Message → Prop
  | none => t.wire = [] ∧ t.type = .confirmable
  | some m => (m.writeTo (List.replicate maxPacketSize 0)).fault = none ∧
      t.wire = datagram t.id m ∧ t.type = m.type

/-- What is sent for a transaction stays the same. -/
structure SameMail (t t' : Transaction κ) : Prop where
  id : t'.id = t.id
  wire : t'.wire = t.wire
  type : t'.type = t.type

theorem SameMail.refl (t : Transaction κ) : t.SameMail t := ⟨rfl, rfl, rfl⟩

theorem Holds.congr {t t' : Transaction κ} {held : Option Message} (h : t.Holds held)
    (same : t.SameMail t') : t'.Holds held := by
  cases held with
  | none => exact ⟨same.wire.trans h.1, same.type.trans h.2⟩
  | some m =>
    obtain ⟨hf, hw, ht⟩ := h
    exact ⟨hf, by rw [same.wire, hw, same.id], same.type.trans ht⟩

theorem holds_of_setMessage {t t' : Transaction κ} {m : Message} (h : t.setMessage m = .ok t') :
    t'.Holds (some m) := by
  obtain ⟨hf, rfl⟩ := eq_of_setMessage h
  exact ⟨hf, rfl, rfl⟩

end Transaction

/-- Where the datagram of a live transaction comes from, after an operation: it was there before,
there is none yet, or the operation has set it. -/
inductive Origin (e : Engine κ) (id : UInt16) (t' : Transaction κ) : Operation κ → Prop
  | kept {o : Operation κ} {t : Transaction κ} (found : e.get? id = some t)
      (same : t.SameMail t') (latest : ∀ held, o.latest id (e.apply o).result held = held) :
      Origin e id t' o
  | created {o : Operation κ} {peer : Address} {context : κ} {observer : Observer}
      (fresh : t' = .new id peer context observer)
      (latest : ∀ held, o.latest id (e.apply o).result held = none) : Origin e id t' o
  | assigned {t : Transaction κ} {m : Message} (found : e.get? id = some t)
      (taken : t.setMessage m = .ok t')
      (latest : ∀ held, Operation.latest id (.setMessage id m)
        (e.apply (.setMessage id m)).result held = some m) :
      Origin e id t' (.setMessage id m)

namespace Engine

theorem Unique.sameMail_replace {e : Engine κ} (h : e.Unique) {p : UInt16} {u u' : Transaction κ}
    (found : e.get? p = some u) (same : u.SameMail u') {id : UInt16} {t' : Transaction κ}
    (ht' : (e.replace p (some u')).get? id = some t') :
    ∃ t, e.get? id = some t ∧ t.SameMail t' := by
  have hid : ∀ x, some u' = some x → x.id = p := by
    rintro _ ⟨rfl⟩
    exact same.id.trans (mem_live_of_get? found).2
  rw [h.get?_replace hid] at ht'
  by_cases hp : id = p
  · rw [if_pos hp, hp, found, Option.bind_some] at ht'
    cases ht'
    exact ⟨u, hp.symm ▸ found, same⟩
  · rw [if_neg hp] at ht'
    exact ⟨t', ht', .refl t'⟩

theorem Unique.sameMail_remove {e : Engine κ} (h : e.Unique) {p id : UInt16} {t' : Transaction κ}
    (ht' : (e.replace p none).get? id = some t') : ∃ t, e.get? id = some t ∧ t.SameMail t' := by
  rw [h.get?_remove] at ht'
  split at ht'
  next => cases ht'
  next => exact ⟨t', ht', .refl t'⟩

theorem Unique.sameMail_schedule {e : Engine κ} (h : e.Unique) (now : Instant) {id : UInt16}
    {t' : Transaction κ} (ht' : (e.schedule now).engine.get? id = some t') :
    ∃ t, e.get? id = some t ∧ t.SameMail t' := by
  rw [h.get?_schedule] at ht'
  obtain ⟨t, ht, hv'⟩ := Option.bind_eq_some_iff.mp ht'
  refine ⟨t, ht, ?_⟩
  rcases visit_cases e.clock now t with hv | ⟨timer, _, _, hv⟩ | ⟨timer, _, _, hv⟩
  · rw [hv] at hv'
    cases hv'
    exact .refl _
  · rw [hv] at hv'
    cases hv'
    exact ⟨rfl, rfl, rfl⟩
  · rw [hv] at hv'
    cases hv'

theorem Unique.sameMail_send {e : Engine κ} (h : e.Unique) {p : UInt16} {now : Instant}
    {reply : SendReply} {id : UInt16} {t' : Transaction κ}
    (ht' : (e.send p now reply).engine.get? id = some t') :
    ∃ t, e.get? id = some t ∧ t.SameMail t' := by
  simp only [send] at ht'
  split at ht'
  next => exact ⟨t', ht', .refl t'⟩
  next u hu =>
    split at ht'
    next => exact ⟨t', ht', .refl t'⟩
    next =>
      split at ht'
      next => exact ⟨t', ht', .refl t'⟩
      next timer rng _ =>
        have same : u.SameMail { u with timer, progress := Progress.sent } := ⟨rfl, rfl, rfl⟩
        exact h.sameMail_replace hu same ht'

theorem Unique.sameMail_complete {e : Engine κ} (h : e.Unique) {p : UInt16} {response : Message}
    {id : UInt16} {t' : Transaction κ}
    (ht' : (e.complete p response).engine.get? id = some t') :
    ∃ t, e.get? id = some t ∧ t.SameMail t' := by
  simp only [complete] at ht'
  split at ht'
  next u hu =>
    exact h.sameMail_remove ht'
  next => exact ⟨t', ht', .refl t'⟩

theorem Unique.sameMail_receive {e : Engine κ} (h : e.Unique) {datagram : Bytes} {sender : Address}
    {id : UInt16} {t' : Transaction κ}
    (ht' : (e.receive datagram sender).engine.get? id = some t') :
    ∃ t, e.get? id = some t ∧ t.SameMail t' := by
  have hr := e.receipt datagram sender
  generalize e.receive datagram sender = s at hr ht'
  cases hr with
  | refused | passed => exact ⟨t', ht', .refl t'⟩
  | matched => exact h.sameMail_remove ht'

/-- What a creation makes of the transaction with an id: the new one has its id, and the others are
as they were. -/
theorem get?_create (e : Engine κ) (p : UInt16) (peer : Address) (context : κ)
    (observer : Observer) (id : UInt16) :
    (∃ err, (e.create p peer context observer).result = .error err ∧
      (e.create p peer context observer).engine = e) ∨
    (e.create p peer context observer).result = .ok () ∧
      (e.create p peer context observer).engine.get? id =
        if p = id then some (.new p peer context observer) else e.get? id := by
  rcases e.create_cases p peer context observer with ⟨err, hc⟩ | ⟨hfree, front, back, hs, hc⟩
  · rw [hc]
    exact Or.inl ⟨err, rfl, rfl⟩
  · have hold (id : UInt16) : e.get? id = ((front.filterMap fun s => s).find? (·.id == id)).or
        ((back.filterMap fun s => s).find? (·.id == id)) := by
      rw [get?, live, hs, List.filterMap_append, List.find?_append]
      rfl
    rw [hc]
    refine Or.inr ⟨rfl, ?_⟩
    have hnew : (some (.new p peer context observer) :: back).filterMap (fun s => s) =
        .new p peer context observer :: back.filterMap fun s => s := rfl
    rw [get?, live, List.filterMap_append, List.find?_append, hnew]
    by_cases hp : p = id
    · subst hp
      rw [hold] at hfree
      rw [if_pos rfl, (Option.or_eq_none_iff.mp hfree).1, Option.none_or,
        List.find?_cons_of_pos (by simp [Transaction.new])]
    · rw [if_neg hp, hold, List.find?_cons_of_neg (by simpa [Transaction.new] using hp)]

theorem origin_create (e : Engine κ) (p : UInt16) (peer : Address) (context : κ)
    (observer : Observer) {id : UInt16} {t' : Transaction κ}
    (ht' : (e.create p peer context observer).engine.get? id = some t') :
    Origin e id t' (.create p peer context observer) := by
  rcases e.get?_create p peer context observer id with ⟨err, hr, he⟩ | ⟨hr, hg⟩
  · rw [he] at ht'
    refine .kept ht' (.refl t') fun held => ?_
    simp only [apply, Operation.latest, hr]
  · rw [hg] at ht'
    by_cases hp : p = id
    · subst hp
      rw [if_pos rfl] at ht'
      refine .created (Option.some.inj ht').symm fun held => ?_
      simp only [apply, Operation.latest, hr, if_pos]
    · rw [if_neg hp] at ht'
      refine .kept ht' (.refl t') fun held => ?_
      simp only [apply, Operation.latest, hr, if_neg hp]

theorem Unique.origin_setMessage {e : Engine κ} (h : e.Unique) {p : UInt16} {m : Message}
    {id : UInt16} {t' : Transaction κ} (ht' : (e.setMessage p m).engine.get? id = some t') :
    Origin e id t' (.setMessage p m) := by
  cases hu : e.get? p with
  | none =>
    rw [setMessage_of_none hu] at ht'
    refine .kept ht' (.refl t') fun held => ?_
    simp only [apply, setMessage_of_none hu, Operation.latest]
  | some u =>
    cases hm : u.setMessage m with
    | error err =>
      rw [setMessage_of_error hu hm] at ht'
      refine .kept ht' (.refl t') fun held => ?_
      simp only [apply, setMessage_of_error hu hm, Operation.latest]
    | ok u' =>
      have hid : ∀ x, some u' = some x → x.id = p :=
        replaced_id_of_change hu (.message hm : Change e p (some u) [] (some u'))
      rw [setMessage_of_ok hu hm, h.get?_replace hid] at ht'
      by_cases hp : id = p
      · subst hp
        rw [if_pos rfl, hu, Option.bind_some] at ht'
        cases ht'
        refine .assigned hu hm fun held => ?_
        simp only [apply, setMessage_of_ok hu hm, Operation.latest, if_pos]
      · rw [if_neg hp] at ht'
        refine .kept ht' (.refl t') fun held => ?_
        simp only [apply, setMessage_of_ok hu hm, Operation.latest, if_neg (Ne.symm hp)]

/-- Only a new transaction and a message that is taken make a new datagram. -/
theorem Unique.origin {e : Engine κ} (h : e.Unique) (o : Operation κ) {id : UInt16}
    {t' : Transaction κ} (ht' : (e.apply o).engine.get? id = some t') : Origin e id t' o := by
  -- The other operations set no message: for them it is enough that the datagram stays.
  have kept (ho : ∀ held, o.latest id (e.apply o).result held = held)
      (ht : ∃ t, e.get? id = some t ∧ t.SameMail t') : Origin e id t' o := by
    obtain ⟨t, ht, same⟩ := ht
    exact .kept ht same ho
  cases o with
  | create p peer context observer => exact e.origin_create p peer context observer ht'
  | setMessage p m => exact h.origin_setMessage ht'
  | nextId =>
    refine kept (fun _ => rfl) ⟨t', ?_, .refl t'⟩
    rw [← ht']
    simp only [apply, nextId]
    split <;> rfl
  | setContext p context =>
    refine kept (fun _ => rfl) ?_
    simp only [apply, setContext] at ht'
    split at ht'
    next => exact ⟨t', ht', .refl t'⟩
    next u hu =>
      have same : u.SameMail (u.setContext context) := ⟨rfl, rfl, rfl⟩
      exact h.sameMail_replace hu same ht'
  | send p now reply => exact kept (fun _ => rfl) (h.sameMail_send ht')
  | schedule now => exact kept (fun _ => rfl) (h.sameMail_schedule now ht')
  | tick now replies => exact kept (fun _ => rfl) (h.sameMail_schedule now ht')
  | complete p response => exact kept (fun _ => rfl) (h.sameMail_complete ht')
  | clear p =>
    refine kept (fun _ => rfl) ?_
    simp only [apply, clear] at ht'
    split at ht'
    next u hu =>
      exact h.sameMail_remove ht'
    next => exact ⟨t', ht', .refl t'⟩
  | receive datagram sender => exact kept (fun _ => rfl) (h.sameMail_receive ht')
  | poll arrival buffer =>
    refine kept (fun _ => rfl) ?_
    simp only [apply, poll] at ht'
    split at ht'
    next => exact ⟨t', ht', .refl t'⟩
    next => exact ⟨t', ht', .refl t'⟩
    next => exact h.sameMail_receive ht'

theorem Unique.holds_apply {e : Engine κ} (h : e.Unique) {id : UInt16} {held : Option Message}
    (hheld : ∀ t, e.get? id = some t → t.Holds held) (o : Operation κ) {t' : Transaction κ}
    (ht' : (e.apply o).engine.get? id = some t') :
    t'.Holds (o.latest id (e.apply o).result held) := by
  cases h.origin o ht' with
  | kept found same latest =>
    rw [latest]
    exact (hheld _ found).congr same
  | created fresh latest =>
    rw [latest, fresh]
    exact ⟨rfl, rfl⟩
  | assigned found taken latest =>
    rw [latest]
    exact Transaction.holds_of_setMessage taken

theorem Unique.holds_run {e : Engine κ} (h : e.Unique) {id : UInt16} {held : Option Message}
    (hheld : ∀ t, e.get? id = some t → t.Holds held) (ops : List (Operation κ)) :
    ∀ t, (e.run ops).get? id = some t → t.Holds (e.latest id held ops) := by
  induction ops generalizing e held with
  | nil => exact hheld
  | cons o ops ih =>
    exact ih ((e.transition o).unique h) fun _ ht' => h.holds_apply hheld o ht'

/-- Every live transaction is as the last message made it that it was given since its creation. -/
theorem holds_latest {clock : Clock} {config : Config} {ops : List (Operation κ)} {id : UInt16}
    {t : Transaction κ} (h : ((new clock config).run ops).get? id = some t) :
    t.Holds ((new clock config : Engine κ).latest id none ops) := by
  have hunique : (new clock config : Engine κ).Unique := (sound_new clock config).unique
  refine hunique.holds_run (fun u hu => ?_) ops t h
  rw [get?, live_new] at hu
  cases hu

theorem latest_append (e : Engine κ) (id : UInt16) (held : Option Message)
    (ops later : List (Operation κ)) :
    e.latest id held (ops ++ later) = (e.run ops).latest id (e.latest id held ops) later := by
  induction ops generalizing e held with
  | nil => rfl
  | cons o ops ih => exact ih (e.apply o).engine _

end Engine

end Coap
