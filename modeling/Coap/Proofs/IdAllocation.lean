import Coap.Proofs.EngineTransition
import Coap.Proofs.IdSearch

namespace Coap

variable {κ : Type}

/-- What an operation answers to the request for an id, if it is one. -/
def Operation.idAnswer? : (o : Operation κ) → o.Result → Option (Except Exhausted UInt16)
  | .nextId, (answer : Except Exhausted UInt16) => some answer
  | _, _ => none

namespace Engine

/-- The answers to the requests for an id among some operations, in order. -/
def idAnswers (e : Engine κ) : List (Operation κ) → List (Except Exhausted UInt16)
  | [] => []
  | o :: rest => (o.idAnswer? (e.apply o).result).toList ++ (e.apply o).engine.idAnswers rest

/-- Whether operations, one after the other, leave the table of transactions as it is. -/
def KeepsTable (e : Engine κ) : List (Operation κ) → Prop
  | [] => True
  | o :: rest => (e.apply o).engine.slots = e.slots ∧ (e.apply o).engine.KeepsTable rest

/-- The ids that no live transaction has, in the order in which the search comes by them. -/
def freeIds (e : Engine κ) : List UInt16 :=
  (upFrom e.counter 65536).filter fun id => !(e.get? id).isSome

theorem mem_freeIds {e : Engine κ} {id : UInt16} : id ∈ e.freeIds ↔ e.get? id = none := by
  simp [freeIds, mem_upFrom]

theorem nodup_freeIds (e : Engine κ) : e.freeIds.Nodup :=
  (nodup_upFrom e.counter).filter _

/-- Every id is free or that of a live transaction. -/
theorem le_length_freeIds (e : Engine κ) : 65536 ≤ e.freeIds.length + e.size := by
  have hsub : upFrom e.counter 65536 ⊆ e.freeIds ++ e.live.map (·.id) := by
    intro id _
    by_cases hlive : id ∈ e.live.map (·.id)
    · exact List.mem_append_right _ hlive
    · exact List.mem_append_left _ (mem_freeIds.mpr (get?_eq_none_iff.mpr hlive))
  have hlen := (nodup_upFrom e.counter).length_le_of_subset hsub
  rw [length_upFrom, List.length_append, List.length_map] at hlen
  exact hlen

theorem freeId?_eq_head? (e : Engine κ) :
    freeId? (fun id => (e.get? id).isSome) 65536 e.counter = e.freeIds.head? := by
  rw [freeId?_eq_find?, freeIds, List.head?_filter]

theorem nextId_of_freeIds_nil {e : Engine κ} (h : e.freeIds = []) :
    e.nextId = ⟨.error .noFreeId, e, .none⟩ := by
  have hnone : freeId? (fun id => (e.get? id).isSome) 65536 e.counter = none := by
    rw [freeId?_eq_head?, h, List.head?_nil]
  simp only [nextId, hnone]

/-- The search takes the first free id; after that it comes last, for the counter is behind it. -/
theorem freeIds_cons {e : Engine κ} {id : UInt16} {rest : List UInt16}
    (h : e.freeIds = id :: rest) : e.nextId = ⟨.ok id, { e with counter := id + 1 }, .none⟩ ∧
      e.nextId.engine.freeIds = rest ++ [id] := by
  have hfound : freeId? (fun id => (e.get? id).isSome) 65536 e.counter = some id := by
    rw [freeId?_eq_head?, h, List.head?_cons]
  have hstep : e.nextId = ⟨.ok id, { e with counter := id + 1 }, .none⟩ := by
    simp only [nextId, hfound]
  refine ⟨hstep, ?_⟩
  obtain ⟨d, hd, hid, hfree, hbefore⟩ := freeId?_eq_some_iff.mp hfound
  have hcounter : e.counter + UInt16.ofNat (d + 1) = id + 1 := by
    rw [add_ofNat_add, ← hid]
    rfl
  -- Up to the new counter there is only the id that is handed out. This part of the way comes first
  -- from the old counter and last from the new one.
  have hfirst : (upFrom e.counter (d + 1)).filter (fun p => !(e.get? p).isSome) = [id] := by
    rw [hid] at hfree ⊢
    exact filter_upFrom_found hfree hbefore
  have hold : e.freeIds = id ::
      (upFrom (id + 1) (65536 - (d + 1))).filter fun p => !(e.get? p).isSome := by
    have hparts := upFrom_add e.counter (d + 1) (65536 - (d + 1))
    rw [Nat.add_sub_cancel' hd, hcounter] at hparts
    rw [freeIds, hparts, List.filter_append, hfirst]
    rfl
  have hnew : e.nextId.engine.freeIds =
      ((upFrom (id + 1) (65536 - (d + 1))).filter fun p => !(e.get? p).isSome) ++ [id] := by
    have hwrap := upFrom_wrap e.counter hd
    rw [hcounter] at hwrap
    rw [← hfirst, ← List.filter_append, ← hwrap, hstep]
    rfl
  rw [hold] at h
  rw [hnew, (List.cons.inj h).2]

theorem keepsTable_requests (e : Engine κ) (n : Nat) :
    e.KeepsTable (List.replicate n .nextId) := by
  induction n generalizing e with
  | zero => trivial
  | succ n ih =>
    have hslots : e.nextId.engine.slots = e.slots := by
      unfold nextId
      split <;> rfl
    exact ⟨hslots, ih e.nextId.engine⟩

theorem counter_complete (e : Engine κ) (id : UInt16) (response : Message) :
    (e.complete id response).engine.counter = e.counter := by
  unfold complete
  split <;> rfl

theorem counter_receive (e : Engine κ) (datagram : Bytes) (sender : Address) :
    (e.receive datagram sender).engine.counter = e.counter := by
  have h := e.receipt datagram sender
  generalize e.receive datagram sender = s at h ⊢
  cases h <;> rfl

/-- Only requests for an id move the counter. -/
theorem counter_apply {e : Engine κ} {o : Operation κ} (h : o ≠ .nextId) :
    (e.apply o).engine.counter = e.counter := by
  cases o with
  | nextId => exact absurd rfl h
  | create id peer context observer =>
    rcases e.create_cases id peer context observer with ⟨err, hc⟩ | ⟨_, _, _, _, hc⟩
    · rw [apply, hc]
    · rw [apply, hc]
  | setMessage id m =>
    simp only [apply, setMessage]
    split
    next => rfl
    next => split <;> rfl
  | setContext id context =>
    simp only [apply, setContext]
    split <;> rfl
  | send id now reply =>
    simp only [apply, send]
    split
    next => rfl
    next =>
      split
      next => rfl
      next => split <;> rfl
  | schedule now => rfl
  | tick now replies => rfl
  | complete id response => exact e.counter_complete id response
  | clear id =>
    simp only [apply, clear]
    split <;> rfl
  | receive datagram sender => exact e.counter_receive datagram sender
  | poll arrival buffer =>
    cases arrival with
    | none => rfl
    | some arrival =>
      cases arrival with
      | fault code => rfl
      | datagram bytes claimed sender =>
        exact e.counter_receive ((fill buffer bytes).take claimed) sender

/-- As long as the table stays as it is, the requests for an id are answered with the free ids, one
after the other. -/
theorem idAnswers_eq {e : Engine κ} {ops : List (Operation κ)} (h : e.KeepsTable ops)
    (room : (e.idAnswers ops).length ≤ e.freeIds.length) :
    e.idAnswers ops = (e.freeIds.take (e.idAnswers ops).length).map .ok := by
  induction ops generalizing e with
  | nil => rfl
  | cons o ops ih =>
    obtain ⟨hslots, hrest⟩ := h
    by_cases ho : o = .nextId
    · subst ho
      cases hfree : e.freeIds with
      | nil =>
        rw [hfree] at room
        exact absurd room (by simp [idAnswers, Operation.idAnswer?])
      | cons id rest =>
        obtain ⟨hstep, hlater⟩ := freeIds_cons hfree
        have hanswers : e.idAnswers (.nextId :: ops) =
            .ok id :: e.nextId.engine.idAnswers ops := by
          have hresult := congrArg Step.result hstep
          simp only [idAnswers, apply, Operation.idAnswer?, hresult]
          rfl
        rw [hfree, hanswers] at room
        simp only [List.length_cons, Nat.add_le_add_iff_right] at room
        have hroom : (e.nextId.engine.idAnswers ops).length ≤ e.nextId.engine.freeIds.length := by
          rw [hlater, List.length_append]
          omega
        have hkeeps : e.nextId.engine.KeepsTable ops := hrest
        have hnext := ih hkeeps hroom
        rw [hlater, List.take_append_of_le_length room] at hnext
        rw [hanswers, List.length_cons, List.take_succ_cons, List.map_cons, ← hnext]
    · have hanswers : e.idAnswers (o :: ops) = (e.apply o).engine.idAnswers ops := by
        cases o with
        | nextId => exact absurd rfl ho
        | _ => rfl
      have hfree : (e.apply o).engine.freeIds = e.freeIds := by
        have hcounter := counter_apply ho (e := e)
        simp only [freeIds, get?, live, hslots, hcounter]
      rw [hanswers] at room ⊢
      rw [← hfree] at room ⊢
      exact ih hrest room

/-- The id that is found is the first free one counting up from the counter. -/
theorem exists_first_free {e : Engine κ} {p : UInt16} (h : e.get? p = none) : ∃ d < 65536,
    (∀ k < d, (e.get? (e.counter + UInt16.ofNat k)).isSome) ∧
    e.get? (e.counter + UInt16.ofNat d) = none ∧
    e.nextId = ⟨.ok (e.counter + UInt16.ofNat d),
      { e with counter := e.counter + UInt16.ofNat d + 1 }, .none⟩ := by
  have hp := mem_freeIds.mpr h
  cases hfree : e.freeIds with
  | nil => simp [hfree] at hp
  | cons id rest =>
    have hfound := e.freeId?_eq_head?
    rw [hfree, List.head?_cons] at hfound
    obtain ⟨d, hd, rfl, hnone, hbefore⟩ := freeId?_eq_some_iff.mp hfound
    refine ⟨d, hd, hbefore, by simpa using hnone, ?_⟩
    simp only [nextId, hfound]

theorem nextId_of_result {e : Engine κ} {id : UInt16} (h : e.nextId.result = .ok id) :
    e.get? id = none ∧ e.nextId.engine = { e with counter := id + 1 } := by
  cases hfree : e.freeIds with
  | nil =>
    rw [nextId_of_freeIds_nil hfree] at h
    cases h
  | cons p rest =>
    obtain ⟨hstep, _⟩ := freeIds_cons hfree
    rw [hstep] at h ⊢
    obtain rfl : p = id := Except.ok.inj h
    exact ⟨mem_freeIds.mp (hfree ▸ List.mem_cons_self), rfl⟩

/-- A request for an id is answered with the first one, counting up from the counter and on from
zero after the largest, that no live transaction has, and the counter is put behind it. There is
none exactly if all ids are live. As long as the table stays as it is, requests are answered with
different ids that no live transaction has, until all of these are handed out. A transaction with
the id that was handed out last is refused only if the table is full. -/
theorem ids_allocated (e : Engine κ) :
    (e.size < 65536 → ∃ d < 65536,
      (∀ k < d, (e.get? (e.counter + UInt16.ofNat k)).isSome) ∧
      e.get? (e.counter + UInt16.ofNat d) = none ∧
      e.nextId = ⟨.ok (e.counter + UInt16.ofNat d),
        { e with counter := e.counter + UInt16.ofNat d + 1 }, .none⟩) ∧
    (e.nextId.result = .error .noFreeId ↔ ∀ id, (e.get? id).isSome) ∧
    (e.nextId = ⟨.error .noFreeId, e, .none⟩ ↔ ∀ id, (e.get? id).isSome) ∧
    (∀ ops, e.KeepsTable ops → (e.idAnswers ops).length + e.size ≤ 65536 →
      ∃ ids : List UInt16, e.idAnswers ops = ids.map .ok ∧ ids.Nodup ∧
        ∀ id ∈ ids, e.get? id = none) ∧
    ∀ id, e.nextId.result = .ok id → ∀ peer context observer,
      (e.nextId.engine.create id peer context observer).result =
        if e.size < e.slots.length then .ok () else .error .tableFull := by
  have hroom := e.le_length_freeIds
  have hexhausted (h : ∀ id, (e.get? id).isSome) : e.nextId = ⟨.error .noFreeId, e, .none⟩ := by
    apply nextId_of_freeIds_nil
    apply List.eq_nil_iff_forall_not_mem.mpr
    intro id hid
    have hnone := mem_freeIds.mp hid
    exact Option.not_isSome_iff_eq_none.mpr hnone (h id)
  have hlive (h : e.nextId.result = .error .noFreeId) (id : UInt16) : (e.get? id).isSome := by
    apply Classical.byContradiction
    intro hnone
    obtain ⟨d, _, _, _, hstep⟩ := exists_first_free (Option.not_isSome_iff_eq_none.mp hnone)
    rw [hstep] at h
    cases h
  refine ⟨?_, ⟨hlive, ?_⟩, ⟨fun h => hlive (congrArg Step.result h), hexhausted⟩, ?_, ?_⟩
  · intro hsize
    have hpos : 0 < e.freeIds.length := by omega
    obtain ⟨p, hp⟩ := List.exists_mem_of_length_pos hpos
    exact exists_first_free (mem_freeIds.mp hp)
  · exact fun h => congrArg Step.result (hexhausted h)
  · intro ops hkeeps hcount
    have hanswers := idAnswers_eq hkeeps (by omega)
    have hpart := List.take_sublist (e.idAnswers ops).length e.freeIds
    exact ⟨_, hanswers, hpart.nodup e.nodup_freeIds,
      fun id hid => mem_freeIds.mp (hpart.subset hid)⟩
  · intro id hresult peer context observer
    obtain ⟨hfree, hengine⟩ := nextId_of_result hresult
    have hsame : ({ e with counter := id + 1 } : Engine κ).get? id = none := hfree
    rw [hengine, create_result, hsame]
    exact if_neg (by simp)

/-- A counter that starts at the largest id, which is taken: the ids go on from zero. -/
theorem ids_allocated_wrapped :
    let peer : Address := .v4 ⟨#[10, 0, 0, 1], rfl⟩ 5683
    let e : Engine Unit := (new .milliseconds { Config.standard with idSeed := 65535 }).run
      [.create 65535 peer () .owner]
    let ops : List (Operation Unit) := List.replicate 3 .nextId
    e.size < 65536 ∧ e.nextId.result = .ok 0 ∧
      (∃ d < 65536, e.nextId.engine.counter = e.counter + UInt16.ofNat d + 1) ∧
      e.KeepsTable ops ∧ (e.idAnswers ops).length + e.size ≤ 65536 ∧
      (∃ ids : List UInt16, e.idAnswers ops = ids.map .ok ∧ ids.Nodup) ∧
      (e.nextId.engine.create 0 peer () .owner).result = .ok () := by
  intro peer e ops
  have hsize : e.size = 1 := by decide
  have hroom : e.slots.length = 8 := by decide
  have hfound : freeId? (fun id => (e.get? id).isSome) 65536 e.counter = some 0 := by
    decide +kernel
  have hresult : e.nextId.result = .ok 0 := by simp only [nextId, hfound]
  clear_value e
  have hkeeps : e.KeepsTable ops := e.keepsTable_requests 3
  have hcount : (e.idAnswers ops).length = 3 := rfl
  obtain ⟨hfirst, _, _, hanswers, hcreate⟩ := ids_allocated e
  obtain ⟨d, hd, _, _, hstep⟩ := hfirst (by omega)
  obtain ⟨ids, hids, hdifferent, _⟩ := hanswers ops hkeeps (by omega)
  refine ⟨by omega, hresult, ⟨d, hd, congrArg (·.engine.counter) hstep⟩, hkeeps, by omega,
    ⟨ids, hids, hdifferent⟩, ?_⟩
  rw [hcreate 0 hresult peer () .owner, if_pos (by omega)]

end Engine

end Coap
