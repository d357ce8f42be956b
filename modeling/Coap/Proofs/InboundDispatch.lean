import Coap.Proofs.Datagram
import Coap.Proofs.SlotOrder

namespace Coap

variable {κ : Type}

theorem MessageType.isReply_iff {type : MessageType} :
    type.isReply = true ↔ type = .acknowledgement ∨ type = .reset := by
  cases type <;> decide

theorem length_fill (buffer bytes : Bytes) : (fill buffer bytes).length = buffer.length := by
  rw [fill, List.length_append, List.length_take, List.length_drop]
  omega

namespace Engine

theorem awaited_iff {e : Engine κ} {m : Message} : e.Awaited m ↔
    (m.type = .acknowledgement ∨ m.type = .reset) ∧ (e.get? m.id).isSome :=
  and_congr_left' MessageType.isReply_iff

section Receipt

variable {e : Engine κ} {datagram : Bytes} {sender : Address}
  {s : Step κ (Except DecodeError Inbound)} (h : e.Receipt datagram sender s)

include h

theorem Receipt.error_iff {err : DecodeError} :
    s.result = .error err ↔ Message.decode datagram = .error err := by
  cases h with
  | refused read => simp only [read, Except.error.injEq]
  | passed read => simp only [read, reduceCtorEq]
  | matched read => simp only [read, reduceCtorEq]

theorem Receipt.matched_iff {id : UInt16} : s.result = .ok (.matched id) ↔
    ∃ m, Message.decode datagram = .ok m ∧ m.id = id ∧ e.Awaited m := by
  cases h with
  | refused read => simp only [read, reduceCtorEq, false_and, exists_false]
  | @passed m read other =>
    refine iff_of_false (by simp) ?_
    rintro ⟨m', read', _, awaited⟩
    obtain rfl : m = m' := Except.ok.inj (read.symm.trans read')
    exact other awaited
  | @matched m t read reply found =>
    constructor
    · intro hresult
      have hid : m.id = id := Inbound.matched.inj (Except.ok.inj hresult)
      exact ⟨m, read, hid, reply, Option.isSome_of_eq_some found⟩
    · rintro ⟨m', read', rfl, _⟩
      obtain rfl : m = m' := Except.ok.inj (read.symm.trans read')
      rfl

theorem Receipt.unmatched_iff {m : Message} {origin : Address} :
    s.result = .ok (.unmatched m origin) ↔
      Message.decode datagram = .ok m ∧ origin = sender ∧ ¬e.Awaited m := by
  cases h with
  | refused read => simp only [read, reduceCtorEq, false_and]
  | @passed m' read other =>
    constructor
    · intro hresult
      obtain ⟨rfl, rfl⟩ := Inbound.unmatched.inj (Except.ok.inj hresult)
      exact ⟨read, rfl, other⟩
    · rintro ⟨read', rfl, _⟩
      obtain rfl : m' = m := Except.ok.inj (read.symm.trans read')
      rfl
  | @matched m' t read reply found =>
    refine iff_of_false (by simp) ?_
    rintro ⟨read', _, other⟩
    obtain rfl : m' = m := Except.ok.inj (read.symm.trans read')
    exact other ⟨reply, Option.isSome_of_eq_some found⟩

/-- Without a match nothing is removed and nobody is told. -/
theorem Receipt.keeps (other : ∀ id, s.result ≠ .ok (.matched id)) :
    s.engine = e ∧ s.effects.completions = [] := by
  cases h with
  | refused | passed => exact ⟨rfl, rfl⟩
  | matched => exact absurd rfl (other _)

/-- A match frees one slot of the table and leaves everything else as it is. -/
theorem Receipt.removes (hu : e.Unique) {id : UInt16} (matched : s.result = .ok (.matched id)) :
    ∃ m t front back, Message.decode datagram = .ok m ∧ m.id = id ∧ e.get? id = some t ∧
      e.slots = front ++ some t :: back ∧ s.engine = { e with slots := front ++ none :: back } ∧
      (∀ p, s.engine.get? p = if p = id then none else e.get? p) ∧
      s.effects.completions = [⟨id, .response m, t.observer⟩] := by
  cases h with
  | refused => cases matched
  | passed => cases Except.ok.inj matched
  | @matched m t read reply found =>
    obtain rfl : m.id = id := Inbound.matched.inj (Except.ok.inj matched)
    obtain ⟨front, back, hslots, _, hreplaced⟩ := hu.replace_found found none
    have hengine : e.replace m.id none = { e with slots := front ++ none :: back } := by
      rw [← hreplaced]
      rfl
    have hid : t.id = m.id := (mem_live_of_get? found).2
    refine ⟨m, t, front, back, read, rfl, found, hslots, hengine, hu.get?_remove m.id, ?_⟩
    rw [hid]

end Receipt

/-- A poll that finds a datagram is the receipt of what is in the buffer up to the length that the
socket claims or the end of the buffer. -/
theorem poll_datagram (e : Engine κ) (bytes : Bytes) (claimed : Nat) (sender : Address)
    (buffer : Bytes) :
    let received := e.receive ((fill buffer bytes).take (min claimed buffer.length)) sender
    e.poll (some (.datagram bytes claimed sender)) buffer =
      ⟨received.result.mapError .decode, received.engine, received.effects⟩ := by
  have htake : (fill buffer bytes).take (min claimed buffer.length) =
      (fill buffer bytes).take claimed := by
    rw [← length_fill buffer bytes, ← List.take_eq_take_min]
  rw [htake]
  rfl

/-- A datagram is refused exactly if it is no message. It ends a transaction exactly if its message
is an acknowledgement or a reset with the id of a live one, whoever sent it: that transaction is
removed and told this message, and all else is as it was. Every other message goes to the caller as
it was read, and then nothing is removed. A poll takes what is in the buffer for a datagram, as far
as the socket claims and the buffer goes. -/
theorem receive_dispatches (clock : Clock) (config : Config) (ops : List (Operation κ))
    (datagram : Bytes) (sender : Address) :
    let e := (new clock config : Engine κ).run ops
    let s := e.receive datagram sender
    (∀ err, s.result = .error err ↔ Message.decode datagram = .error err) ∧
    (∀ id, s.result = .ok (.matched id) ↔ ∃ m, Message.decode datagram = .ok m ∧ m.id = id ∧
      (m.type = .acknowledgement ∨ m.type = .reset) ∧ (e.get? m.id).isSome) ∧
    (∀ m origin, s.result = .ok (.unmatched m origin) ↔
      Message.decode datagram = .ok m ∧ origin = sender ∧
        ¬((m.type = .acknowledgement ∨ m.type = .reset) ∧ (e.get? m.id).isSome)) ∧
    (∀ id, s.result = .ok (.matched id) → ∃ m t front back,
      Message.decode datagram = .ok m ∧ m.id = id ∧ e.get? id = some t ∧
      e.slots = front ++ some t :: back ∧ s.engine = { e with slots := front ++ none :: back } ∧
      (∀ p, s.engine.get? p = if p = id then none else e.get? p) ∧
      s.effects.completions = [⟨id, .response m, t.observer⟩]) ∧
    ((∀ id, s.result ≠ .ok (.matched id)) → s.engine = e ∧ s.effects.completions = []) ∧
    s.effects.transmissions = [] ∧
    ∀ bytes claimed buffer,
      let length := min claimed buffer.length
      let received := e.receive ((fill buffer bytes).take length) sender
      ((fill buffer bytes).take length).length = length ∧
      e.poll (some (.datagram bytes claimed sender)) buffer =
        ⟨received.result.mapError .decode, received.engine, received.effects⟩ := by
  intro e s
  have hu : e.Unique := (run_sound (sound_new clock config) ops).unique
  have h : e.Receipt datagram sender s := e.receipt datagram sender
  simp only [← awaited_iff]
  refine ⟨fun _ => h.error_iff, fun _ => h.matched_iff, fun _ _ => h.unmatched_iff,
    fun _ => h.removes hu, h.keeps, e.receive_transmissions datagram sender, ?_⟩
  intro bytes claimed buffer
  refine ⟨?_, e.poll_datagram bytes claimed sender buffer⟩
  rw [List.length_take, length_fill]
  exact Nat.min_eq_left (Nat.min_le_right _ _)

/-- A reply that comes before the request was sent, from an address that is not the peer's, and a
request with the same id, in a buffer that is shorter than the socket claims. -/
theorem receive_dispatches_unsent :
    let e : Engine Unit := (new .milliseconds Config.standard).run
      [.create 7 (.v4 ⟨#[10, 0, 0, 1], rfl⟩ 5683) () .owner,
        .create 8 (.v4 ⟨#[10, 0, 0, 1], rfl⟩ 5683) () .owner]
    let stranger : Address := .v4 ⟨#[10, 0, 0, 9], rfl⟩ 1
    let s := e.receive [0x60, 0x45, 0, 7] stranger
    s.result = .ok (.matched 7) ∧ s.engine.get? 7 = none ∧ s.engine.get? 8 = e.get? 8 ∧
      s.effects.completions = [⟨7, .response (.new .acknowledgement .content 7), .owner⟩] ∧
      (∀ id, (e.receive [0x40, 1, 0, 7] stranger).result ≠ .ok (.matched id)) ∧
      (e.receive [0x40, 1, 0, 7] stranger).engine = e ∧
      (e.poll (some (.datagram [0x40, 1, 0, 7, 0xFF, 1] 9 stranger)) [0, 0, 0, 0]).engine = e := by
  intro e stranger s
  have hreply : Message.decode [0x60, 0x45, 0, 7] = .ok (.new .acknowledgement .content 7) := by
    apply Message.Opening.decode
    refine @Message.Opening.mk 0x60 0x45 0 7 _ _ _ .empty ?_ ?_ ?_ ?_ ?_ ?_ <;> decide
  have hrequest : Message.decode [0x40, 1, 0, 7] = .ok (.new .confirmable .get 7) := by
    apply Message.Opening.decode
    refine @Message.Opening.mk 0x40 1 0 7 _ _ _ .empty ?_ ?_ ?_ ?_ ?_ ?_ <;> decide
  have hobserver : (e.get? 7).map (·.observer) = some .owner := by decide
  obtain ⟨_, hmatched, _, hremoves, _⟩ := receive_dispatches .milliseconds Config.standard
    [.create 7 (.v4 ⟨#[10, 0, 0, 1], rfl⟩ 5683) () .owner,
      .create 8 (.v4 ⟨#[10, 0, 0, 1], rfl⟩ 5683) () .owner] [0x60, 0x45, 0, 7] stranger
  have hresult : s.result = .ok (.matched 7) :=
    (hmatched 7).mpr ⟨_, hreply, rfl, Or.inl rfl, by decide⟩
  obtain ⟨m, t, _, _, hm, _, found, _, _, hget, hcompletions⟩ := hremoves 7 hresult
  obtain rfl := Except.ok.inj (hreply.symm.trans hm)
  have htold : t.observer = .owner := by
    change e.get? 7 = some t at found
    rw [found] at hobserver
    exact Option.some.inj hobserver
  rw [htold] at hcompletions
  obtain ⟨_, hrefused, _, _, hkeeps, _, hpoll⟩ := receive_dispatches .milliseconds Config.standard
    [.create 7 (.v4 ⟨#[10, 0, 0, 1], rfl⟩ 5683) () .owner,
      .create 8 (.v4 ⟨#[10, 0, 0, 1], rfl⟩ 5683) () .owner] [0x40, 1, 0, 7] stranger
  have hunmatched (id : UInt16) :
      (e.receive [0x40, 1, 0, 7] stranger).result ≠ .ok (.matched id) := by
    intro h
    obtain ⟨m, hm, _, htype, _⟩ := (hrefused id).mp h
    obtain rfl := Except.ok.inj (hrequest.symm.trans hm)
    rcases htype with htype | htype
    · cases htype
    · cases htype
  obtain ⟨hsame, _⟩ := hkeeps hunmatched
  obtain ⟨_, hpolled⟩ := hpoll [0x40, 1, 0, 7, 0xFF, 1] 9 [0, 0, 0, 0]
  exact ⟨hresult, hget 7, hget 8, hcompletions, hunmatched, hsame,
    (congrArg Step.engine hpolled).trans hsame⟩

end Engine

end Coap
