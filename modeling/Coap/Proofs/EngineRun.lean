import Coap.Engine.Receive
import Coap.Engine.Send

namespace Coap

/-- An operation on an engine, as data. What the clock says and what the socket answers is part of
it. -/
inductive Operation (κ : Type) where
  | nextId
  | create (id : UInt16) (peer : Address) (context : κ) (observer : Observer)
  | setMessage (id : UInt16) (m : Message)
  | setContext (id : UInt16) (context : κ)
  | send (id : UInt16) (now : Instant) (reply : SendReply)
  | schedule (now : Instant)
  | tick (now : Instant) (replies : List SendReply)
  | complete (id : UInt16) (response : Message)
  | clear (id : UInt16)
  | receive (datagram : Bytes) (sender : Address)
  | poll (arrival : Option Arrival) (buffer : Bytes)

/-- What the caller of an operation gets. -/
def Operation.Result {κ : Type} : Operation κ → Type
  | .nextId => Except Exhausted UInt16
  | .create .. => Except Exhausted Unit
  | .setMessage .. => Option (Except EncodeError Unit)
  | .setContext .. => Bool
  | .send .. => Except SendError Unit
  | .schedule _ => List Due
  | .tick .. => List Due × Option TransmitError
  | .complete .. => Bool
  | .clear _ => Bool
  | .receive .. => Except DecodeError Inbound
  | .poll .. => Except PollError Inbound

/-- What the result of an operation tells about a transaction. -/
inductive Occurrence where
  | created (peer : Address) (observer : Observer)
  | sent
  | retransmitted
  | abandoned
  | answered (response : Message)
  | cleared

namespace Occurrence

def isCreated : Occurrence → Bool
  | created .. => true
  | _ => false

def isRetransmitted : Occurrence → Bool
  | retransmitted => true
  | _ => false

def isAbandoned : Occurrence → Bool
  | abandoned => true
  | _ => false

def isCleared : Occurrence → Bool
  | cleared => true
  | _ => false

/-- The outcome that is told to the owner of the transaction. -/
def outcome? : Occurrence → Option Outcome
  | answered response => some (.response response)
  | abandoned => some .timeout
  | _ => none

/-- Whether the transaction is over. -/
def isEnd (o : Occurrence) : Bool := o.isCleared || o.outcome?.isSome

end Occurrence

/-- An occurrence, with the id of the transaction that it is about. -/
structure Event where
  id : UInt16
  occurrence : Occurrence

/-- Who is told what: the id of a transaction and how it ended. -/
def Event.notice? (v : Event) : Option (UInt16 × Outcome) := v.occurrence.outcome?.map (v.id, ·)

def Completion.notice (c : Completion) : UInt16 × Outcome := (c.id, c.outcome)

/-- What a history says about the transactions with an id, in order. -/
def occurrences (history : List Event) (id : UInt16) : List Occurrence :=
  history.filterMap fun v => if v.id = id then some v.occurrence else none

theorem occurrences_cons (v : Event) (h : List Event) (id : UInt16) : occurrences (v :: h) id =
    if v.id = id then v.occurrence :: occurrences h id else occurrences h id := by
  by_cases hv : v.id = id <;> simp [occurrences, hv]

theorem occurrences_append (h later : List Event) (id : UInt16) :
    occurrences (h ++ later) id = occurrences h id ++ occurrences later id :=
  List.filterMap_append

def Due.event : Due → Event
  | retransmit id => ⟨id, .retransmitted⟩
  | abandoned id => ⟨id, .abandoned⟩

/-- What a datagram tells that was matched or not. -/
def Inbound.events (datagram : Bytes) : Inbound → List Event
  | matched id =>
    match Message.decode datagram with
    | .ok m => [⟨id, .answered m⟩]
    | .error _ => []
  | unmatched .. => []

namespace Operation

variable {κ : Type}

def events : (o : Operation κ) → o.Result → List Event
  | .create id peer _ observer, Except.ok () => [⟨id, .created peer observer⟩]
  | .send id _ _, Except.ok () => [⟨id, .sent⟩]
  | .schedule _, (due : List Due) => due.map Due.event
  | .tick _ _, ((due, _) : List Due × Option TransmitError) => due.map Due.event
  | .complete id response, true => [⟨id, .answered response⟩]
  | .clear id, true => [⟨id, .cleared⟩]
  | .receive datagram _, Except.ok (inbound : Inbound) => inbound.events datagram
  | .poll (some (.datagram bytes claimed _)) buffer, Except.ok (inbound : Inbound) =>
    inbound.events ((fill buffer bytes).take claimed)
  | _, _ => []

/-- The instant at which an operation asks what is due. -/
def asks? : Operation κ → Option Instant
  | .schedule now => some now
  | .tick now _ => some now
  | _ => none

/-- What an operation says is due. -/
def due : (o : Operation κ) → o.Result → List Due
  | .schedule _, (due : List Due) => due
  | .tick _ _, ((due, _) : List Due × Option TransmitError) => due
  | _, _ => []

end Operation

namespace Engine

variable {κ : Type}

def apply (e : Engine κ) : (o : Operation κ) → Step κ o.Result
  | .nextId => e.nextId
  | .create id peer context observer => e.create id peer context observer
  | .setMessage id m => e.setMessage id m
  | .setContext id context => e.setContext id context
  | .send id now reply => e.send id now reply
  | .schedule now => e.schedule now
  | .tick now replies => e.tick now replies
  | .complete id response => e.complete id response
  | .clear id => e.clear id
  | .receive datagram sender => e.receive datagram sender
  | .poll arrival buffer => e.poll arrival buffer

/-- What the result of an operation tells. -/
def report (e : Engine κ) (o : Operation κ) : List Event := o.events (e.apply o).result

/-- The engine after some operations. -/
def run (e : Engine κ) : List (Operation κ) → Engine κ
  | [] => e
  | o :: rest => (e.apply o).engine.run rest

theorem run_append (e : Engine κ) (ops later : List (Operation κ)) :
    e.run (ops ++ later) = (e.run ops).run later := by
  induction ops generalizing e with
  | nil => rfl
  | cons o ops ih => exact ih (e.apply o).engine

/-- What the results of some operations tell, in order. -/
def history (e : Engine κ) : List (Operation κ) → List Event
  | [] => []
  | o :: rest => e.report o ++ (e.apply o).engine.history rest

/-- What some operations do beside changing the engine. -/
def effects (e : Engine κ) : List (Operation κ) → Effects κ
  | [] => .none
  | o :: rest => (e.apply o).effects ++ (e.apply o).engine.effects rest

/-- Operations with others among them that are idle where they come. -/
inductive Padded (idle : Engine κ → Operation κ → Prop) :
    Engine κ → List (Operation κ) → List (Operation κ) → Prop
  | nil (e : Engine κ) : Padded idle e [] []
  | keep {e : Engine κ} (o : Operation κ) {ops padded : List (Operation κ)}
      (rest : Padded idle (e.apply o).engine ops padded) :
      Padded idle e (o :: ops) (o :: padded)
  | idle {e : Engine κ} {o : Operation κ} (h : idle e o) {ops padded : List (Operation κ)}
      (rest : Padded idle (e.apply o).engine ops padded) : Padded idle e ops (o :: padded)

section Padded

variable {idle : Engine κ → Operation κ → Prop} {e : Engine κ} {ops padded : List (Operation κ)}
  (same : ∀ e o, idle e o → (e.apply o).engine = e)

include same

theorem Padded.run_eq (h : Padded idle e ops padded) : e.run padded = e.run ops := by
  induction h with
  | nil => rfl
  | keep o _ ih => exact ih
  | @idle e o hidle _ _ _ ih =>
    have hsame := same e o hidle
    exact ih.trans (by rw [hsame])

theorem Padded.history_eq (h : Padded idle e ops padded)
    (silent : ∀ e o, idle e o → e.report o = []) : e.history padded = e.history ops := by
  induction h with
  | nil => rfl
  | keep o _ ih => exact congrArg (_ ++ ·) ih
  | @idle e o hidle _ _ _ ih =>
    have hsame := same e o hidle
    have hsilent := silent e o hidle
    rw [history, hsilent, List.nil_append, ih, hsame]

/-- What the operations in between do not do is done by the others. -/
theorem Padded.effects_eq (h : Padded idle e ops padded) {α : Type} {read : Effects κ → List α}
    (additive : ∀ a b, read (a ++ b) = read a ++ read b)
    (silent : ∀ e o, idle e o → read (e.apply o).effects = []) :
    read (e.effects padded) = read (e.effects ops) := by
  induction h with
  | nil => rfl
  | keep o _ ih => rw [effects, effects, additive, additive, ih]
  | @idle e o hidle _ _ _ ih =>
    have hsame := same e o hidle
    have hsilent := silent e o hidle
    rw [effects, additive, hsilent, List.nil_append, ih, hsame]

end Padded

end Engine

end Coap
