import Coap.Engine.Basic

namespace Coap

/-- What has to be done for a transaction: send its message again, or nothing more, for it has been
given up. -/
inductive Due where
  | retransmit (id : UInt16)
  | abandoned (id : UInt16)
  deriving DecidableEq, Repr

def Due.retransmit? : Due → Option UInt16
  | retransmit id => some id
  | abandoned _ => none

def Transaction.finish {κ : Type} (t : Transaction κ) (outcome : Outcome) : Effects κ where
  transmissions := []
  completions := [⟨t.id, outcome, t.observer⟩]
  log := match t.observer with
    | .owner => []
    | .nobody => [.unobserved t.id outcome]

/-- A slot after the question of what is due, the answer, and the effects. -/
structure Visit (κ : Type) where
  slot : Option (Transaction κ)
  due : Option Due
  effects : Effects κ

namespace Engine

variable {κ : Type}

/-- Asks the timer of a slot. A transaction whose retransmissions are used up is removed. -/
def visit (c : Clock) (now : Instant) (slot : Option (Transaction κ)) : Visit κ :=
  match slot with
  | none => ⟨none, none, .none⟩
  | some t =>
    match t.timer with
    | none => ⟨some t, none, .none⟩
    | some timer =>
      match timer.verdict c now with
      | .wait => ⟨some t, none, .none⟩
      | .retry =>
        ⟨some { t with timer := some (timer.ask c now) }, some (.retransmit t.id), .none⟩
      | .giveUp =>
        ⟨none, some (.abandoned t.id),
          .logged [.abandoned t.id t.peer t.retransmissions] ++ t.finish .timeout⟩

/-- Says what is due now, in the order of the slots. Retransmissions are counted but not sent. -/
def schedule (e : Engine κ) (now : Instant) : Step κ (List Due) :=
  let visits := e.slots.map (visit e.clock now)
  ⟨visits.filterMap Visit.due, { e with slots := visits.map Visit.slot },
    .concat (visits.map Visit.effects)⟩

/-- What a failed retransmission leaves in the log. -/
def failureLog (id : UInt16) : Except TransmitError Unit → List LogEntry
  | .ok () => []
  | .error cause => [.retransmissionFailed id cause]

/-- The fault that a retransmission reports; that the socket would block is none. -/
def fault? : Except TransmitError Unit → Option TransmitError
  | .ok () | .error .wouldBlock => none
  | .error cause => some cause

/-- Sends the messages of transactions again, whatever becomes of the ones before; gives the first
fault. The socket takes its replies from the list and accepts when there are no more. -/
def resend (e : Engine κ) : List UInt16 → List SendReply → Option TransmitError × Effects κ
  | [], _ => (none, .none)
  | id :: rest, replies =>
    match e.get? id with
    | none => e.resend rest replies
    | some t =>
      let reply := replies.headD .accepted
      let handed := t.transmissions reply
      let result := t.transmit reply
      let (fault, effects) := e.resend rest (replies.drop handed.length)
      ((fault? result).or fault,
        ⟨handed, [], .retransmission id t.retransmissions :: failureLog id result⟩ ++ effects)

/-- Says what is due now and sends the messages that are due again; gives the first fault. -/
def tick (e : Engine κ) (now : Instant) (replies : List SendReply) :
    Step κ (List Due × Option TransmitError) :=
  let s := e.schedule now
  let (fault, effects) := s.engine.resend (s.result.filterMap Due.retransmit?) replies
  ⟨(s.result, fault), s.engine, s.effects ++ effects⟩

end Engine

end Coap
