import Coap.Engine.Schedule

namespace Coap

/-- What became of a datagram: the answer to a transaction, or a message for the caller. -/
inductive Inbound where
  | matched (id : UInt16)
  | unmatched (m : Message) (sender : Address)

inductive PollError where
  | wouldBlock
  | transport (code : UInt32)
  | decode (e : DecodeError)
  deriving DecidableEq, Repr

namespace PollError

def message : PollError → String
  | wouldBlock => ""
  | transport code => s!"transport error: {code}"
  | decode e => e.message

end PollError

namespace Engine

variable {κ : Type}

/-- Ends a transaction with a response; tells whether there was such a transaction. -/
def complete (e : Engine κ) (id : UInt16) (response : Message) : Step κ Bool :=
  match e.get? id with
  | some t =>
    ⟨true, e.replace id none, .logged [.completed id response] ++ t.finish (.response response)⟩
  | none => ⟨false, e, .logged [.unexpected response]⟩

/-- Removes a transaction without telling anybody; tells whether there was such a transaction. -/
def clear (e : Engine κ) (id : UInt16) : Step κ Bool :=
  match e.get? id with
  | some _ => ⟨true, e.replace id none, .logged [.cleared id]⟩
  | none => ⟨false, e, .none⟩

/-- Takes a message in. Acknowledgements and resets end the transaction with their id; everything
else, and those that nobody waits for, goes to the caller. -/
def accept (e : Engine κ) (m : Message) (sender : Address) : Step κ Inbound :=
  if m.type.isReply then
    let s := e.complete m.id m
    { s with result := if s.result then .matched m.id else .unmatched m sender }
  else ⟨.unmatched m sender, e, .none⟩

def receive (e : Engine κ) (datagram : Bytes) (sender : Address) :
    Step κ (Except DecodeError Inbound) :=
  let notes : Effects κ := .logged ((Message.decodeNotes datagram).map .decoding)
  match Message.decode datagram with
  | .error err => ⟨.error err, e, notes⟩
  | .ok m =>
    let s := e.accept m sender
    ⟨.ok s.result, s.engine, notes ++ s.effects⟩

/-- Takes in what the socket has to receive, as far as it fits the buffer. -/
def poll (e : Engine κ) (arrival : Option Arrival) (buffer : Bytes) :
    Step κ (Except PollError Inbound) :=
  match arrival with
  | none => ⟨.error .wouldBlock, e, .none⟩
  | some (.fault code) => ⟨.error (.transport code), e, .none⟩
  | some (.datagram bytes claimed sender) =>
    let s := e.receive ((fill buffer bytes).take claimed) sender
    { s with result := s.result.mapError .decode }

end Engine

end Coap
