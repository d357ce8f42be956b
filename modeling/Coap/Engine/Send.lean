import Coap.Engine.Basic

namespace Coap

inductive SendError where
  | unknownTransaction (id : UInt16)
  | transmit (cause : TransmitError)
  /-- The bounds of the first interval are in the wrong order. -/
  | emptyJitter
  deriving DecidableEq, Repr

namespace SendError

def message : SendError → String
  | unknownTransaction id => s!"no transaction with id {id}"
  | transmit cause => cause.message
  | emptyJitter => "cannot sample empty range"

end SendError

namespace Engine

variable {κ : Type}

/-- The seed of jitter: both seeds of the configuration, varied by the time of the first need. -/
def jitterSeed (e : Engine κ) (now : Instant) : UInt64 :=
  (e.config.tokenSeed.toUInt64 <<< 16 ||| e.config.idSeed.toUInt64)
    ^^^ (now.millis? e.clock).getD 0

/-- The timer of a transaction that is sent now, and the source of jitter afterwards. A confirmable
message gets a timer the first time it is sent; there is none if its first interval has no value. -/
def arm? (e : Engine κ) (t : Transaction κ) (now : Instant) :
    Option (Option RetryTimer × Option ChaCha) :=
  if t.type = .confirmable && t.timer.isNone then
    (RetryTimer.start? e.config.strategy e.config.maxRetransmit now
      (e.rng.getD (.ofSeed (e.jitterSeed now)))).map fun (timer, rng) => (some timer, some rng)
  else some (t.timer, e.rng)

/-- Sends the message of a transaction. The engine changes only if the socket accepts the datagram.
-/
def send (e : Engine κ) (id : UInt16) (now : Instant) (reply : SendReply) :
    Step κ (Except SendError Unit) :=
  match e.get? id with
  | none => ⟨.error (.unknownTransaction id), e, .none⟩
  | some t =>
    let handed : Effects κ := .handed (t.transmissions reply)
    match t.transmit reply with
    | .error cause => ⟨.error (.transmit cause), e, handed⟩
    | .ok () =>
      match e.arm? t now with
      | none => ⟨.error .emptyJitter, e, handed⟩
      | some (timer, rng) =>
        ⟨.ok (), { e.replace id (some { t with timer, progress := .sent }) with rng },
          handed ++ .logged [.sent id t.type t.peer]⟩

end Engine

end Coap
