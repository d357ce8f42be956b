import Coap.Config
import Coap.Log

namespace Coap

/-- The end of a transaction, with who is told about it. -/
structure Completion where
  id : UInt16
  outcome : Outcome
  observer : Observer

/-- What an operation does beside changing the engine: datagrams handed to the socket, transactions
that ended, and log entries, each in order. -/
structure Effects (κ : Type) where
  transmissions : List (Transmission κ)
  completions : List Completion
  log : List LogEntry

namespace Effects

variable {κ : Type}

def none : Effects κ := ⟨[], [], []⟩

def handed (datagrams : List (Transmission κ)) : Effects κ := ⟨datagrams, [], []⟩

def logged (entries : List LogEntry) : Effects κ := ⟨[], [], entries⟩

instance : Append (Effects κ) where
  append a b := ⟨a.transmissions ++ b.transmissions, a.completions ++ b.completions, a.log ++ b.log⟩

def concat : List (Effects κ) → Effects κ
  | [] => none
  | a :: rest => a ++ concat rest

end Effects

/-- Sends messages to peers, repeats those that want an answer, and matches the answers. It holds
the live transactions in a table of fixed size and is told the time by its caller. -/
structure Engine (κ : Type) where
  clock : Clock
  config : Config
  slots : List (Option (Transaction κ))
  /-- The message id that is tried next. -/
  counter : UInt16
  /-- The source of jitter, from the first time it is needed. -/
  rng : Option ChaCha

/-- What an operation gives: its result, the engine afterwards, and what it did beside that. -/
structure Step (κ α : Type) where
  result : α
  engine : Engine κ
  effects : Effects κ

inductive Exhausted where
  | idInUse (id : UInt16)
  | tableFull
  | noFreeId
  deriving DecidableEq, Repr

namespace Exhausted

def message : Exhausted → String
  | idInUse id => s!"message id {id} is already in flight"
  | tableFull => "transaction table is full"
  | noFreeId => "no free message ids"

end Exhausted

namespace Engine

variable {κ : Type}

def new (clock : Clock) (config : Config) : Engine κ where
  clock
  config
  slots := List.replicate config.maxTransactions none
  counter := config.idSeed
  rng := none

def live (e : Engine κ) : List (Transaction κ) := e.slots.filterMap fun slot => slot

def size (e : Engine κ) : Nat := e.live.length

def isEmpty (e : Engine κ) : Bool := e.live.isEmpty

def get? (e : Engine κ) (id : UInt16) : Option (Transaction κ) := e.live.find? (·.id == id)

/-- The earliest instant at which something is due. -/
def nextDeadline? (e : Engine κ) : Option Instant :=
  Instant.earliest (e.live.filterMap (·.deadline? e.clock))

def replace (e : Engine κ) (id : UInt16) (slot : Option (Transaction κ)) : Engine κ :=
  { e with slots := e.slots.map fun s => if s.any (·.id == id) then slot else s }

/-- The first id from a given one on that is not taken, within a number of tries. -/
def freeId? (taken : UInt16 → Bool) : Nat → UInt16 → Option UInt16
  | 0, _ => none
  | tries + 1, id => if taken id then freeId? taken tries (id + 1) else some id

/-- Hands out the next message id that no live transaction has. -/
def nextId (e : Engine κ) : Step κ (Except Exhausted UInt16) :=
  match freeId? (fun id => (e.get? id).isSome) 65536 e.counter with
  | some id => ⟨.ok id, { e with counter := id + 1 }, .none⟩
  | none => ⟨.error .noFreeId, e, .none⟩

/-- A token for a message, from the seed of tokens, the id of the message and the time. -/
def token (e : Engine κ) (id : UInt16) (now : Instant) : Token :=
  .digest (BigEndian.pair e.config.tokenSeed ++ BigEndian.pair id
    ++ BigEndian.octets ((now.millis? e.clock).getD 0))

/-- Puts a transaction into the first free slot. -/
def occupy (t : Transaction κ) : List (Option (Transaction κ)) → List (Option (Transaction κ))
  | [] => []
  | none :: rest => some t :: rest
  | some other :: rest => some other :: occupy t rest

/-- Makes a transaction for a message to a peer. That its id is live is told before that the table
is full. -/
def create (e : Engine κ) (id : UInt16) (peer : Address) (context : κ) (observer : Observer) :
    Step κ (Except Exhausted Unit) :=
  if (e.get? id).isSome then ⟨.error (.idInUse id), e, .none⟩
  else if e.slots.all Option.isSome then ⟨.error .tableFull, e, .none⟩
  else
    ⟨.ok (), { e with slots := occupy (.new id peer context observer) e.slots },
      .logged [.created id peer]⟩

/-- Gives a live transaction its message; no result if there is no such transaction. -/
def setMessage (e : Engine κ) (id : UInt16) (m : Message) :
    Step κ (Option (Except EncodeError Unit)) :=
  match e.get? id with
  | none => ⟨none, e, .none⟩
  | some t =>
    match t.setMessage m with
    | .error err => ⟨some (.error err), e, .none⟩
    | .ok t => ⟨some (.ok ()), e.replace id (some t), .none⟩

def setContext (e : Engine κ) (id : UInt16) (context : κ) : Step κ Bool :=
  match e.get? id with
  | none => ⟨false, e, .none⟩
  | some t => ⟨true, e.replace id (some (t.setContext context)), .none⟩

def describe (e : Engine κ) : String :=
  let ids := Text.bracketed (e.live.map fun t => toString t.id)
  "Engine \x7b config: " ++ e.config.describe
    ++ s!", transactions: {ids}, next_id: {e.counter} \x7d"

end Engine

end Coap
