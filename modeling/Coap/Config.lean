import Coap.Retry

namespace Coap

structure Config where
  /-- Goes into every token. -/
  tokenSeed : UInt16
  idSeed : UInt16
  /-- How long to wait for the answer to a confirmable message. -/
  strategy : Strategy
  /-- How often a confirmable message is sent again. -/
  maxRetransmit : UInt16
  /-- How many transactions can be live at a time. -/
  maxTransactions : Nat
  deriving DecidableEq, Repr

namespace Config

def standard : Config where
  tokenSeed := 0
  idSeed := 0
  strategy := ⟨.exponential, 2000, 3000⟩
  maxRetransmit := 4
  maxTransactions := 8

/-- The longest time from the first transmission to the last. -/
def maxTransmitSpan (c : Config) : Millis := c.strategy.maxTime c.maxRetransmit

/-- The longest time from the first transmission to the end of waiting for an answer. -/
def maxTransmitWait (c : Config) : Millis :=
  c.strategy.maxTime (if c.maxRetransmit = 65535 then 65535 else c.maxRetransmit + 1)

def describe (c : Config) : String :=
  let con := "Con \x7b retry_strategy: " ++ c.strategy.describe
    ++ s!", max_retransmit: Attempts({c.maxRetransmit}) \x7d"
  s!"Config \x7b msg: Msg \x7b token_seed: {c.tokenSeed}, id_seed: {c.idSeed}, con: {con} \x7d, "
    ++ s!"max_transactions: {c.maxTransactions} \x7d"

end Config

end Coap
