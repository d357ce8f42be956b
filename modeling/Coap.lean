import Coap.Request
import Coap.Engine.Send
import Coap.Engine.Receive
import Coap.Proofs.BigEndian
import Coap.Proofs.OptionGrammar
import Coap.Proofs.OptionSet
import Coap.Proofs.OptionSeries
import Coap.Proofs.MessageSlots
import Coap.Proofs.MessageInvariant
import Coap.Proofs.Datagram
import Coap.Proofs.MessageReachable
import Coap.Proofs.MessageLayout
import Coap.Proofs.Pieces
import Coap.Proofs.SegmentContent
import Coap.Proofs.RoundTrip
import Coap.Proofs.NormalForm
import Coap.Proofs.SlotPresence
import Coap.Proofs.EngineRun
import Coap.Proofs.EngineTable
import Coap.Proofs.EngineTransition
import Coap.Proofs.EngineInvariant
import Coap.Proofs.Lifecycle
import Coap.Proofs.Completion
import Coap.Proofs.RetransmissionBudget
import Coap.Proofs.LatestMessage
import Coap.Proofs.ConfirmableTimer
import Coap.Proofs.Transmissions
import Coap.Proofs.PeerReply
import Coap.Proofs.GiveUpTime
import Coap.Proofs.Resends
import Coap.Proofs.SlotOrder
import Coap.Proofs.FailedOperation
import Coap.Proofs.InstantOrder
import Coap.Proofs.NextDeadline
import Coap.Proofs.EditOutcome
import Coap.Proofs.Footprint
import Coap.Proofs.EditOrder
import Coap.Proofs.RefusedEdit
import Coap.Proofs.Replay
import Coap.Proofs.OptionWrites
import Coap.Proofs.RetryRun
import Coap.Proofs.LateSchedule
import Coap.Proofs.UriGrammar
import Coap.Proofs.BlockFields
import Coap.Proofs.CarriedValues
import Coap.Proofs.DottedAddress
import Coap.Proofs.RequestDraft
import Coap.Proofs.RequestMeaning
import Coap.Proofs.LongestTime
import Coap.Proofs.IdAllocation
import Coap.Proofs.InboundDispatch
import Coap.Proofs.OptionPrefix
import Coap.Proofs.Ownership
import Coap.Proofs.Variables
import Coap.Proofs.HostCase
import Coap.Proofs.OptionSetRun
import Coap.Proofs.CanonicalInteger
import Coap.Proofs.BlockOption
