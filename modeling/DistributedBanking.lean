import DistributedBanking.AcceptedPasswords
import DistributedBanking.AccountNumbers
import DistributedBanking.AccountProbing
import DistributedBanking.AtMostOnce
import DistributedBanking.Authorisation
import DistributedBanking.BankLinearization
import DistributedBanking.BankRules
import DistributedBanking.Banking
import DistributedBanking.BankingEffect
import DistributedBanking.ByteOrder
import DistributedBanking.CallbackBounds
import DistributedBanking.CallbackContent
import DistributedBanking.CallbackRoundTrip
import DistributedBanking.Callbacks
import DistributedBanking.ClientDecoding
import DistributedBanking.ClientGrammar
import DistributedBanking.ClientInput
import DistributedBanking.ClientLoop
import DistributedBanking.ClientProgram
import DistributedBanking.ClientProtocol
import DistributedBanking.CommandDecoding
import DistributedBanking.CommandRoundTrip
import DistributedBanking.Commutation
import DistributedBanking.ConcurrentBank
import DistributedBanking.ConcurrentHistory
import DistributedBanking.ConcurrentMonitor
import DistributedBanking.Confidentiality
import DistributedBanking.ContentLength
import DistributedBanking.CopyBounds
import DistributedBanking.Deadlock
import DistributedBanking.Decisions
import DistributedBanking.Decoder
import DistributedBanking.Dedup
import DistributedBanking.DoubleByteOrder
import DistributedBanking.DoubleRounding
import DistributedBanking.Doubles
import DistributedBanking.EndToEnd
import DistributedBanking.ExactFloats
import DistributedBanking.Experiment
import DistributedBanking.FieldContract
import DistributedBanking.FiniteMap
import DistributedBanking.FloatMoney
import DistributedBanking.FloatReading
import DistributedBanking.Footprints
import DistributedBanking.Funds
import DistributedBanking.GoRuntime
import DistributedBanking.Guarded
import DistributedBanking.Handler
import DistributedBanking.HandlerReadings
import DistributedBanking.HandlerSpec
import DistributedBanking.Keystrokes
import DistributedBanking.Ledger
import DistributedBanking.LinearRuns
import DistributedBanking.Linearization
import DistributedBanking.LockOrder
import DistributedBanking.LongestPrefix
import DistributedBanking.LossyNetwork
import DistributedBanking.MapRange
import DistributedBanking.Marshalling
import DistributedBanking.MenuSelection
import DistributedBanking.MessageFraming
import DistributedBanking.MessageRoundTrip
import DistributedBanking.Money
import DistributedBanking.Monitor
import DistributedBanking.Network
import DistributedBanking.NetworkInvariant
import DistributedBanking.NoLostUpdate
import DistributedBanking.NumberPrompts
import DistributedBanking.Ownership
import DistributedBanking.PanicFreedom
import DistributedBanking.PrefixCode
import DistributedBanking.Prompts
import DistributedBanking.Readings
import DistributedBanking.Registers
import DistributedBanking.RemoteBank
import DistributedBanking.RemoteFloats
import DistributedBanking.RemoteLedger
import DistributedBanking.ReplyDirection
import DistributedBanking.ReplyHistory
import DistributedBanking.Retransmissions
import DistributedBanking.RetryLoop
import DistributedBanking.RetryOutcomes
import DistributedBanking.Rounding
import DistributedBanking.RoundingDrift
import DistributedBanking.Runs
import DistributedBanking.Semantics
import DistributedBanking.Server
import DistributedBanking.ServerFrame
import DistributedBanking.ServerLoop
import DistributedBanking.ServerReadings
import DistributedBanking.Settlement
import DistributedBanking.SoloCalls
import DistributedBanking.Solvency
import DistributedBanking.SpecialValues
import DistributedBanking.StaleReplies
import DistributedBanking.StandardInput
import DistributedBanking.StatusCodes
import DistributedBanking.Store
import DistributedBanking.Sweeper
import DistributedBanking.TLVDecoding
import DistributedBanking.TLVGrammar
import DistributedBanking.Threads
import DistributedBanking.TransferClose
import DistributedBanking.TruncatedRequests
import DistributedBanking.TypedRoundTrip
import DistributedBanking.UDPAddr
import DistributedBanking.WireRoundTrip
