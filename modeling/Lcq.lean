import Lcq.ByteFormat
import Lcq.RecordLog
import Lcq.Program
import Lcq.FileSystem
import Lcq.OrderedMap
import Lcq.Contracts
import Lcq.JournalState
import Lcq.JournalRecords
import Lcq.LogJournal
import Lcq.JournalOutcomes
import Lcq.JournalRuns
import Lcq.CrashSafety
import Lcq.VoteLocks
import Lcq.Witnesses
import Lcq.FailedAppends
import Lcq.DurableWrites
import Lcq.CompactionFailures
import Lcq.InMemory
import Lcq.JournalAgreement
import Lcq.Quorum
import Lcq.EvaluationLaws
import Lcq.Wire
import Lcq.SealedFrames
import Lcq.TextLines
import Lcq.Spelling
import Lcq.Transcripts
import Lcq.FleetFile
import Lcq.FleetReading
import Lcq.HandKeys
import Lcq.ManifestSigning
import Lcq.CanonicalForm
import Lcq.LawfulFleets
import Lcq.Utterances
import Lcq.Schedule
import Lcq.RadioQueue
import Lcq.NonceFreshness
import Lcq.Transitions
import Lcq.ReplayWindows
import Lcq.Admission
import Lcq.NodeLoop
import Lcq.NodeSteps
import Lcq.Undisturbed
import Lcq.QuietParts
import Lcq.SlotKeeping
import Lcq.JournaledTurns
import Lcq.SafeTurns
import Lcq.SeenOnce
import Lcq.Supporters
import Lcq.Acknowledgements
import Lcq.CastVotes
import Lcq.FirstVotes
import Lcq.WitnessedVotes
import Lcq.ArrivalOrder
import Lcq.RestoredVotes
import Lcq.SimAdmission
import Lcq.SlidingWindows
import Lcq.ProtocolClock
import Lcq.LegalAirtime
import Lcq.MeterRuns
import Lcq.LockKeys
import Lcq.EpochMarks
import Lcq.WaitingLines
import Lcq.QueueRuns
import Lcq.QueuedOnce
import Lcq.Resends
import Lcq.Transducers
import Lcq.KissFrames
import Lcq.SerialFrames
import Lcq.BridgeProtocol
import Lcq.SpiBus
import Lcq.SpiGrammar
import Lcq.FirmwareBounds
import Lcq.CircularBuffers
import Lcq.VirtualChip
import Lcq.StaleTimers
import Lcq.ReceiveBuffer
import Lcq.BridgeLink
import Lcq.BridgeReplies
import Lcq.DeviceRestarts
import Lcq.BridgedBus
import Lcq.CaseHistories
import Lcq.LateJoining
import Lcq.SplitDetection
import Lcq.WorstOutcomes
import Lcq.Medium
import Lcq.PrefixedStreams
import Lcq.HubMessages
import Lcq.HubRelay
import Lcq.Parties
import Lcq.Approvals
import Lcq.RNodeModem
import Lcq.ScenarioQuorum
import Lcq.DeliberationSlots
import Lcq.Provisioning
import Lcq.FleetStarts
import Lcq.Issuing
import Lcq.SpentEpochs
