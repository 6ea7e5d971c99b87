import RelaySwarm.LedgerAuthority
import RelaySwarm.LedgerQueue
import RelaySwarm.LedgerReplies
import RelaySwarm.TransferEnding
import RelaySwarm.TransferOwner
import RelaySwarm.TransferFloor
import RelaySwarm.TransferStale
import RelaySwarm.TransferProbes
import RelaySwarm.TransferHonest
import RelaySwarm.TransferArm
import RelaySwarm.TransferTimer
import RelaySwarm.TransferKeyed
import RelaySwarm.LinkSilence
import RelaySwarm.LinkAnswers
import RelaySwarm.DiscoveryRuns
import RelaySwarm.ObjectFraming
import RelaySwarm.PlanTail
import RelaySwarm.PublisherRuns
import RelaySwarm.BroadcastRuns
import RelaySwarm.HeldRuns
import RelaySwarm.LinkTimers
import RelaySwarm.DiscoveryBudget
import RelaySwarm.Signatures
import RelaySwarm.HashRecord
import RelaySwarm.PacerRuns
import RelaySwarm.HlsDelta
import RelaySwarm.Revocations
import RelaySwarm.PeerFairness
import RelaySwarm.StreamOrder
import RelaySwarm.TransferFrame
import RelaySwarm.NativeGrants
import RelaySwarm.FetchLeasePeriods
import RelaySwarm.RealtimeRuns
import RelaySwarm.Journal
import RelaySwarm.RealtimePeer
import RelaySwarm.MultiHolderCredit
import RelaySwarm.TransferWorkerCourse
import RelaySwarm.GuardianOwnership
import RelaySwarm.RelayDelivery
import RelaySwarm.SessionRoundTrip
