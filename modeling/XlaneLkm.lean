import XlaneLkm.Proof.StateMachineSafety
import XlaneLkm.Proof.ElectionProgress
import XlaneLkm.Proof.CommittedEntries
import XlaneLkm.Proof.LeaderChange
import XlaneLkm.Proof.Reassembly
import XlaneLkm.Proof.Commits
import XlaneLkm.Proof.LeaderMessages
import XlaneLkm.Proof.Progress
import XlaneLkm.Proof.Overwrite
import XlaneLkm.Proof.EntryTerms
import XlaneLkm.Proof.UpToDate
import XlaneLkm.Proof.SubPayloads
import XlaneLkm.Proof.RingBuffer
import XlaneLkm.Proof.Wire
import XlaneLkm.Proof.Registry
import XlaneLkm.Proof.Bookkeeping
import XlaneLkm.Proof.Multicast
import XlaneLkm.Proof.MulticastReplica
import XlaneLkm.Proof.FailureDetector
import XlaneLkm.Proof.PublishedLiveness
import XlaneLkm.Proof.LeaderCommit
import XlaneLkm.Proof.AllOrNothing
import XlaneLkm.Proof.AsyncQueue
import XlaneLkm.Proof.RecordLength
import XlaneLkm.Proof.PayloadChain
import XlaneLkm.Proof.PacketBounds
import XlaneLkm.Proof.Advertisement
import XlaneLkm.Proof.Streaming
import XlaneLkm.Proof.Drain
import XlaneLkm.Proof.Retransmission
import XlaneLkm.Proof.HeartbeatMetrics
import XlaneLkm.Proof.SyncWindow
import XlaneLkm.Proof.TargetWrite
import XlaneLkm.Proof.TargetTables
import XlaneLkm.Proof.PingPong
import XlaneLkm.Proof.EventLog
import XlaneLkm.Proof.WireMulticast
import XlaneLkm.Proof.UserReads
import XlaneLkm.Proof.DetectionTime
import XlaneLkm.Proof.FiringTime
import XlaneLkm.Proof.PmCluster
import XlaneLkm.Proof.QueueMemory
import XlaneLkm.Proof.RetransLifetime
