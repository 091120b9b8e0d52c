import XlaneLkm.Pacemaker
import XlaneLkm.Library.Run

/-!
# A node and its runs

`consensus_init` and the events a node reacts to. Every event runs to completion. A packet comes in
two steps, as in the source: its arrival, and later the handling of its record by a work item. The
configuration (own id, targets, multicast) is fixed during a run.
-/

namespace XlaneLkm

open MachineInt

/-- What nothing initialises: memory fresh from the allocator. -/
structure Uninit where
  leaderId : Nat
  nodeId : Nat
  votes : Int
  candidateCounter : Int
  terms : Nat → Nat
  chunks : Nat → DataChunk
  ring : Nat → DataChunk
  leaderIdx : LeaderIndices

/-- The log as `consensus_init` leaves it. -/
def initLog (u : Uninit) (maxEntries : Int) : SmLog where
  lastApplied := -1
  lastIdx := -1
  commitIdx := -1
  stableIdx := -1
  nextRetransReqIdx := -2
  maxEntries := maxEntries
  entries := fun k => { valid := false, term := u.terms k, dataChunk := u.chunks k }
  history := []

/-- A target as `register_peer_by_ip` leaves it. -/
def registerPeer (clusterId : Int) : TargetInfo where
  clusterId := clusterId
  alive := false
  lhbTs := 0
  chbTs := 0
  respFactor := 8
  curWaitingInterval := 4

/-- How a node is set up before `consensus_init`. The log size is `MAX_CONSENSUS_LOG` in the source
and a parameter here. -/
structure Config where
  clusterId : Nat
  targets : List Int
  maxEntries : Int
  multicastEnable : Bool
  selfIp : UInt32
  selfMac : Vector UInt8 6
  maxEntries_pos : 0 < maxEntries
  maxEntries_le : maxEntries ≤ 2147483647

/-- The device as `init_asgard_device` and the registration of the targets leave it. -/
def Config.sdev (c : Config) : AsgardDevice where
  clusterId := c.clusterId
  targets := c.targets.map registerPeer
  pmState := .ready
  hbInterval := 0
  curLeaderLid := -1
  isLeader := false
  warmupState := .warmingUp
  multicastEnable := c.multicastEnable
  multicastNextIdx := 0
  selfIp := c.selfIp
  selfMac := c.selfMac

def consensusInit (c : Config) (u : Uninit) : Node where
  priv :=
    { nstate := .nodeUninit
      state := .ready
      candidateCounter := u.candidateCounter
      leaderId := u.leaderId
      nodeId := u.nodeId
      term := 0
      voted := u32 (-1)
      maxEntriesPerPkt := maxAeEntriesPerPkt
      votes := u.votes }
  smLog := initLog u c.maxEntries
  rxbuf := setupAsgRingBuf u.ring sizeofAsgRingBuf
  leaderIdx := u.leaderIdx
  sdev := c.sdev
  leaderWq := []
  sent := []
  hist := ⟨[], [], [], [], []⟩

inductive Event where
  /-- A packet of a target arrives, at the given time. -/
  | rx (lid ts : Nat)
  /-- The record of a packet of a target is handled. -/
  | handle (lid : Nat) (pkt : ConRecord)
  | tick
  /-- Client requests, as `testcase_timer` generates them. -/
  | request (chunks : List DataChunk)
  /-- Client requests that fill the log from its first index on, whatever it holds. -/
  | oneShot (chunks : List DataChunk)
  /-- Some work item of `asgard_leader_wq` runs. -/
  | work (k : Nat)
  /-- User space reads the rx ring: indices and contents become what they may. -/
  | user (rxbuf : AsgRingBuf)
  /-- A write to the configuration interface with a new `max_entries_per_pkt`. -/
  | leConfig (maxEntriesPerPkt : Int)
  | pmStart
  | pmStop
  /-- `asgard_pm_stop`, which the loop of the pacemaker is yet to notice. -/
  | pmHalt
  /-- The pacemaker is entered without an interval. -/
  | pmFail
  | start
  | stop

def Event.isHandle : Event → Bool
  | .handle _ _ => true
  | _ => false

def Event.isOneShot : Event → Bool
  | .oneShot _ => true
  | _ => false

namespace Node

/-- The loop that appends client requests, at index `i`; `false` after an error. -/
def requestLoop (n : Node) (i : Int) : List DataChunk → Node × Bool
  | [] => (n, true)
  | chunk :: chunks =>
    match n.smLog.appendCommand chunk n.priv.term i with
    | .error _ => (n, false)
    | .ok log => requestLoop { n with smLog := log } (i + 1) chunks

def testcaseTimer (n : Node) (chunks : List DataChunk) : Node :=
  if n.priv.nstate ≠ .leader then n
  else
    let startIdx := i32 (n.smLog.lastIdx + 1)
    match n.requestLoop startIdx
        (chunks.take (i32 (startIdx + chunks.length) - startIdx).toNat) with
    | (n, true) => n.checkPendingLogRep
    | (n, false) => n

def testcaseOneShotBigLog (n : Node) (chunks : List DataChunk) : Node :=
  if n.priv.nstate ≠ .leader then n
  else (n.requestLoop 0 (chunks.take maxConsensusLog.toNat)).1

/-- The cluster id the packet handler finds for a target. -/
def rclusterId (n : Node) (lid : Nat) : Int :=
  match n.sdev.targets[lid]? with
  | some t => t.clusterId
  | none => -1

/-- `asgard_le_config_write` once its input is parsed. -/
def leConfigWrite (n : Node) (maxEntriesPerPkt : Int) : Node :=
  if 0 < maxEntriesPerPkt ∧ maxEntriesPerPkt ≤ maxAeEntriesPerPkt then
    { n with priv.maxEntriesPerPkt := maxEntriesPerPkt }
  else n

def step (n : Node) : Event → Node
  | .rx lid ts => if lid < n.numOfTargets then n.doPostPayload lid ts else n
  | .handle lid pkt =>
    if lid < n.numOfTargets then
      (n.noteVote lid pkt).consensusPostPayload lid (n.rclusterId lid) pkt
    else n
  | .tick => n.tick
  | .request chunks => n.testcaseTimer chunks
  | .oneShot chunks => n.testcaseOneShotBigLog chunks
  | .work k =>
    match n.leaderWq[k]? with
    | some work => prepareLogReplication { n with leaderWq := n.leaderWq.eraseIdx k } work
    | none => n
  | .user rxbuf => { n with rxbuf := rxbuf }
  | .leConfig maxEntriesPerPkt => n.leConfigWrite maxEntriesPerPkt
  | .pmStart => n.preparePmLoop
  | .pmStop => n.postworkPmLoop
  | .pmHalt => n.asgardPmStop
  | .pmFail => n.failPmLoop
  | .start => n.consensusStart
  | .stop => n.consensusStop

/-- A node is reachable when it is the end of a run from `consensus_init`. -/
def run (n : Node) (events : List Event) : Node := Run.run step n events

end Node

/-! ### A small configuration

Three nodes with the ids 1, 2 and 3, everything uninitialised zero. -/

def zeroUninit : Uninit where
  leaderId := 0
  nodeId := 0
  votes := 0
  candidateCounter := 0
  terms _ := 0
  chunks _ := DataChunk.zero
  ring _ := DataChunk.zero
  leaderIdx := ⟨fun _ => 0, fun _ => 0, fun _ => [], fun _ => 0, fun _ => 0⟩

def smallConfig (clusterId : Nat) (targets : List Int) : Config where
  clusterId := clusterId
  targets := targets
  maxEntries := maxConsensusLog
  multicastEnable := false
  selfIp := 0
  selfMac := Vector.replicate _ 0
  maxEntries_pos := maxConsensusLog_pos
  maxEntries_le := maxConsensusLog_le

/-- Both targets turn up, and the warm-up ends. -/
def joining : List Event := [.pmStart, .rx 0 1, .rx 1 1]

def sampleChunk (byte : UInt8) : DataChunk := ⟨Vector.replicate _ byte⟩

/-- The first node is elected by both others and takes the requests. -/
def leading (chunks : List DataChunk) : List Event := joining ++
  [.handle 0 (setLeOpcode .vote 1 0 0 0), .handle 1 (setLeOpcode .vote 1 0 0 0), .request chunks]

/-- An APPEND of one entry. -/
def sampleAppend (term leaderId prevLogIdx prevLogTerm commitIdx : Int) (chunk : DataChunk) :
    ConRecord :=
  { setLeOpcode .append term leaderId prevLogIdx prevLogTerm with
    pktSize := 28
    leaderCommitIdx := toU32 commitIdx
    numEntries := 1
    entries := fun _ => chunk }

/-- The third node follows the first one, receives one entry and commits it. -/
def following : List Event := joining ++
  [.handle 0 (setLeOpcode .alive 1 (-1) (-1) 0),
    .handle 0 (sampleAppend 1 1 (-1) 1 (-1) (sampleChunk 7)),
    .handle 0 (setLeOpcode .alive 1 0 (-1) 0)]

end XlaneLkm
