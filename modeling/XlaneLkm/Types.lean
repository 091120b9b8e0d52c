import XlaneLkm.Parameters
import XlaneLkm.Library.MachineInt

/-!
# Data model

The structures of `libasraft.h` and `ringbuffer.h` as far as the consensus protocol reads them. A
`int32_t` field is an `Int`, an `uint32_t` field a `Nat`. Statistics, loggers, locks and the debug
counters are left out: no function below reads them.

Three things are ours. The fields of `struct state_machine_cmd_log` that only a leader uses are
grouped as `LeaderIndices`. `SmLog.history` and `Node.hist` are history variables: they record what
happened and no function reads them. `Node.sent` holds every record the node has ever handed to a
target's payload; since the network loses, delays, repeats and reorders, whatever stands there may
arrive at any later time.
-/

namespace XlaneLkm

open MachineInt

structure DataChunk where
  data : Vector UInt8 asgChunkSize
  deriving DecidableEq

def DataChunk.zero : DataChunk := ⟨Vector.replicate _ 0⟩

inductive LeOpcode where
  | noop | nomi | vote | lead | append | appendReply | alive | advertise
  deriving DecidableEq

def LeOpcode.code : LeOpcode → Nat
  | .noop => 0
  | .nomi => 1
  | .vote => 2
  | .lead => 3
  | .append => 4
  | .appendReply => 5
  | .alive => 6
  | .advertise => 7

def LeOpcode.ofCode : Nat → Option LeOpcode
  | 0 => some .noop
  | 1 => some .nomi
  | 2 => some .vote
  | 3 => some .lead
  | 4 => some .append
  | 5 => some .appendReply
  | 6 => some .alive
  | 7 => some .advertise
  | _ => none

@[simp]
theorem LeOpcode.ofCode_code (op : LeOpcode) : ofCode op.code = some op := by
  cases op <;> rfl

inductive NodeState where
  | follower | candidate | leader | nodeUninit
  deriving DecidableEq

inductive LeState where
  | running | ready | uninit
  deriving DecidableEq

inductive PmState where
  | uninit | ready | emitting | failed
  deriving DecidableEq

inductive WState where
  | warmedUp | warmingUp
  deriving DecidableEq

inductive Errno where
  | einval | eproto | enomem | eperm | erange
  deriving DecidableEq

def Errno.code : Errno → Int
  | .eperm => 1
  | .enomem => 12
  | .einval => 22
  | .erange => 34
  | .eproto => 71

/-- `struct sm_log_entry`. `consensus_init` allocates one for every slot and nothing frees one before
`consensus_clean`, so the pointers to them are never NULL. -/
structure SmLogEntry where
  valid : Bool
  term : Nat
  dataChunk : DataChunk

/-- What was done to the log: a command stored by `append_command` (with the value of
`last_applied` at that moment), a command given to `append_rb` with success (with the valid flag of
its slot at that moment). -/
inductive LogAction where
  | append (idx : Int) (chunk : DataChunk) (lastApplied : Int)
  | apply (idx : Int) (chunk : DataChunk) (valid : Bool)
  deriving DecidableEq

/-- `struct state_machine_cmd_log`: the ring of entries and the four progress indices. -/
structure SmLog where
  lastApplied : Int
  lastIdx : Int
  commitIdx : Int
  stableIdx : Int
  nextRetransReqIdx : Int
  maxEntries : Int
  entries : Nat → SmLogEntry
  /-- Newest first. -/
  history : List LogAction

/-- `struct state_machine_cmd_log`: the arrays indexed by target, each with its first `CLUSTER_SIZE`
entries. What the code does with the index of a further target, `CmdLogMemory` says. -/
structure LeaderIndices where
  nextIndex : Nat → Int
  matchIndex : Nat → Int
  retransHead : Nat → List Int
  retransEntries : Nat → Int
  numRetransmissions : Nat → Int

structure AsgRingBuf where
  readIdx : Int
  writeIdx : Int
  turn : Int
  size : Int
  ring : Nat → DataChunk

structure ConsensusPriv where
  nstate : NodeState
  state : LeState
  candidateCounter : Int
  leaderId : Nat
  nodeId : Nat
  term : Int
  voted : Nat
  maxEntriesPerPkt : Int
  votes : Int

/-- `struct asgard_pm_target_info`. -/
structure TargetInfo where
  clusterId : Int
  alive : Bool
  lhbTs : Nat
  chbTs : Nat
  respFactor : Int
  curWaitingInterval : Int

/-- `struct asgard_device` with its `struct pminfo`; `num_of_targets` is the length of `targets`. -/
structure AsgardDevice where
  clusterId : Nat
  targets : List TargetInfo
  pmState : PmState
  hbInterval : Nat
  curLeaderLid : Int
  isLeader : Bool
  warmupState : WState
  multicastEnable : Bool
  multicastNextIdx : Int
  selfIp : UInt32
  selfMac : Vector UInt8 6

/-- `struct asgard_leader_pkt_work_data`. -/
structure LogRepWork where
  targetId : Nat
  nextIndex : Int
  retrans : Bool

/-- A consensus record of a packet, by the fields the accessor macros of `payload.h` read. The
messages of leader election and the APPEND message share the layout: `param1` is also the term,
`param2` the leader id, `param3` the previous log index and `param4` the previous log term.
`entries k` is the `k`-th 8-byte chunk behind the fixed part. -/
structure ConRecord where
  pktSize : UInt16
  opcode : UInt16
  param1 : UInt32
  param2 : UInt32
  param3 : UInt32
  param4 : UInt32
  leaderCommitIdx : UInt32
  numEntries : UInt32
  entries : Nat → DataChunk

/-- Receiver of an emitted packet. -/
inductive Dest where
  | target (lid : Nat)
  | multicast
  deriving DecidableEq

/-- History of a node. -/
structure History where
  /-- Executions of `reply_vote`: candidate and term. -/
  votesGiven : List (Int × Nat)
  /-- Targets whose VOTE packets `priv->votes` counts. -/
  counted : List Nat
  /-- Targets that sent a VOTE for the present term since the term was last set. -/
  voters : List Nat
  /-- Entries into LEADER: the term, and `voters` at that moment. -/
  leads : List (Int × List Nat)
  /-- Executions of `accept_leader`: cluster id and term. -/
  accepted : List (Int × Int)

/-- A node: `struct consensus_priv`, its device, the queue of log replication work, and the
histories. A heartbeat without a consensus record is a `none` in `sent`. -/
structure Node where
  priv : ConsensusPriv
  smLog : SmLog
  rxbuf : AsgRingBuf
  leaderIdx : LeaderIndices
  sdev : AsgardDevice
  leaderWq : List LogRepWork
  /-- Newest first. -/
  sent : List (Dest × Option ConRecord)
  hist : History

def AsgardDevice.numOfTargets (d : AsgardDevice) : Nat := d.targets.length

def Node.numOfTargets (n : Node) : Nat := n.sdev.numOfTargets

/-- `pm_targets[lid].alive`, false outside the table. -/
def AsgardDevice.alive (d : AsgardDevice) (lid : Nat) : Bool :=
  match d.targets[lid]? with
  | some t => t.alive
  | none => false

/-- What the device is configured with: this does not change while the protocol runs. -/
def AsgardDevice.config (d : AsgardDevice) : Nat × List Int × Bool :=
  (d.clusterId, d.targets.map TargetInfo.clusterId, d.multicastEnable)

/-! ### Accessors of a record -/

/-- `uint8_t opcode = GET_CON_PROTO_OPCODE_VAL(pkt)`: the field has 16 bits, the variable 8. -/
def ConRecord.opcodeVal (pkt : ConRecord) : Option LeOpcode :=
  LeOpcode.ofCode (pkt.opcode.toNat % 256)

def ConRecord.prevLogIdx (pkt : ConRecord) : Int := asI32 pkt.param3

def ConRecord.prevLogTerm (pkt : ConRecord) : Nat := pkt.param4.toNat

def setLeOpcode (opco : LeOpcode) (p1 p2 p3 p4 : Int) : ConRecord where
  pktSize := UInt16.ofNat asgardProtoConPayloadSz
  opcode := UInt16.ofNat opco.code
  param1 := toU32 p1
  param2 := toU32 p2
  param3 := toU32 p3
  param4 := toU32 p4
  leaderCommitIdx := 0
  numEntries := 0
  entries := fun _ => DataChunk.zero

@[simp]
theorem setLeOpcode_opcodeVal (opco : LeOpcode) (p1 p2 p3 p4 : Int) :
    (setLeOpcode opco p1 p2 p3 p4).opcodeVal = some opco := by
  cases opco <;> rfl

end XlaneLkm
