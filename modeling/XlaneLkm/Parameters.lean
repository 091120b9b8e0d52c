/-!
# Constants of the source

`libasraft.h`, `consensus.h`, `ringbuffer.h`, `membership.h`, `logger.h`, `pingpong.h`, `module.h`.
-/

namespace XlaneLkm

/-- `ASG_CHUNK_SIZE`, bytes in one command. -/
def asgChunkSize : Nat := 8

theorem asgChunkSize_pos : 0 < asgChunkSize := by decide

/-- `ASG_RING_BUF_SIZE_LIMIT`, slots of the array in `struct asg_ring_buf`. -/
def asgRingBufSizeLimit : Int := 1000000

/-- `sizeof(struct asg_ring_buf)`: four ints and the array. -/
def sizeofAsgRingBuf : Int := 16 + 8 * 1000000

def maxConsensusLog : Int := 400000

theorem maxConsensusLog_pos : 0 < maxConsensusLog := by decide

theorem maxConsensusLog_le : maxConsensusLog ≤ 2147483647 := by decide

def aeEntrySize : Int := 8

def asgardProtoConAeBaseSz : Int := 20

def maxAeEntriesPerPkt : Int := 100

def asgardProtoConPayloadSz : Nat := 22

/-- `MAX_ASGARD_PAYLOAD_BYTES`, 1500 bytes of MTU less 82 of headers. -/
def maxAsgardPayloadBytes : Nat := 1418

/-- `sizeof` of `proto_data` in `struct asgard_payload`. -/
def sizeofProtoData : Nat := maxAsgardPayloadBytes - 2

/-- `MAX_PROTO_INSTANCES`, slots of `protos` and of `instance_id_mapping`. -/
def maxProtoInstances : Nat := 8

def asgardProtoPpPayloadSz : Nat := 30

/-- `MAX_REMOTE_SOURCES`, slots of `pm_targets`. -/
def maxRemoteSources : Nat := 16

/-- `MAX_CLUSTER_MEMBER`, slots of `member_info`. -/
def maxClusterMember : Nat := 512

/-- `CLUSTER_SIZE`, slots of the arrays indexed by target in `struct state_machine_cmd_log`. -/
def clusterSize : Nat := 3

/-- `LOGGER_EVENT_LIMIT`, slots of `events`. -/
def loggerEventLimit : Nat := 100000

/-- `TIMESTAMP_ARRAY_LIMIT`, slots of `timestamp_items`. -/
def timestampArrayLimit : Nat := 100000

def asgardNumTsLogTypes : Nat := 8

/-- `MAX_PING_PONG_ROUND_TRIPS`, slots of `round_trip_data`. -/
def maxPingPongRoundTrips : Nat := 256

def minHbCycles : Int := 1000

def maxHbCycles : Int := 1000000000

/-- `ASGARD_TARGETS_BUF`, bytes of the buffer a target list is copied to. -/
def asgardTargetsBuf : Nat := 512

end XlaneLkm
