import XlaneLkm.Node
import XlaneLkm.Library.ByteMemory

/-!
# `struct state_machine_cmd_log` in memory

The arrays indexed by target stand in the struct one behind the other, before `last_applied` and the
other indices. Nothing checks an index against `CLUSTER_SIZE`: with more targets than that,
`initialize_indices` goes on behind the end of each array, where the next one stands.
-/

namespace XlaneLkm

open MachineInt

/-- `asg_rwlock_t`, a type of the kernel: its size in bytes, and what `asg_rwlock_init` makes of it. -/
structure RwLock where
  size : Nat
  unlocked : Nat → UInt8

/-- The fields of the struct that are numbers. `unstable_commits` stands before `next_index`. -/
inductive CmdLogField where
  | numRetransmissions (i : Nat)
  | nextIndex (i : Nat)
  | matchIndex (i : Nat)
  | retransEntries (i : Nat)
  | lastApplied
  | lastIdx
  | commitIdx
  | stableIdx
  | nextRetransReqIdx
  | maxEntries
  deriving DecidableEq

namespace CmdLogField

/-- The offset of `retrans_head[i]`, which are two pointers. -/
def retransHeadOffset (i : Nat) : Nat := 12 * clusterSize + 4 + 16 * i

def retransListLockOffset (lk : RwLock) (i : Nat) : Nat := retransHeadOffset clusterSize + lk.size * i

def offset (lk : RwLock) : CmdLogField → Nat
  | .numRetransmissions i => 4 * i
  | .nextIndex i => 4 * clusterSize + 4 + 4 * i
  | .matchIndex i => 8 * clusterSize + 4 + 4 * i
  | .retransEntries i => retransListLockOffset lk clusterSize + 4 * i
  | .lastApplied => retransListLockOffset lk clusterSize + 4 * clusterSize
  | .lastIdx => retransListLockOffset lk clusterSize + 4 * clusterSize + 4
  | .commitIdx => retransListLockOffset lk clusterSize + 4 * clusterSize + 8
  | .stableIdx => retransListLockOffset lk clusterSize + 4 * clusterSize + 12
  | .nextRetransReqIdx => retransListLockOffset lk clusterSize + 4 * clusterSize + 16
  | .maxEntries => retransListLockOffset lk clusterSize + 4 * clusterSize + 20

/-- Where the retransmission lists of the first `k` targets stand, with the sizes: the heads, the locks
and the counters. -/
def listAreas (lk : RwLock) (k : Nat) : List (Nat × Nat) :=
  (List.range k).flatMap fun i =>
    [(retransHeadOffset i, 16), (retransListLockOffset lk i, lk.size),
      ((CmdLogField.retransEntries i).offset lk, 4), ((CmdLogField.numRetransmissions i).offset lk, 4)]

/-- A field of the first `k` targets, or of none. -/
def Below (k : Nat) : CmdLogField → Prop
  | .numRetransmissions i | .nextIndex i | .matchIndex i | .retransEntries i => i < k
  | .lastApplied | .lastIdx | .commitIdx | .stableIdx | .nextRetransReqIdx | .maxEntries => True

end CmdLogField

open CmdLogField

namespace Node

def field (n : Node) : CmdLogField → Int
  | .numRetransmissions i => n.leaderIdx.numRetransmissions i
  | .nextIndex i => n.leaderIdx.nextIndex i
  | .matchIndex i => n.leaderIdx.matchIndex i
  | .retransEntries i => n.leaderIdx.retransEntries i
  | .lastApplied => n.smLog.lastApplied
  | .lastIdx => n.smLog.lastIdx
  | .commitIdx => n.smLog.commitIdx
  | .stableIdx => n.smLog.stableIdx
  | .nextRetransReqIdx => n.smLog.nextRetransReqIdx
  | .maxEntries => n.smLog.maxEntries

def setField (n : Node) (f : CmdLogField) (v : Int) : Node :=
  let idx := n.leaderIdx
  match f with
  | .numRetransmissions i =>
    { n with leaderIdx.numRetransmissions := Function.update idx.numRetransmissions i v }
  | .nextIndex i => { n with leaderIdx.nextIndex := Function.update idx.nextIndex i v }
  | .matchIndex i => { n with leaderIdx.matchIndex := Function.update idx.matchIndex i v }
  | .retransEntries i => { n with leaderIdx.retransEntries := Function.update idx.retransEntries i v }
  | .lastApplied => { n with smLog.lastApplied := v }
  | .lastIdx => { n with smLog.lastIdx := v }
  | .commitIdx => { n with smLog.commitIdx := v }
  | .stableIdx => { n with smLog.stableIdx := v }
  | .nextRetransReqIdx => { n with smLog.nextRetransReqIdx := v }
  | .maxEntries => { n with smLog.maxEntries := v }

end Node

/-- The bytes of the struct from its first one on, which stands at `addr`. -/
structure CmdLogMemory where
  addr : Nat
  bytes : Nat → UInt8

namespace CmdLogMemory

variable (lk : RwLock) (mem : CmdLogMemory)

def get (f : CmdLogField) : Int := i32 (ByteMemory.read mem.bytes (f.offset lk) 4)

def set (f : CmdLogField) (v : Int) : CmdLogMemory :=
  { mem with bytes := ByteMemory.write mem.bytes (f.offset lk) 4 (u32 v) }

/-- The address of `retrans_head[i]`. -/
def headAddr (i : Nat) : Nat := u64 (mem.addr + retransHeadOffset i)

def asgRwlockInit (i : Nat) : CmdLogMemory :=
  { mem with bytes := ByteMemory.copy mem.bytes (retransListLockOffset lk i) lk.size lk.unlocked }

/-- `INIT_LIST_HEAD` of `retrans_head[i]`: `next` and `prev` point to the head itself. -/
def initListHead (i : Nat) : CmdLogMemory :=
  let bytes := ByteMemory.write mem.bytes (retransHeadOffset i) 8 (mem.headAddr i)
  { mem with bytes := ByteMemory.write bytes (retransHeadOffset i + 8) 8 (mem.headAddr i) }

/-- `list_empty` of `retrans_head[i]`. -/
def listEmpty (i : Nat) : Bool := ByteMemory.read mem.bytes (retransHeadOffset i) 8 = mem.headAddr i

/-- One round of `initialize_indices`. The heartbeat it prepares is not in the struct. -/
def initializeIndex (i : Nat) : CmdLogMemory :=
  let mem := mem.set lk (.nextIndex i) (mem.get lk .stableIdx + 1)
  let mem := mem.set lk (.matchIndex i) (-1)
  let mem := mem.set lk (.numRetransmissions i) 0
  let mem := mem.asgRwlockInit lk i
  let mem := mem.initListHead i
  mem.set lk (.retransEntries i) 0

def initializeIndices (numOfTargets : Nat) : CmdLogMemory :=
  (List.range numOfTargets).foldl (initializeIndex lk) mem

end CmdLogMemory

end XlaneLkm
