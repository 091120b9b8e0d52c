import XlaneLkm.Payload

/-!
# Scheduling log replication

`replication.c` and the retransmission lists of `leader.c`. A record handed to a payload or to an
asynchronous queue goes to `sent`; from there the network may deliver it at any later time. A record
that another one overwrites before it is emitted is one the network loses.
-/

namespace XlaneLkm

open MachineInt

namespace Node

def send (n : Node) (dest : Dest) (record : Option ConRecord) : Node :=
  { n with sent := (dest, record) :: n.sent }

/-- `do_prepare_log_replication_multicast` in the kernel build. -/
def doPrepareLogReplicationMulticast (n : Node) : Node × Int :=
  if n.sdev.isLeader = false then (n, -1)
  else
    match n.setupAppendMulticastMsg with
    | (n, ret, some record) => (n.send .multicast (some record), ret)
    | (n, ret, none) => (n, ret)

/-- The `do … while (more > 0)` loop of `schedule_log_rep`. Each further iteration sends at least one
entry, so there are at most as many as entries were left. -/
def multicastLoop (n : Node) : Nat → Node
  | 0 => n
  | fuel + 1 =>
    match n.doPrepareLogReplicationMulticast with
    | (n, more) => if more > 0 then multicastLoop n fuel else n

/-- `schedule_log_rep` with `multicast_enabled = 0`: the work item goes to `asgard_leader_wq`. -/
def scheduleLogRep (n : Node) (work : LogRepWork) : Node :=
  if n.sdev.isLeader = false then n
  else if n.sdev.pmState ≠ .emitting then n
  else { n with leaderWq := n.leaderWq ++ [work] }

def queueRetransmission (n : Node) (remoteLid : Nat) (retransIdx : Int) : Node :=
  let idx := n.leaderIdx
  if retransIdx ∈ idx.retransHead remoteLid then n
  else { n with leaderIdx := { idx with
    retransHead := Function.update idx.retransHead remoteLid
      (idx.retransHead remoteLid ++ [retransIdx])
    numRetransmissions := Function.update idx.numRetransmissions remoteLid
      (idx.numRetransmissions remoteLid + 1)
    retransEntries := Function.update idx.retransEntries remoteLid
      (idx.retransEntries remoteLid + 1) } }

/-- `get_next_idx_for_target`: the index and `*retrans`. With a positive counter over an empty list
the index is -1 and the flag is not written; the caller stops on the index. -/
def getNextIdxForTarget (n : Node) (targetId : Nat) : Node × Int × Bool :=
  let idx := n.leaderIdx
  if idx.retransEntries targetId > 0 then
    match idx.retransHead targetId with
    | [] => (n, -1, false)
    | request :: rest =>
      ({ n with leaderIdx := { idx with
          retransEntries := Function.update idx.retransEntries targetId
            (idx.retransEntries targetId - 1)
          retransHead := Function.update idx.retransHead targetId rest } }, request, true)
  else (n, n.getNextIdx targetId, false)

def checkPendingLogRepForTarget (n : Node) (targetId : Nat) : Node :=
  if n.sdev.isLeader = false then n
  else if n.sdev.pmState ≠ .emitting then n
  else
    match n.getNextIdxForTarget targetId with
    | (n, nextIndex, retrans) =>
      if nextIndex < 0 then n
      else if nextIndex = n.getMatchIdx targetId then n
      else n.scheduleLogRep ⟨targetId, nextIndex, retrans⟩

def checkPendingLogRepForMulticast (n : Node) : Node :=
  if n.sdev.isLeader = false then n
  else if n.sdev.pmState ≠ .emitting then n
  else if n.sdev.multicastNextIdx < 0 then n
  else n.multicastLoop (n.smLog.lastIdx - n.sdev.multicastNextIdx + 2).toNat

def checkPendingLogRep (n : Node) : Node :=
  if n.sdev.isLeader = false then n
  else if n.sdev.pmState ≠ .emitting then n
  else if n.sdev.multicastEnable then n.checkPendingLogRepForMulticast
  else (List.range n.numOfTargets).foldl checkPendingLogRepForTarget n

/-- `do_prepare_log_replication` with the one consensus instance of the device. -/
def doPrepareLogReplication (n : Node) (work : LogRepWork) : Node × Int :=
  if n.sdev.isLeader = false then (n, -1)
  else if n.sdev.alive work.targetId = false then (n, -1)
  else if n.priv.nstate ≠ .leader then (n, 0)
  else
    match n.setupAppendMsg work.targetId work.nextIndex work.retrans with
    | (n, ret, some record) => (n.send (.target work.targetId) (some record), ret)
    | (n, _, none) => (n, 0)

def prepareLogReplication (n : Node) (work : LogRepWork) : Node :=
  match n.doPrepareLogReplication work with
  | (n, more) =>
    if more < 0 then n
    else if n.leaderIdx.retransHead work.targetId ≠ [] ∨ more ≠ 0 then
      n.checkPendingLogRepForTarget work.targetId
    else n

/-- One round of `clean_request_transmission_lists`. -/
def cleanRequestTransmissionList (n : Node) (i : Nat) : Node :=
  let idx := n.leaderIdx
  { n with leaderIdx := { idx with
    retransEntries := Function.update idx.retransEntries i
      (idx.retransEntries i - (idx.retransHead i).length)
    retransHead := Function.update idx.retransHead i [] } }

def cleanRequestTransmissionLists (n : Node) : Node :=
  (List.range n.numOfTargets).foldl cleanRequestTransmissionList n

end Node

end XlaneLkm
