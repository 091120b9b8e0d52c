import XlaneLkm.Consensus

/-!
# Handling a packet

`follower_process_pkt`, `candidate_process_pkt`, `leader_process_pkt` and the dispatcher
`consensus_post_payload`. `param1` is compared as an `int32_t` with the term everywhere but in
`check_handle_nomination`.
-/

namespace XlaneLkm

open MachineInt

namespace Node

def followerProcessPkt (n : Node) (remoteLid : Nat) (rclusterId : Int) (pkt : ConRecord) : Node :=
  let param1 := asI32 pkt.param1
  match pkt.opcodeVal with
  | some .nomi =>
    match n.checkHandleNomination pkt.param1.toNat pkt.param3.toNat pkt.param4.toNat rclusterId with
    | (n, true) => n.replyVote remoteLid rclusterId param1 (asI32 pkt.param2)
    | (n, false) => n
  | some .alive =>
    let param2 := asI32 pkt.param2
    let n := if param1 > n.priv.term then n.acceptLeader remoteLid rclusterId param1 else n
    if param1 = n.priv.term ∧ param2 ≠ -1 then n.commitLog param2 else n
  | some .append =>
    if n.priv.leaderId ≠ u32 rclusterId then n
    else if param1 > n.priv.term then
      (n.acceptLeader remoteLid rclusterId param1).handleAppendRpc pkt remoteLid rclusterId
    else if param1 = n.priv.term then
      (n.handleAppendRpc pkt remoteLid rclusterId).commitLog (asI32 pkt.leaderCommitIdx)
    else n
  | _ => n

def acceptVote (n : Node) (remoteLid : Nat) : Node :=
  let n := { n with priv.votes := n.priv.votes + 1, hist.counted := remoteLid :: n.hist.counted }
  if n.priv.votes = n.numOfTargets then
    { n.nodeTransition .leader with sdev.curLeaderLid := -1 }
  else { n with priv.candidateCounter := 0 }

def candidateProcessPkt (n : Node) (remoteLid : Nat) (rclusterId : Int) (pkt : ConRecord) : Node :=
  let param1 := asI32 pkt.param1
  match pkt.opcodeVal with
  | some .vote => n.acceptVote remoteLid
  | some .nomi =>
    match n.checkHandleNomination pkt.param1.toNat pkt.param3.toNat pkt.param4.toNat rclusterId with
    | (n, true) =>
      (n.nodeTransition .follower).replyVote remoteLid rclusterId param1 (asI32 pkt.param2)
    | (n, false) => n
  | some .alive =>
    if param1 ≥ n.priv.term then n.acceptLeader remoteLid rclusterId param1 else n
  | some .append =>
    if n.priv.leaderId ≠ u32 rclusterId then n
    else if param1 ≥ n.priv.term then n.handleAppendRpc pkt remoteLid rclusterId
    else n
  | _ => n

/-- The APPEND_REPLY case of `leader_process_pkt`. -/
def leaderProcessAppendReply (n : Node) (remoteLid : Nat) (pkt : ConRecord) : Node :=
  let param2 := asI32 pkt.param2
  let param3 := asI32 pkt.param3
  let param4 := asI32 pkt.param4
  if param2 = 1 then
    if n.smLog.lastIdx < param4 then n
    else
      let matchIndex := Function.update n.leaderIdx.matchIndex remoteLid param4
      updateCommitIdx { n with leaderIdx.matchIndex := matchIndex }
  else if param2 = 2 then
    if n.smLog.lastIdx < param4 then n
    else if n.smLog.lastIdx < param3 then n
    else (n.queueRetransmission remoteLid param3).checkPendingLogRep
  else if param2 = 0 then
    if n.smLog.lastIdx < param3 then n
    else
      let nextIndex := Function.update n.leaderIdx.nextIndex remoteLid (i32 (param3 + 1))
      { n with leaderIdx.nextIndex := nextIndex }
  else n

def leaderProcessPkt (n : Node) (remoteLid : Nat) (rclusterId : Int) (pkt : ConRecord) : Node :=
  match pkt.opcodeVal with
  | some .appendReply => n.leaderProcessAppendReply remoteLid pkt
  | some .alive =>
    if asI32 pkt.param1 > n.priv.term then
      n.acceptLeader remoteLid rclusterId (asI32 pkt.param1)
    else n
  | _ => n

/-- A VOTE packet for the present term is on record from its arrival on. -/
def noteVote (n : Node) (remoteLid : Nat) (pkt : ConRecord) : Node :=
  if pkt.opcodeVal = some .vote ∧ pkt.param1.toNat = u32 n.priv.term then
    { n with hist.voters := remoteLid :: n.hist.voters }
  else n

def consensusPostPayload (n : Node) (remoteLid : Nat) (rclusterId : Int) (pkt : ConRecord) : Node :=
  if n.priv.state ≠ .running then n
  else
    match n.priv.nstate with
    | .follower => n.followerProcessPkt remoteLid rclusterId pkt
    | .candidate => n.candidateProcessPkt remoteLid rclusterId pkt
    | .leader => n.leaderProcessPkt remoteLid rclusterId pkt
    | .nodeUninit => n

end Node

end XlaneLkm
