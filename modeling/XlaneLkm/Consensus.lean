import XlaneLkm.Leader

/-!
# Roles and elections

`consensus.c` with the start and stop functions of the three roles. `set_term` is ours: the source
assigns `priv->term` in three places, and each forgets the votes that came for the term before.
-/

namespace XlaneLkm

open MachineInt

namespace Node

/-- `priv->votes = 0`. -/
def resetVotes (n : Node) : Node := { n with priv.votes := 0, hist.counted := [] }

/-- `priv->term = term`. -/
def setTerm (n : Node) (term : Int) : Node := { n with priv.term := term, hist.voters := [] }

def setupLeMsg (n : Node) (opcode : LeOpcode) (targetId : Nat) (p1 p2 p3 p4 : Int) : Node :=
  n.send (.target targetId) (some (setLeOpcode opcode p1 p2 p3 p4))

/-- The last log term of a nomination: that of the last applied entry. -/
def lastLogTerm (n : Node) : Int :=
  if n.smLog.lastApplied = -1 then n.priv.term
  else i32 (n.smLog.entry n.smLog.lastApplied).term

def setupLeBroadcastMsg (n : Node) (opcode : LeOpcode) : Node :=
  (List.range n.numOfTargets).foldl (fun n' i =>
    n'.setupLeMsg opcode i n.priv.term n.priv.nodeId n.smLog.stableIdx n.lastLogTerm) n

/-! ### Follower and candidate -/

def startFollower (n : Node) : Node :=
  let n := n.setupLeBroadcastMsg .noop
  resetVotes { n with sdev.isLeader := false, priv.nstate := .follower, priv.candidateCounter := 0 }

/-- `setup_nomination`. The increment of an `int32_t` is taken modulo 2^32. -/
def setupNomination (n : Node) : Node :=
  (n.setTerm (i32 (n.priv.term + 1))).setupLeBroadcastMsg .nomi

/-- `start_candidate`, `none` for a failed candidature. -/
def startCandidate (n : Node) : Option Node :=
  if n.numOfTargets < 2 ∧ n.sdev.warmupState = .warmedUp then none
  else
    let n := n.resetVotes
    some (setupNomination { n with
      priv.nstate := .candidate, priv.candidateCounter := 0, sdev.isLeader := false })

def asgardPmStop (n : Node) : Node := { n with sdev.pmState := .ready }

/-! ### Transitions -/

/-- The stop function of the present role. `stop_follower` and `stop_candidate` do nothing. -/
def stopRole (n : Node) : Node :=
  match n.priv.nstate with
  | .leader => n.stopLeader
  | .follower => n
  | .candidate => n
  | .nodeUninit => n

def nodeTransition (n : Node) (state : NodeState) : Node :=
  let n := n.resetVotes.stopRole
  match state with
  | .follower => { n.startFollower with priv.nstate := .follower }
  | .candidate =>
    match n.startCandidate with
    | none => n.asgardPmStop
    | some n => { n with priv.nstate := .candidate }
  | .leader => { n.startLeader with priv.nstate := .leader }
  | .nodeUninit => n

def acceptLeader (n : Node) (remoteLid : Nat) (clusterId : Int) (term : Int) : Node :=
  let n := n.setTerm term
  nodeTransition { n with
    priv.leaderId := u32 clusterId
    sdev.curLeaderLid := remoteLid
    hist.accepted := (clusterId, term) :: n.hist.accepted } .follower

/-! ### Votes -/

/-- The first step of `check_handle_nomination`. -/
def catchUpTerm (n : Node) (param1 : Nat) (rclusterId : Int) : Node :=
  if n.sdev.clusterId < u32 rclusterId ∧ u32 n.priv.term < param1 then n.setTerm (i32 param1) else n

/-- The rest of `check_handle_nomination`: whether the vote is granted. -/
def grantsVote (n : Node) (param1 param3 param4 : Nat) (rclusterId : Int) : Bool :=
  if u32 n.priv.term < param1 then
    if n.priv.voted = param1 then false
    else if (0 ≤ n.sdev.curLeaderLid ∧ n.sdev.curLeaderLid < n.numOfTargets) ∧
        n.sdev.alive n.sdev.curLeaderLid.toNat ∧ n.priv.leaderId < u32 rclusterId then false
    else if n.smLog.lastIdx = -1 then true
    else param3 ≥ u32 n.smLog.lastIdx ∧ (n.smLog.entry n.smLog.lastIdx).term = param4
  else false

def checkHandleNomination (n : Node) (param1 param3 param4 : Nat) (rclusterId : Int) : Node × Bool :=
  let n := n.catchUpTerm param1 rclusterId
  (n, n.grantsVote param1 param3 param4 rclusterId)

def replyVote (n : Node) (remoteLid : Nat) (rclusterId param1 param2 : Int) : Node :=
  let n := n.setupLeMsg .vote remoteLid param1 param2 0 0
  { n with
    priv.voted := u32 param1
    hist.votesGiven := (rclusterId, u32 param1) :: n.hist.votesGiven }

/-! ### Log replication -/

def replyAppend (n : Node) (remoteLid : Nat) (param1 appendSuccess loggedIdx : Int) : Node :=
  n.setupLeMsg .appendReply remoteLid param1 appendSuccess loggedIdx n.smLog.stableIdx

def handleAppendRpc (n : Node) (pkt : ConRecord) (remoteLid : Nat) (rclusterId : Int) : Node :=
  let result := n.smLog.handleAppend n.priv pkt rclusterId
  let n := { n with smLog := result.1 }
  match result.2 with
  | .nothing => n
  | .fail loggedIdx => n.replyAppend remoteLid n.priv.term 0 loggedIdx
  | .success loggedIdx =>
    if n.sdev.multicastEnable then n else n.replyAppend remoteLid n.priv.term 1 loggedIdx
  | .retransmission loggedIdx => n.replyAppend remoteLid n.priv.term 2 loggedIdx

def commitLog (n : Node) (commitIdx : Int) : Node :=
  let result := n.smLog.commitLog n.rxbuf n.sdev.multicastEnable commitIdx
  { n with smLog := result.1, rxbuf := result.2 }

/-! ### Start and stop -/

def setAllTargetsDead (n : Node) : Node :=
  { n with sdev.targets := n.sdev.targets.map fun t => { t with alive := false } }

def consensusStart (n : Node) : Node :=
  if n.priv.state = .running then n
  else nodeTransition { n with priv.state := .running } .follower

def consensusStop (n : Node) : Node :=
  if n.priv.state ≠ .running then n
  else setAllTargetsDead { n.stopRole with priv.state := .ready }

end Node

end XlaneLkm
