import XlaneLkm.Membership
import XlaneLkm.Proof.Appending
import XlaneLkm.Proof.Bookkeeping

/-!
# The target table

Nothing but the arrival of a packet, a tick and the end of a run writes to the table of targets, and
each does the same to every target it is about. What a node knows of its peers can so be followed
target by target.
-/

namespace XlaneLkm

open MachineInt

/-- What `set_all_targets_dead` does to a target. -/
def TargetInfo.markDead (t : TargetInfo) : TargetInfo := { t with alive := false }

namespace Node

variable {n m : Node}

/-! ### What leaves the table alone -/

theorem foldl_targets {β : Type*} {f : Node → β → Node}
    (h : ∀ m b, (f m b).sdev.targets = m.sdev.targets) (l : List β) (n : Node) :
    (l.foldl f n).sdev.targets = n.sdev.targets := by
  induction l generalizing n with
  | nil => rfl
  | cons b l ih =>
    calc (l.foldl f (f n b)).sdev.targets
        = (f n b).sdev.targets := ih (f n b)
      _ = n.sdev.targets := h n b

theorem preHbSetups_targets (l : List Nat) (n : Node) :
    (l.foldl preHbSetup n).sdev.targets = n.sdev.targets := by
  obtain ⟨sent, heq⟩ := preHbSetups_eq l n
  rw [heq]

theorem stopRole_targets (n : Node) : n.stopRole.sdev.targets = n.sdev.targets := by
  obtain ⟨idx, isLeader, heq⟩ := stopRole_eq n
  rw [heq]

theorem enterFollower_targets (n : Node) : n.enterFollower.sdev.targets = n.sdev.targets := by
  obtain ⟨idx, sent, heq⟩ := enterFollower_eq n
  rw [heq]
  rfl

theorem acceptLeader_targets (n : Node) (lid : Nat) (clusterId term : Int) :
    (n.acceptLeader lid clusterId term).sdev.targets = n.sdev.targets :=
  (enterFollower_targets (n.accept lid clusterId term)).trans rfl

theorem checkPendingLogRep_targets (n : Node) : n.checkPendingLogRep.sdev.targets = n.sdev.targets :=
  (checkPendingLogRep_keepsTables n).targets

theorem startLeader_targets (n : Node) : n.startLeader.sdev.targets = n.sdev.targets := by
  have hindices : n.recordLead.initializeIndices.sdev.targets = n.sdev.targets := by
    rw [initializeIndices_eq, preHbSetups_targets]
    rfl
  unfold startLeader
  rw [checkPendingLogRep_targets, preHbSetups_targets]
  exact hindices

theorem startCandidate_targets (h : n.startCandidate = some m) : m.sdev.targets = n.sdev.targets := by
  unfold startCandidate at h
  split at h
  case isTrue => cases h
  case isFalse =>
    cases h
    obtain ⟨sent, heq⟩ := setupLeBroadcastMsg_eq (setTerm { n.resetVotes with
      priv.nstate := .candidate, priv.candidateCounter := 0, sdev.isLeader := false }
      (i32 (n.priv.term + 1))) .nomi
    exact congrArg (fun m => m.sdev.targets) heq

theorem nodeTransition_targets (n : Node) (state : NodeState) :
    (n.nodeTransition state).sdev.targets = n.sdev.targets := by
  have hstop : n.resetVotes.stopRole.sdev.targets = n.sdev.targets := stopRole_targets n.resetVotes
  cases state with
  | follower => exact enterFollower_targets n.resetVotes
  | candidate =>
    simp only [nodeTransition]
    split
    case h_1 => exact hstop
    case h_2 m hstart =>
      calc m.sdev.targets
          = n.resetVotes.stopRole.sdev.targets := startCandidate_targets hstart
        _ = n.sdev.targets := hstop
  | leader =>
    calc n.resetVotes.stopRole.startLeader.sdev.targets
        = n.resetVotes.stopRole.sdev.targets := startLeader_targets _
      _ = n.sdev.targets := hstop
  | nodeUninit => exact hstop

theorem doPrepareLogReplication_targets (n : Node) (work : LogRepWork) :
    (n.doPrepareLogReplication work).1.sdev.targets = n.sdev.targets := by
  unfold doPrepareLogReplication
  split
  · rfl
  split
  · rfl
  split
  · rfl
  have hmsg : (n.setupAppendMsg work.targetId work.nextIndex work.retrans).1.sdev.targets =
      n.sdev.targets := by
    obtain ⟨nextIndex, heq⟩ := (appendMsgAt_spec n.repairLast work.targetId
      (if work.retrans then work.nextIndex else n.repairLast.getNextIdx work.targetId)
      work.retrans).1
    rw [setupAppendMsg, heq]
    rfl
  split
  case h_1 n' ret record heq =>
    rw [heq] at hmsg
    exact hmsg
  case h_2 n' ret heq =>
    rw [heq] at hmsg
    exact hmsg

theorem prepareLogReplication_targets (n : Node) (work : LogRepWork) :
    (n.prepareLogReplication work).sdev.targets = n.sdev.targets := by
  have hprepare := doPrepareLogReplication_targets n work
  unfold prepareLogReplication
  dsimp only
  split
  · exact hprepare
  split
  · exact (checkPendingLogRepForTarget_keepsTables _ _).targets.trans hprepare
  · exact hprepare

theorem requestLoop_targets (chunks : List DataChunk) (n : Node) (i : Int) :
    (n.requestLoop i chunks).1.sdev.targets = n.sdev.targets := by
  induction chunks generalizing n i with
  | nil => rfl
  | cons chunk chunks ih =>
    unfold requestLoop
    split
    case h_1 => rfl
    case h_2 log _ => exact (ih { n with smLog := log } (i + 1)).trans rfl

theorem testcaseTimer_targets (n : Node) (chunks : List DataChunk) :
    (n.testcaseTimer chunks).sdev.targets = n.sdev.targets := by
  unfold testcaseTimer
  split
  · rfl
  have hloop := requestLoop_targets (chunks.take (i32 (i32 (n.smLog.lastIdx + 1) + chunks.length) -
    i32 (n.smLog.lastIdx + 1)).toNat) n (i32 (n.smLog.lastIdx + 1))
  dsimp only
  split
  case h_1 m heq =>
    rw [heq] at hloop
    calc m.checkPendingLogRep.sdev.targets
        = m.sdev.targets := checkPendingLogRep_targets m
      _ = n.sdev.targets := hloop
  case h_2 m heq =>
    rw [heq] at hloop
    exact hloop

theorem testcaseOneShotBigLog_targets (n : Node) (chunks : List DataChunk) :
    (n.testcaseOneShotBigLog chunks).sdev.targets = n.sdev.targets := by
  unfold testcaseOneShotBigLog
  split
  · rfl
  · exact requestLoop_targets _ n 0

theorem updateLeader_targets (n : Node) : n.updateLeader.sdev.targets = n.sdev.targets := by
  unfold updateLeader
  split_ifs
  · rfl
  · rfl
  · exact nodeTransition_targets n .candidate
  · rfl
  · rfl

theorem consensusStart_targets (n : Node) : n.consensusStart.sdev.targets = n.sdev.targets := by
  unfold consensusStart
  split
  · rfl
  · exact (nodeTransition_targets _ .follower).trans rfl

theorem checkWarmupState_targets (n : Node) : n.checkWarmupState.1.sdev.targets = n.sdev.targets := by
  unfold checkWarmupState
  split_ifs
  · rfl
  · rfl
  · calc n.finishWarmup.sdev.targets
        = n.consensusStart.sdev.targets := updateLeader_targets _
      _ = n.sdev.targets := consensusStart_targets n
  · rfl

/-! ### Packets -/

theorem checkHandleNomination_targets {param1 param3 param4 : Nat} {rclusterId : Int}
    {granted : Bool}
    (h : n.checkHandleNomination param1 param3 param4 rclusterId = (m, granted)) :
    m.sdev.targets = n.sdev.targets := by
  obtain ⟨term, voters, heq⟩ := catchUpTerm_eq n param1 rclusterId
  rw [checkHandleNomination, heq] at h
  cases h
  rfl

section Packets

variable (n : Node) (lid : Nat) (rclusterId : Int) (pkt : ConRecord)

theorem handleAppendRpc_targets :
    (n.handleAppendRpc pkt lid rclusterId).sdev.targets = n.sdev.targets := by
  obtain ⟨sent, heq⟩ := n.handleAppendRpc_eq pkt lid rclusterId
  rw [heq]

theorem followerProcessPkt_targets :
    (n.followerProcessPkt lid rclusterId pkt).sdev.targets = n.sdev.targets := by
  have haccept := n.acceptLeader_targets lid rclusterId (asI32 pkt.param1)
  unfold followerProcessPkt
  dsimp only
  split
  · split
    case h_1 m hcheck =>
      have hm := checkHandleNomination_targets hcheck
      exact hm
    case h_2 m hcheck => exact checkHandleNomination_targets hcheck
  · split_ifs
    · exact haccept
    · exact haccept
    · rfl
    · rfl
  · split_ifs
    · rfl
    · calc ((n.acceptLeader lid rclusterId (asI32 pkt.param1)).handleAppendRpc pkt lid
            rclusterId).sdev.targets
          = (n.acceptLeader lid rclusterId (asI32 pkt.param1)).sdev.targets :=
            handleAppendRpc_targets _ lid rclusterId pkt
        _ = n.sdev.targets := haccept
    · exact n.handleAppendRpc_targets lid rclusterId pkt
    · rfl
  · rfl

theorem acceptVote_targets : (n.acceptVote lid).sdev.targets = n.sdev.targets := by
  unfold acceptVote
  dsimp only
  split
  · exact (nodeTransition_targets _ .leader).trans rfl
  · rfl

theorem candidateProcessPkt_targets :
    (n.candidateProcessPkt lid rclusterId pkt).sdev.targets = n.sdev.targets := by
  unfold candidateProcessPkt
  dsimp only
  split
  · exact n.acceptVote_targets lid
  · split
    case h_1 m hcheck =>
      calc (m.nodeTransition .follower).sdev.targets
          = m.sdev.targets := nodeTransition_targets m .follower
        _ = n.sdev.targets := checkHandleNomination_targets hcheck
    case h_2 m hcheck => exact checkHandleNomination_targets hcheck
  · split
    · exact n.acceptLeader_targets lid rclusterId (asI32 pkt.param1)
    · rfl
  · split_ifs
    · rfl
    · exact n.handleAppendRpc_targets lid rclusterId pkt
    · rfl
  · rfl

theorem leaderProcessAppendReply_targets :
    (n.leaderProcessAppendReply lid pkt).sdev.targets = n.sdev.targets := by
  unfold leaderProcessAppendReply
  dsimp only
  split_ifs
  · rfl
  · exact (updateCommitIdx_keepsTables _).targets
  · rfl
  · rfl
  · calc (n.queueRetransmission lid (asI32 pkt.param3)).checkPendingLogRep.sdev.targets
        = (n.queueRetransmission lid (asI32 pkt.param3)).sdev.targets := checkPendingLogRep_targets _
      _ = n.sdev.targets := (queueRetransmission_keepsTables n lid _).targets
  · rfl
  · rfl
  · rfl

theorem consensusPostPayload_targets :
    (n.consensusPostPayload lid rclusterId pkt).sdev.targets = n.sdev.targets := by
  unfold consensusPostPayload
  split
  · rfl
  split
  · exact n.followerProcessPkt_targets lid rclusterId pkt
  · exact n.candidateProcessPkt_targets lid rclusterId pkt
  · unfold leaderProcessPkt
    split
    · exact n.leaderProcessAppendReply_targets lid pkt
    · split
      · exact n.acceptLeader_targets lid rclusterId (asI32 pkt.param1)
      · rfl
    · rfl
  · rfl

end Packets

/-! ### What writes to it -/

/-- The table after an event. -/
def targetsAfter (n : Node) : Event → List TargetInfo
  | .rx lid ts =>
    if n.sdev.pmState = .emitting then n.sdev.targets.modify lid (·.received ts)
    else n.sdev.targets
  | .tick =>
    if n.sdev.pmState = .emitting then n.sdev.targets.map TargetInfo.updateAliveness
    else n.sdev.targets
  | .pmStop | .stop =>
    if n.priv.state = .running then n.sdev.targets.map TargetInfo.markDead else n.sdev.targets
  | _ => n.sdev.targets

theorem emitPktsScheduled_targets (n : Node) :
    n.emitPktsScheduled.sdev.targets = n.sdev.targets :=
  foldl_targets (f := fun m i => m.send (.target i) none) (fun _ _ => rfl) _ n

theorem heartbeat_targets (n : Node) :
    n.heartbeat.sdev.targets = n.sdev.targets.map TargetInfo.updateAliveness := by
  refine congrArg (List.map TargetInfo.updateAliveness) ?_
  rw [preHbSetups_targets, emitPktsScheduled_targets]

theorem doPostPayload_targets (n : Node) (lid ts : Nat) : (n.doPostPayload lid ts).sdev.targets =
    if n.sdev.pmState = .emitting then n.sdev.targets.modify lid (·.received ts)
    else n.sdev.targets := by
  unfold doPostPayload
  by_cases hpm : n.sdev.pmState = .emitting
  · rw [if_neg (not_not.mpr hpm), if_pos hpm]
    exact checkWarmupState_targets _
  · rw [if_pos hpm, if_neg hpm]

theorem consensusStop_targets (n : Node) : n.consensusStop.sdev.targets =
    if n.priv.state = .running then n.sdev.targets.map TargetInfo.markDead else n.sdev.targets := by
  unfold consensusStop
  by_cases hrun : n.priv.state = .running
  · rw [if_neg (not_not.mpr hrun), if_pos hrun]
    exact congrArg (List.map TargetInfo.markDead) (stopRole_targets n)
  · rw [if_pos hrun, if_neg hrun]

theorem step_targets (n : Node) (e : Event) : (n.step e).sdev.targets = n.targetsAfter e := by
  cases e with
  | rx lid ts =>
    simp only [step, targetsAfter]
    split
    case isTrue => exact doPostPayload_targets n lid ts
    case isFalse hlid =>
      rw [List.modify_eq_self (Nat.not_lt.mp hlid), ite_self]
  | handle lid pkt =>
    simp only [step, targetsAfter]
    split
    · rw [consensusPostPayload_targets, noteVote_sdev]
    · rfl
  | tick =>
    simp only [step, tick, targetsAfter]
    by_cases hpm : n.sdev.pmState = .emitting
    · rw [if_neg (not_not.mpr hpm), if_pos hpm, checkPendingLogRep_targets, ← heartbeat_targets]
      split
      · exact updateLeader_targets n.heartbeat
      · rfl
    · rw [if_pos hpm, if_neg hpm]
  | request chunks => exact testcaseTimer_targets n chunks
  | oneShot chunks => exact testcaseOneShotBigLog_targets n chunks
  | work k =>
    simp only [step, targetsAfter]
    split
    · exact prepareLogReplication_targets _ _
    · rfl
  | user rxbuf => rfl
  | leConfig maxEntriesPerPkt =>
    simp only [step, leConfigWrite, targetsAfter]
    split
    · rfl
    · rfl
  | pmStart =>
    simp only [step, preparePmLoop, targetsAfter]
    split
    · rfl
    · rfl
  | pmStop => exact consensusStop_targets n
  | pmHalt => rfl
  | pmFail => rfl
  | start => exact consensusStart_targets n
  | stop => exact consensusStop_targets n

end Node

end XlaneLkm
