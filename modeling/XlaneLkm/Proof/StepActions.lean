import XlaneLkm.Library.Tally
import XlaneLkm.Proof.Action

/-!
# A step is a sequence of actions

The functions of the source, from the leaves to `Node.step`, taken apart into actions.
-/

namespace XlaneLkm

open MachineInt Relation

namespace Node

variable {s : Node} {e : Event} {n n' : Node}

theorem Acts.of_quiet (h : Quiet n n') : Acts s e n n' := .single (.quiet h)

theorem Acts.of_emit {record : Option ConRecord} (dest : Dest) (h : n.Emits record) :
    Acts s e n (n.send dest record) := .single (.emit n dest record h)

/-! ### Heartbeats and scheduling -/

theorem emitPktsScheduled_acts (n : Node) : Acts s e n n.emitPktsScheduled :=
  Run.moves_foldl (fun _ => True) _ (fun _ _ _ => trivial)
    (fun _ i _ => Acts.of_emit (.target i) .heartbeat) _ n trivial

theorem preHbSetup_acts (n : Node) (i : Nat) : Acts s e n (n.preHbSetup i) := by
  unfold preHbSetup hbRecord
  by_cases hwarm : n.sdev.warmupState = .warmingUp
  · simp only [hwarm, ↓reduceIte]
    exact Acts.of_emit _ (.advertise _ _ _)
  · by_cases hleader : n.sdev.isLeader
    · simp only [hwarm, hleader, ↓reduceIte]
      exact Acts.of_emit _ (.alive hleader)
    · simp only [hwarm, hleader, ↓reduceIte, Bool.false_eq_true]
      exact .refl

theorem preHbSetups_acts (l : List Nat) (n : Node) : Acts s e n (l.foldl preHbSetup n) :=
  Run.moves_foldl (fun _ => True) _ (fun _ _ _ => trivial)
    (fun m i _ => preHbSetup_acts m i) l n trivial

theorem scheduleLogRep_quiet (n : Node) (work : LogRepWork) : Quiet n (n.scheduleLogRep work) := by
  unfold scheduleLogRep
  split
  · constructor <;> rfl
  · split <;> constructor <;> rfl

theorem getNextIdxForTarget_quiet (n : Node) (i : Nat) : Quiet n (n.getNextIdxForTarget i).1 := by
  simp only [getNextIdxForTarget]
  split
  · split <;> constructor <;> rfl
  · constructor <;> rfl

theorem checkPendingLogRepForTarget_acts (n : Node) (i : Nat) :
    Acts s e n (n.checkPendingLogRepForTarget i) := by
  unfold checkPendingLogRepForTarget
  split
  · exact .refl
  split
  · exact .refl
  refine (Acts.of_quiet (getNextIdxForTarget_quiet n i)).trans ?_
  dsimp only
  split
  · exact .refl
  split
  · exact .refl
  · exact Acts.of_quiet (scheduleLogRep_quiet _ _)

theorem cleanRequestTransmissionList_quiet (n : Node) (i : Nat) :
    Quiet n (n.cleanRequestTransmissionList i) := by
  constructor <;> rfl

theorem cleanRequestTransmissionLists_acts (n : Node) :
    Acts s e n n.cleanRequestTransmissionLists :=
  Run.moves_foldl (fun _ => True) _ (fun _ _ _ => trivial)
    (fun m i _ => Acts.of_quiet (cleanRequestTransmissionList_quiet m i)) _ n trivial

theorem queueRetransmission_quiet (n : Node) (lid : Nat) (idx : Int) :
    Quiet n (n.queueRetransmission lid idx) := by
  simp only [queueRetransmission]
  split <;> constructor <;> rfl

/-! ### Log replication messages -/

theorem repairLast_acts (n : Node) : Acts s e n n.repairLast := .single (.repairLast n)

theorem entriesToSend_bound (n : Node) (nextIndex : Int) (hle : nextIndex ≤ n.smLog.lastIdx)
    (hpos : 0 < (n.entriesToSend nextIndex).1) :
    nextIndex + (n.entriesToSend nextIndex).1 - 1 ≤ n.smLog.lastIdx := by
  obtain ⟨_, _, k, hremaining⟩ := i32_spec (n.smLog.lastIdx - nextIndex + 1)
  revert hpos
  simp only [entriesToSend]
  split
  case isTrue h => intro _; dsimp only; omega
  case isFalse h => intro _; dsimp only; omega

theorem setupAppendMulticastMsg_cases (n : Node) :
    (∃ ret, n.setupAppendMulticastMsg = (n.repairLast, ret, none)) ∨
      ∃ num ret pkt, n.setupAppendMulticastMsg = (n.repairLast.advanceMulticast num, ret, some pkt) ∧
        n.repairLast.IsMulticastMsg num pkt := by
  simp only [setupAppendMulticastMsg]
  split
  · exact .inl ⟨_, rfl⟩
  split
  · exact .inl ⟨_, rfl⟩
  split
  · exact .inl ⟨_, rfl⟩
  case isFalse hlast =>
  split
  · exact .inl ⟨_, rfl⟩
  case isFalse hnum =>
  split
  · exact .inl ⟨_, rfl⟩
  · exact .inr ⟨_, _, _, rfl, ⟨rfl, rfl, by omega,
      n.repairLast.entriesToSend_bound n.repairLast.sdev.multicastNextIdx (by omega) (by omega)⟩⟩

theorem doPrepareLogReplicationMulticast_acts (n : Node) (h : n.sdev.multicastEnable = true) :
    Acts s e n n.doPrepareLogReplicationMulticast.1 ∧
      n.doPrepareLogReplicationMulticast.1.sdev.multicastEnable = true := by
  unfold doPrepareLogReplicationMulticast
  by_cases hleader : n.sdev.isLeader = false
  · simp only [hleader, ↓reduceIte]
    exact ⟨.refl, h⟩
  have hleader : n.sdev.isLeader = true := by simpa using hleader
  simp only [hleader, Bool.true_eq_false, ↓reduceIte]
  rcases n.setupAppendMulticastMsg_cases with ⟨ret, hmsg⟩ | ⟨num, ret, pkt, hmsg, hpkt⟩
  · rw [hmsg]
    exact ⟨repairLast_acts n, h⟩
  · rw [hmsg]
    exact ⟨(repairLast_acts n).tail (.multicast n.repairLast num pkt h hleader hpkt), h⟩

theorem multicastLoop_acts (k : Nat) (n : Node) (h : n.sdev.multicastEnable = true) :
    Acts s e n (n.multicastLoop k) := by
  induction k generalizing n with
  | zero => exact .refl
  | succ k ih =>
    have hone := doPrepareLogReplicationMulticast_acts (s := s) (e := e) n h
    unfold multicastLoop
    dsimp only
    split
    · exact hone.1.trans (ih _ hone.2)
    · exact hone.1

theorem checkPendingLogRep_acts (n : Node) : Acts s e n n.checkPendingLogRep := by
  unfold checkPendingLogRep
  split
  · exact .refl
  split
  · exact .refl
  split
  case isTrue hmulticast =>
    unfold checkPendingLogRepForMulticast
    split_ifs
    · exact .refl
    · exact multicastLoop_acts _ n hmulticast
  case isFalse =>
    exact Run.moves_foldl (fun _ => True) _ (fun _ _ _ => trivial)
      (fun m i _ => checkPendingLogRepForTarget_acts m i) _ n trivial

theorem getPrevLogTerm_of_nonneg {log : SmLog} {term conIdx : Int}
    (h : 0 ≤ log.getPrevLogTerm term conIdx) : -1 ≤ conIdx := by
  by_contra hlt
  simp only [SmLog.getPrevLogTerm] at h
  rw [if_neg (by omega), if_pos (by omega)] at h
  omega

/-- `setup_append_msg` moves the next index of its target at most, and what it builds is a proper
message of the node it leaves. -/
theorem appendMsgAt_spec (n : Node) (t : Nat) (i : Int) (retrans : Bool) :
    (∃ nextIndex, (n.appendMsgAt t i retrans).1 = { n with leaderIdx.nextIndex := nextIndex }) ∧
      ∀ pkt, (n.appendMsgAt t i retrans).2.2 = some pkt → n.IsAppendMsg pkt := by
  simp only [appendMsgAt]
  split
  · exact ⟨⟨_, rfl⟩, by simp⟩
  split
  · exact ⟨⟨_, rfl⟩, by simp⟩
  case isFalse hneg =>
  split
  · exact ⟨⟨_, rfl⟩, by simp⟩
  case isFalse hprev =>
  split
  · exact ⟨⟨_, rfl⟩, by simp⟩
  case isFalse hlast =>
  split
  · exact ⟨⟨_, rfl⟩, by simp⟩
  case isFalse hnum =>
  have hn : ∃ nextIndex, (if retrans then n else n.advanceNextIndex t (n.entriesToSend i).1) =
      { n with leaderIdx.nextIndex := nextIndex } := by
    cases retrans
    · exact ⟨_, rfl⟩
    · exact ⟨_, rfl⟩
  split
  · exact ⟨hn, by simp⟩
  case h_2 pktSize _ =>
    refine ⟨hn, ?_⟩
    rintro pkt ⟨⟩
    have hfirst := getPrevLogTerm_of_nonneg (Int.not_lt.mp hprev)
    refine ⟨pktSize, i, (n.entriesToSend i).1, _, ?_, by omega,
      entriesToSend_bound n i (by omega) (by omega), by omega, rfl⟩
    omega

theorem IsAppendMsg.congr {pkt : ConRecord} (h : n.IsAppendMsg pkt) (hlog : n'.smLog = n.smLog)
    (hpriv : n'.priv = n.priv) : n'.IsAppendMsg pkt := by
  obtain ⟨size, first, num, prevLogTerm, hrange⟩ := h.exists_range
  exact ⟨size, first, num, prevLogTerm, by rw [hlog, hpriv]; exact hrange⟩

theorem doPrepareLogReplication_acts (n : Node) (work : LogRepWork) :
    Acts s e n (n.doPrepareLogReplication work).1 := by
  unfold doPrepareLogReplication
  split
  · exact .refl
  case isFalse hleader =>
  split
  · exact .refl
  split
  · exact .refl
  case isFalse hstate =>
  have hstate : n.priv.nstate = .leader := by simpa using hstate
  generalize hresult : n.setupAppendMsg work.targetId work.nextIndex work.retrans = result
  have hspec := appendMsgAt_spec n.repairLast work.targetId
    (if work.retrans then work.nextIndex else n.repairLast.getNextIdx work.targetId) work.retrans
  change n.repairLast.appendMsgAt _ _ _ = _ at hresult
  rw [hresult] at hspec
  obtain ⟨n', ret, record⟩ := result
  obtain ⟨⟨nextIndex, hn'⟩, hmsg⟩ := hspec
  dsimp only at hn' hmsg ⊢
  have hadvance : Acts s e n n' := by
    rw [hn']
    exact (repairLast_acts n).tail (.advance n.repairLast nextIndex hstate)
  cases record with
  | none => exact hadvance
  | some pkt =>
    refine hadvance.tail (.emit n' _ _ (.append pkt ?_ ?_ ?_))
    · rw [hn']
      exact Bool.not_eq_false _ ▸ hleader
    · rw [hn']
      exact hstate
    · exact (hmsg pkt rfl).congr (by rw [hn']) (by rw [hn'])

theorem prepareLogReplication_acts (n : Node) (work : LogRepWork) :
    Acts s e n (n.prepareLogReplication work) := by
  unfold prepareLogReplication
  dsimp only
  split
  · exact doPrepareLogReplication_acts n work
  split
  · exact (doPrepareLogReplication_acts n work).trans (checkPendingLogRepForTarget_acts _ _)
  · exact doPrepareLogReplication_acts n work

/-! ### Roles -/

theorem stopLeader_acts (n : Node) : Acts s e n n.stopLeader :=
  ReflTransGen.head (.dropLeader n) (cleanRequestTransmissionLists_acts _)

theorem preHbSetups_leaderIdx (l : List Nat) (n : Node) (idx : LeaderIndices) :
    l.foldl preHbSetup { n with leaderIdx := idx } =
      { l.foldl preHbSetup n with leaderIdx := idx } := by
  induction l generalizing n with
  | nil => rfl
  | cons i l ih =>
    have hone : preHbSetup { n with leaderIdx := idx } i =
        { n.preHbSetup i with leaderIdx := idx } := by
      unfold preHbSetup hbRecord
      dsimp only
      split_ifs <;> rfl
    rw [List.foldl_cons, hone, ih, List.foldl_cons]

theorem preHbSetup_eq (n : Node) (i : Nat) :
    ∃ sent, n.preHbSetup i = { n with sent := sent } := by
  unfold preHbSetup
  split
  · exact ⟨_, rfl⟩
  · exact ⟨n.sent, rfl⟩

theorem preHbSetups_eq (l : List Nat) (n : Node) :
    ∃ sent, l.foldl preHbSetup n = { n with sent := sent } := by
  induction l generalizing n with
  | nil => exact ⟨n.sent, rfl⟩
  | cons i l ih =>
    obtain ⟨sent, hone⟩ := preHbSetup_eq n i
    obtain ⟨sent', hrest⟩ := ih { n with sent := sent }
    exact ⟨sent', by rw [List.foldl_cons, hone, hrest]⟩

theorem resetIndices_succ (n : Node) (k : Nat) : n.resetIndices (k + 1) = {
    nextIndex := Function.update (n.resetIndices k).nextIndex k (i32 (n.smLog.stableIdx + 1))
    matchIndex := Function.update (n.resetIndices k).matchIndex k (-1)
    numRetransmissions := Function.update (n.resetIndices k).numRetransmissions k 0
    retransHead := Function.update (n.resetIndices k).retransHead k []
    retransEntries := Function.update (n.resetIndices k).retransEntries k 0 } := by
  simp only [resetIndices, LeaderIndices.mk.injEq]
  refine ⟨?_, ?_, ?_, ?_, ?_⟩
  · exact (Tally.update_below (fun _ => i32 (n.smLog.stableIdx + 1)) n.leaderIdx.nextIndex k).symm
  · exact (Tally.update_below (fun _ => -1) n.leaderIdx.matchIndex k).symm
  · exact (Tally.update_below (fun _ => []) n.leaderIdx.retransHead k).symm
  · exact (Tally.update_below (fun _ => 0) n.leaderIdx.retransEntries k).symm
  · exact (Tally.update_below (fun _ => 0) n.leaderIdx.numRetransmissions k).symm

theorem initializeIndex_foldl (n : Node) (k : Nat) :
    (List.range k).foldl initializeIndex n =
      (List.range k).foldl preHbSetup { n with leaderIdx := n.resetIndices k } := by
  induction k with
  | zero => rfl
  | succ k ih =>
    obtain ⟨sent, hsent⟩ := preHbSetups_eq (List.range k) n
    rw [List.range_succ, List.foldl_append, List.foldl_append, ih]
    simp only [preHbSetups_leaderIdx, hsent, List.foldl_cons, List.foldl_nil, resetIndices_succ]
    rfl

theorem initializeIndices_eq (n : Node) :
    n.initializeIndices = (List.range n.numOfTargets).foldl preHbSetup
      { n with leaderIdx := n.resetIndices n.numOfTargets } :=
  initializeIndex_foldl n n.numOfTargets

theorem Act.leads_ne_nil (h : Act s e n n') (hlead : n.hist.leads ≠ []) : n'.hist.leads ≠ [] := by
  cases h with
  | quiet h => rwa [h.hist]
  | noteVote lid pkt =>
    obtain ⟨voters, heq, -⟩ := s.noteVote_eq lid pkt
    rwa [heq]
  | lead => simp [Node.lead, recordLead]
  | leaderCommit =>
    obtain ⟨log, heq⟩ := n.updateCommitIdx_eq
    rwa [heq]
  | _ =>
    simpa only [send, Node.resetVotes, Node.follow, Node.stand, setTerm, Node.countVote, Node.accept,
      replyVote, setupLeMsg, commitLog, recordMatch, advanceMulticast] using hlead

theorem Acts.leads_ne_nil (h : Acts s e n n') (hlead : n.hist.leads ≠ []) : n'.hist.leads ≠ [] :=
  Run.preserved_of_moves (I := fun n => n.hist.leads ≠ []) (fun _ _ => Act.leads_ne_nil) h hlead

theorem lead_leads_ne_nil (n : Node) : n.lead.hist.leads ≠ [] := by
  simp [Node.lead, recordLead]

/-- What `node_transition(LEADER)` does after the votes are reset and the indices initialised. -/
theorem startLeader_acts (n : Node) :
    Acts s e n.lead { n.resetVotes.startLeader with priv.nstate := .leader } := by
  have hindices : Acts s e n.lead n.resetVotes.recordLead.initializeIndices := by
    rw [initializeIndices_eq]
    exact preHbSetups_acts _ n.lead
  have hlead := hindices.leads_ne_nil (lead_leads_ne_nil n)
  have hstart : Acts s e n.lead n.resetVotes.startLeader := by
    unfold startLeader
    generalize n.resetVotes.recordLead.initializeIndices = m at hindices hlead
    have hraise : Acts s e m { m with sdev.isLeader := true, priv.candidateCounter := 0 } :=
      ReflTransGen.head (.raiseLeader m hlead) (Acts.of_quiet (by constructor <;> rfl))
    exact (hindices.trans hraise).trans ((preHbSetups_acts _ _).trans (checkPendingLogRep_acts _))
  exact hstart.tail (.enterLeader _ (hstart.leads_ne_nil (lead_leads_ne_nil n)))

theorem cleanRequestTransmissionLists_eq (n : Node) :
    ∃ idx, n.cleanRequestTransmissionLists = { n with leaderIdx := idx } := by
  suffices h : ∀ (l : List Nat) (n : Node), ∃ idx,
      l.foldl cleanRequestTransmissionList n = { n with leaderIdx := idx } from h _ n
  intro l
  induction l with
  | nil => exact fun n => ⟨n.leaderIdx, rfl⟩
  | cons i l ih =>
    intro n
    obtain ⟨idx, hrest⟩ := ih (n.cleanRequestTransmissionList i)
    exact ⟨idx, hrest⟩

theorem setupLeBroadcastMsg_eq (n : Node) (op : LeOpcode) :
    ∃ sent, n.setupLeBroadcastMsg op = { n with sent := sent } := by
  suffices h : ∀ (f : Nat → ConRecord) (l : List Nat) (m : Node), ∃ sent,
      l.foldl (fun m i => m.send (.target i) (some (f i))) m = { m with sent := sent } from
    h (fun _ => setLeOpcode op n.priv.term n.priv.nodeId n.smLog.stableIdx n.lastLogTerm) _ n
  intro f l
  induction l with
  | nil => exact fun m => ⟨m.sent, rfl⟩
  | cons i l ih =>
    intro m
    obtain ⟨sent, hrest⟩ := ih (m.send (.target i) (some (f i)))
    exact ⟨sent, hrest⟩

/-- Emitting one record to several targets, under a guard that emitting does not touch. -/
theorem broadcast_acts (record : ConRecord) (h : ∀ sent, Emits { n with sent := sent } (some record))
    (l : List Nat) : Acts s e n (l.foldl (fun m i => m.send (.target i) (some record)) n) := by
  refine Run.moves_foldl (fun m => ∃ sent, m = { n with sent := sent }) _ ?_ ?_ l n ⟨n.sent, rfl⟩
  · rintro m i ⟨sent, rfl⟩
    exact ⟨_, rfl⟩
  · rintro m i ⟨sent, rfl⟩
    exact Acts.of_emit _ (h sent)

theorem stopRole_eq (n : Node) :
    ∃ idx isLeader, n.stopRole = { n with leaderIdx := idx, sdev.isLeader := isLeader } := by
  unfold stopRole
  split
  · obtain ⟨idx, hclean⟩ := cleanRequestTransmissionLists_eq { n with sdev.isLeader := false }
    exact ⟨idx, false, hclean⟩
  · exact ⟨n.leaderIdx, n.sdev.isLeader, rfl⟩
  · exact ⟨n.leaderIdx, n.sdev.isLeader, rfl⟩
  · exact ⟨n.leaderIdx, n.sdev.isLeader, rfl⟩

theorem stopRole_of_ne {n : Node} (h : n.priv.nstate ≠ .leader) : n.stopRole = n := by
  unfold stopRole
  split
  case h_1 hleader => exact absurd hleader h
  all_goals rfl

theorem stopRole_acts (n : Node) : Acts s e n n.stopRole := by
  unfold stopRole
  split
  · exact stopLeader_acts n
  · exact .refl
  · exact .refl
  · exact .refl

/-- The second half of `node_transition(FOLLOWER)`. -/
def enterFollower (n : Node) : Node :=
  { n.stopRole.startFollower with priv.nstate := .follower }

theorem enterFollower_acts (n : Node) : Acts s e n n.enterFollower := by
  refine (stopRole_acts n).trans ?_
  have hnoop : Acts s e n.stopRole (n.stopRole.setupLeBroadcastMsg .noop) :=
    broadcast_acts _ (fun _ => .noop _ _ _ _) _
  exact (hnoop.tail (.follow _)).trans (Acts.of_quiet ⟨rfl, rfl, rfl, rfl, rfl, rfl, rfl, rfl, rfl,
    rfl, rfl, rfl, rfl, rfl, rfl⟩)

theorem enterFollower_eq (n : Node) : ∃ idx sent, n.enterFollower = { n.follow with
    priv.candidateCounter := 0, leaderIdx := idx, sent := sent } := by
  obtain ⟨idx, isLeader, hstop⟩ := stopRole_eq n
  obtain ⟨sent, hnoop⟩ := setupLeBroadcastMsg_eq n.stopRole .noop
  refine ⟨idx, sent, ?_⟩
  unfold enterFollower startFollower
  rw [hnoop, hstop]
  rfl

theorem nodeTransition_follower (n : Node) :
    n.nodeTransition .follower = n.resetVotes.enterFollower := rfl

theorem nodeTransition_follower_acts (n : Node) : Acts s e n (n.nodeTransition .follower) :=
  ReflTransGen.head (.resetVotes n) (enterFollower_acts _)

theorem acceptLeader_eq (n : Node) (lid : Nat) (cid t : Int) :
    n.acceptLeader lid cid t = (n.accept lid cid t).enterFollower := rfl

theorem nominate_acts (n : Node) (h : n.priv.nstate = .candidate) :
    Acts s e n { n.setupLeBroadcastMsg .nomi with priv.nstate := .candidate } := by
  have hnomi : Acts s e n (n.setupLeBroadcastMsg .nomi) :=
    broadcast_acts _ (fun sent => Emits.nomi (n := { n with sent := sent }) h) _
  obtain ⟨sent, heq⟩ := setupLeBroadcastMsg_eq n .nomi
  refine hnomi.trans (Acts.of_quiet ?_)
  constructor
  case nstate => rw [heq]; exact h.symm
  all_goals rfl

theorem nodeTransition_candidate_acts (n : Node) (he : e.isHandle = false) :
    Acts s e n (n.nodeTransition .candidate) := by
  refine ReflTransGen.head (.resetVotes n) ((stopRole_acts _).trans ?_)
  simp only [nodeTransition]
  generalize n.resetVotes.stopRole = m
  unfold startCandidate
  split_ifs with hfew
  · exact Acts.of_quiet (by constructor <;> rfl)
  · have hready : Acts s e m { m.resetVotes with priv.candidateCounter := 0 } :=
      ReflTransGen.head (.resetVotes m) (Acts.of_quiet (by constructor <;> rfl))
    exact (hready.tail (.stand _ he rfl rfl)).trans (nominate_acts _ rfl)

/-! ### Packets -/

section Packets

variable {lid : Nat} {pkt : ConRecord}

theorem noteVote_of_ne (h : pkt.opcodeVal ≠ some .vote) : n.noteVote lid pkt = n :=
  if_neg fun hvote => h hvote.1

theorem catchUpTerm_acts (he : e = .handle lid pkt) (hlid : lid < s.numOfTargets)
    (hnomi : s.takesNomination pkt) :
    Acts s e s (s.catchUpTerm pkt.param1.toNat (s.rclusterId lid)) := by
  unfold catchUpTerm
  split
  case isTrue h => exact .single (.catchUp lid pkt he hlid hnomi h.1 h.2)
  case isFalse => exact .refl

theorem catchUpTerm_eq (n : Node) (param1 : Nat) (rcid : Int) :
    ∃ term voters, n.catchUpTerm param1 rcid = { n with priv.term := term, hist.voters := voters } := by
  unfold catchUpTerm
  split
  · exact ⟨_, _, rfl⟩
  · exact ⟨n.priv.term, n.hist.voters, rfl⟩

theorem handleAppendRpc_acts (n : Node) (he : e = .handle lid pkt) (hlid : lid < s.numOfTargets)
    (h : s.takesAppend lid pkt) (hlog : n.smLog = s.smLog)
    (hleader : n.priv.leaderId = s.priv.leaderId)
    (hterm : n.priv.term = s.appendTerm pkt) :
    Acts s e n (n.handleAppendRpc pkt lid (s.rclusterId lid)) := by
  have happend : Acts s e n _ := .single (.append n lid pkt he hlid h hlog hleader hterm)
  simp only [handleAppendRpc]
  split
  · exact happend
  · exact happend.trans (Acts.of_emit _ (.appendReply _ _))
  · split
    · exact happend
    · exact happend.trans (Acts.of_emit _ (.appendReply _ _))
  · exact happend.trans (Acts.of_emit _ (.appendReply _ _))

theorem follower_acts (he : e = .handle lid pkt) (hlid : lid < s.numOfTargets)
    (hrun : s.priv.state = .running) (hstate : s.priv.nstate = .follower) :
    Acts s e s (s.followerProcessPkt lid (s.rclusterId lid) pkt) := by
  unfold followerProcessPkt
  dsimp only
  split
  case h_1 hop =>
    -- NOMI
    have hnomi : s.takesNomination pkt := ⟨hrun, .inl hstate, hop⟩
    have hcatch := catchUpTerm_acts he hlid hnomi
    obtain ⟨term, voters, heq⟩ := catchUpTerm_eq s pkt.param1.toNat (s.rclusterId lid)
    split
    case h_1 m hcheck =>
      have hm : s.catchUpTerm pkt.param1.toNat (s.rclusterId lid) = m := congrArg Prod.fst hcheck
      rw [hm] at hcatch heq
      refine hcatch.tail (.grant m lid pkt he hlid hnomi (congrArg Prod.snd hcheck) ?_ ?_ ?_)
      all_goals rw [heq]
    case h_2 m hcheck =>
      have hm : s.catchUpTerm pkt.param1.toNat (s.rclusterId lid) = m := congrArg Prod.fst hcheck
      exact hm ▸ hcatch
  case h_2 hop =>
    -- ALIVE
    by_cases hnew : asI32 pkt.param1 > s.priv.term
    · simp only [if_pos hnew]
      have hlead : s.takesLeader lid pkt := ⟨hrun, .inl ⟨hstate, hnew, .inl hop⟩⟩
      have haccept := ReflTransGen.head (.accept lid pkt he hlid hlead) (enterFollower_acts _)
      rw [← acceptLeader_eq] at haccept
      split
      · exact haccept.tail (.commit _ lid pkt _ he hlid
          ⟨hrun, hstate, .inl ⟨hop, by omega, rfl⟩⟩)
      · exact haccept
    · simp only [if_neg hnew]
      split
      case isTrue hcommit =>
        exact .single (.commit _ lid pkt _ he hlid ⟨hrun, hstate, .inl ⟨hop, by omega, rfl⟩⟩)
      case isFalse => exact .refl
  case h_3 hop =>
    -- APPEND
    split
    · exact .refl
    case isFalse hsender =>
    have hsender := not_not.mp hsender
    split
    case isTrue hnew =>
      have hlead : s.takesLeader lid pkt := ⟨hrun, .inl ⟨hstate, hnew, .inr ⟨hop, hsender⟩⟩⟩
      have haccept := ReflTransGen.head (.accept lid pkt he hlid hlead) (enterFollower_acts _)
      obtain ⟨idx, sent, heq⟩ := enterFollower_eq (s.accept lid (s.rclusterId lid) (asI32 pkt.param1))
      rw [← acceptLeader_eq] at haccept heq
      refine haccept.trans (handleAppendRpc_acts _ he hlid
        ⟨hrun, .inl hstate, hop, hsender, by omega⟩ ?_ ?_ ?_)
      · rw [heq]; rfl
      · rw [heq]; exact hsender.symm
      · rw [heq]; exact (if_pos hstate).symm
    case isFalse hnew =>
    split
    case isTrue hterm =>
      refine (handleAppendRpc_acts s he hlid ⟨hrun, .inl hstate, hop, hsender, by omega⟩
        rfl rfl (hterm.symm.trans (if_pos hstate).symm)).tail ?_
      exact .commit _ lid pkt _ he hlid ⟨hrun, hstate, .inr ⟨hop, hterm.symm, hsender, rfl⟩⟩
    case isFalse => exact .refl
  case h_4 => exact .refl

/-- A candidate that has all votes has no role of its own to stop. -/
theorem acceptVote_eq {n : Node} (lid : Nat) (hrole : n.priv.nstate = .candidate) :
    n.acceptVote lid =
      if n.priv.votes + 1 = n.numOfTargets then
        { (n.countVote lid).resetVotes.startLeader with
          priv.nstate := .leader
          sdev.curLeaderLid := -1 }
      else { n.countVote lid with priv.candidateCounter := 0 } := by
  have hstop : (n.countVote lid).resetVotes.stopRole = (n.countVote lid).resetVotes :=
    stopRole_of_ne fun hleader => nomatch hrole.symm.trans hleader
  have hlead : (n.countVote lid).nodeTransition .leader =
      { (n.countVote lid).resetVotes.startLeader with priv.nstate := .leader } := by
    rw [nodeTransition, hstop]
  rw [countVote] at hlead
  simp only [acceptVote, hlead, countVote]
  rfl

theorem acceptVote_acts (he : e = .handle lid pkt) (hlid : lid < s.numOfTargets)
    (hvote : s.takesVote pkt) : Acts s e (s.noteVote lid pkt) ((s.noteVote lid pkt).acceptVote lid) := by
  have hcount : Acts s e (s.noteVote lid pkt) ((s.noteVote lid pkt).countVote lid) :=
    .single (.countVote lid pkt he hlid hvote)
  rw [acceptVote_eq lid (by rw [noteVote_priv]; exact hvote.2.1), noteVote_priv]
  split
  case isTrue hall =>
    have hall : s.priv.votes + 1 = s.numOfTargets := by
      simpa only [noteVote_sdev, numOfTargets] using hall
    have hlead := (hcount.tail (.lead lid pkt he hlid hvote hall)).trans (startLeader_acts _)
    refine hlead.trans (Acts.of_quiet ?_)
    generalize ((s.noteVote lid pkt).countVote lid).resetVotes.startLeader = m
    constructor <;> rfl
  case isFalse => exact hcount.trans (Acts.of_quiet (by constructor <;> rfl))

theorem candidate_acts (he : e = .handle lid pkt) (hlid : lid < s.numOfTargets)
    (hrun : s.priv.state = .running) (hstate : s.priv.nstate = .candidate)
    (hvote : pkt.opcodeVal ≠ some .vote) :
    Acts s e s (s.candidateProcessPkt lid (s.rclusterId lid) pkt) := by
  unfold candidateProcessPkt
  dsimp only
  split
  case h_1 hop => exact absurd hop hvote
  case h_2 hop =>
    have hnomi : s.takesNomination pkt := ⟨hrun, .inr hstate, hop⟩
    have hcatch := catchUpTerm_acts he hlid hnomi
    obtain ⟨term, voters, heq⟩ := catchUpTerm_eq s pkt.param1.toNat (s.rclusterId lid)
    split
    case h_1 m hcheck =>
      have hm : s.catchUpTerm pkt.param1.toNat (s.rclusterId lid) = m := congrArg Prod.fst hcheck
      rw [hm] at hcatch heq
      obtain ⟨idx, sent, hfollow⟩ := enterFollower_eq m.resetVotes
      refine (hcatch.trans (nodeTransition_follower_acts m)).tail
        (.grant _ lid pkt he hlid hnomi (congrArg Prod.snd hcheck) ?_ ?_ ?_)
      all_goals
        rw [nodeTransition_follower, hfollow, heq]
        rfl
    case h_2 m hcheck =>
      have hm : s.catchUpTerm pkt.param1.toNat (s.rclusterId lid) = m := congrArg Prod.fst hcheck
      exact hm ▸ hcatch
  case h_3 hop =>
    split
    case isTrue hnew =>
      exact ReflTransGen.head (.accept lid pkt he hlid
        ⟨hrun, .inr (.inl ⟨hstate, hnew, hop⟩)⟩) (enterFollower_acts _)
    case isFalse => exact .refl
  case h_4 hop =>
    split
    · exact .refl
    case isFalse hsender =>
    split
    case isTrue hterm =>
      exact handleAppendRpc_acts s he hlid ⟨hrun, .inr hstate, hop, not_not.mp hsender, hterm⟩ rfl rfl
        (by rw [appendTerm, hstate, if_neg (by decide)])
    case isFalse => exact .refl
  case h_5 => exact .refl

theorem leaderProcessAppendReply_acts (he : e = .handle lid pkt) (hlid : lid < s.numOfTargets)
    (hrun : s.priv.state = .running) (hstate : s.priv.nstate = .leader)
    (hop : pkt.opcodeVal = some .appendReply) :
    Acts s e s (s.leaderProcessAppendReply lid pkt) := by
  unfold leaderProcessAppendReply
  dsimp only
  split
  case isTrue hsuccess =>
    split
    · exact .refl
    case isFalse hlast =>
      have hmatch : s.takesMatch pkt := ⟨hrun, hstate, hop, hsuccess, by omega⟩
      exact ReflTransGen.head (.matchReply lid pkt he hlid hmatch)
        (.single (.leaderCommit _ lid pkt he hlid hmatch rfl))
  case isFalse =>
  split
  · split
    · exact .refl
    split
    · exact .refl
    · exact (Acts.of_quiet (queueRetransmission_quiet s lid _)).trans (checkPendingLogRep_acts _)
  split
  · split
    · exact .refl
    · exact .single (.failReply lid pkt _ he hstate)
  · exact .refl

theorem leader_acts (he : e = .handle lid pkt) (hlid : lid < s.numOfTargets)
    (hrun : s.priv.state = .running) (hstate : s.priv.nstate = .leader) :
    Acts s e s (s.leaderProcessPkt lid (s.rclusterId lid) pkt) := by
  unfold leaderProcessPkt
  split
  case h_1 hop => exact leaderProcessAppendReply_acts he hlid hrun hstate hop
  case h_2 hop =>
    split
    case isTrue hnew =>
      exact ReflTransGen.head (.accept lid pkt he hlid
        ⟨hrun, .inr (.inr ⟨hstate, hnew, hop⟩)⟩) (enterFollower_acts _)
    case isFalse => exact .refl
  case h_3 => exact .refl

theorem handle_acts (he : e = .handle lid pkt) (hlid : lid < s.numOfTargets) :
    Acts s e s ((s.noteVote lid pkt).consensusPostPayload lid (s.rclusterId lid) pkt) := by
  unfold consensusPostPayload
  have hnote : Acts s e s (s.noteVote lid pkt) := .single (.noteVote lid pkt he hlid)
  rw [noteVote_priv]
  split
  · exact hnote
  case isFalse hrun =>
  have hrun := not_not.mp hrun
  by_cases hvote : pkt.opcodeVal = some .vote
  · split
    case h_1 => simpa only [followerProcessPkt, hvote] using hnote
    case h_2 hstate =>
      simpa only [candidateProcessPkt, hvote] using
        hnote.trans (acceptVote_acts he hlid ⟨hrun, hstate, hvote⟩)
    case h_3 => simpa only [leaderProcessPkt, hvote] using hnote
    case h_4 => exact hnote
  · rw [noteVote_of_ne hvote]
    split
    case h_1 hstate => exact follower_acts he hlid hrun hstate
    case h_2 hstate => exact candidate_acts he hlid hrun hstate hvote
    case h_3 hstate => exact leader_acts he hlid hrun hstate
    case h_4 => exact .refl

end Packets

/-! ### Local events -/

theorem updateLeader_acts (n : Node) (he : e.isHandle = false) : Acts s e n n.updateLeader := by
  unfold updateLeader
  split
  · exact .refl
  split
  · split
    · split
      · exact Acts.of_quiet (by constructor <;> rfl)
      · exact nodeTransition_candidate_acts n he
    · exact .refl
  · exact .refl

theorem targets_quiet (n : Node) (f : List TargetInfo → List TargetInfo)
    (hf : (f n.sdev.targets).map TargetInfo.clusterId = n.sdev.targets.map TargetInfo.clusterId) :
    Quiet n { n with sdev.targets := f n.sdev.targets } := by
  constructor
  case config => simp only [AsgardDevice.config, hf]
  all_goals rfl

theorem updateAlivenessStates_quiet (n : Node) : Quiet n n.updateAlivenessStates := by
  refine targets_quiet n (·.map TargetInfo.updateAliveness) ?_
  rw [List.map_map]
  refine List.map_congr_left fun t _ => ?_
  simp only [Function.comp_apply, TargetInfo.updateAliveness]
  split_ifs <;> rfl

theorem setAllTargetsDead_quiet (n : Node) : Quiet n n.setAllTargetsDead := by
  refine targets_quiet n (·.map fun t => { t with alive := false }) ?_
  rw [List.map_map]
  rfl

theorem heartbeat_acts (n : Node) : Acts s e n n.heartbeat := by
  have hinterval : Quiet n { n with sdev.hbInterval := (n.sdev.hbInterval + 1) % 4294967296 } := by
    constructor <;> rfl
  refine (Acts.of_quiet hinterval).trans ((emitPktsScheduled_acts _).trans ?_)
  exact (preHbSetups_acts _ _).trans (Acts.of_quiet (updateAlivenessStates_quiet _))

theorem tick_acts (n : Node) (he : e.isHandle = false) : Acts s e n n.tick := by
  unfold tick
  split
  · exact .refl
  · refine (heartbeat_acts n).trans ?_
    dsimp only
    split
    · exact (updateLeader_acts _ he).trans (checkPendingLogRep_acts _)
    · exact checkPendingLogRep_acts _

theorem consensusStart_acts (n : Node) : Acts s e n n.consensusStart := by
  unfold consensusStart
  split
  · exact .refl
  · exact (Acts.of_quiet (by constructor <;> rfl)).trans (nodeTransition_follower_acts _)

theorem consensusStop_acts (n : Node) : Acts s e n n.consensusStop := by
  unfold consensusStop
  split
  · exact .refl
  · refine (stopRole_acts n).trans ?_
    have hready : Quiet n.stopRole { n.stopRole with priv.state := .ready } := by
      constructor <;> rfl
    exact (Acts.of_quiet hready).trans (Acts.of_quiet (setAllTargetsDead_quiet _))

theorem finishWarmup_acts (n : Node) (he : e.isHandle = false) : Acts s e n n.finishWarmup := by
  have hwarm : Quiet n.consensusStart { n.consensusStart with sdev.warmupState := .warmedUp } := by
    constructor <;> rfl
  exact (consensusStart_acts n).trans ((Acts.of_quiet hwarm).trans (updateLeader_acts _ he))

theorem checkWarmupState_acts (n : Node) (he : e.isHandle = false) :
    Acts s e n n.checkWarmupState.1 := by
  unfold checkWarmupState
  split_ifs
  · exact .refl
  · exact .refl
  · exact finishWarmup_acts n he
  · exact .refl

theorem doPostPayload_acts (n : Node) (lid ts : Nat) (he : e.isHandle = false) :
    Acts s e n (n.doPostPayload lid ts) := by
  unfold doPostPayload
  split
  · exact .refl
  · refine (Acts.of_quiet (targets_quiet n
      (·.modify lid fun t => { t with chbTs := ts, alive := true }) ?_)).trans
      (checkWarmupState_acts _ he)
    refine List.ext_getElem? fun i => ?_
    rw [List.getElem?_map, List.getElem?_modify, List.getElem?_map]
    cases n.sdev.targets[i]? with
    | none => rfl
    | some t => split <;> rfl

/-- The index is the next one, or out of reach of the guard of `append_command`. After a one shot, it
is the position of the chunk. -/
theorem requestLoop_acts (chunks : List DataChunk) (n : Node) (i : Int)
    (hrole : s.priv.nstate = .leader) (hterm : n.priv.term = s.priv.term)
    (hle : chunks ≠ [] → i + chunks.length ≤ 2147483648)
    (hi : e.isOneShot = false → i32 s.smLog.lastIdx = s.smLog.lastIdx → -1 ≤ n.smLog.commitIdx →
      i = n.smLog.lastIdx + 1 ∨ i < -1)
    (hshot : ∀ all, e = .oneShot all → 0 ≤ i ∧ (i = 0 ∨ n.smLog.commitIdx ≤ 0) ∧
      chunks <+: all.drop i.toNat)
    (hasks : ∀ k < chunks.length, s.asksFor e (i + k))
    (hlast : n.smLog.lastIdx ≤ max s.smLog.lastIdx (i - 1)) :
    Acts s e n (n.requestLoop i chunks).1 := by
  induction chunks generalizing n i with
  | nil => exact .refl
  | cons chunk chunks ih =>
    have hle := hle (List.cons_ne_nil _ _)
    rw [List.length_cons] at hle
    unfold requestLoop SmLog.appendCommand
    by_cases hguard : n.smLog.commitIdx > i
    · simp only [if_pos hguard]
      exact .refl
    · simp only [if_neg hguard]
      have hnext : e.isOneShot = false → i32 s.smLog.lastIdx = s.smLog.lastIdx →
          -1 ≤ n.smLog.commitIdx → i = n.smLog.lastIdx + 1 := by
        intro htimer hrange hcommit
        rcases hi htimer hrange hcommit with hnext | hlow
        · exact hnext
        · omega
      have hchunk : ∀ all, e = .oneShot all →
          n.smLog.commitIdx ≤ 0 ∧ 0 ≤ i ∧ all[i.toNat]? = some chunk := by
        intro all he
        obtain ⟨hpos, hcommit, rest, hrest⟩ := hshot all he
        have hget := congrArg (fun l => l[0]?) hrest
        simp only [List.cons_append, List.getElem?_cons_zero, List.getElem?_drop] at hget
        exact ⟨by omega, hpos, hget.symm⟩
      have hfirst : s.asksFor e i := by
        have := hasks 0 (Nat.zero_lt_succ _)
        rwa [Int.natCast_zero, Int.add_zero] at this
      refine ReflTransGen.head
        (.request n chunk i hrole hterm (by omega) (by omega) hnext hchunk hfirst hlast)
        (ih _ _ hterm (fun _ => by omega) ?_ ?_ (fun k hk => ?_) ?_)
      · intro htimer hrange hcommit
        have hlast := hnext htimer hrange hcommit
        left
        simp only [SmLog.store]
        split <;> omega
      · intro all he
        obtain ⟨hpos, -, rest, hrest⟩ := hshot all he
        refine ⟨by omega, .inr (hchunk all he).1, rest, ?_⟩
        have hdrop := congrArg (List.drop 1) hrest
        rw [List.drop_drop] at hdrop
        rwa [show (i + 1).toNat = i.toNat + 1 by omega]
      · have := hasks (k + 1) (Nat.succ_lt_succ hk)
        rwa [Int.natCast_succ, Int.add_comm (k : Int), ← Int.add_assoc] at this
      · simp only [SmLog.store]
        split <;> omega

theorem testcaseTimer_acts (chunks : List DataChunk) :
    Acts n (.request chunks) n (n.testcaseTimer chunks) := by
  unfold testcaseTimer
  split
  · exact .refl
  case isFalse hstate =>
    have hend := i32_le (i32 (n.smLog.lastIdx + 1) + chunks.length)
    have hloop := requestLoop_acts (s := n) (e := .request chunks)
      (chunks.take (i32 (i32 (n.smLog.lastIdx + 1) + chunks.length) -
        i32 (n.smLog.lastIdx + 1)).toNat) n (i32 (n.smLog.lastIdx + 1)) (not_not.mp hstate) rfl
      (by
        intro hne
        have hcount := List.length_pos_iff.mpr hne
        rw [List.length_take] at hcount ⊢
        omega)
      (by
        intro _ hrange _
        obtain ⟨hlow, hhigh, k, hk⟩ := i32_spec (n.smLog.lastIdx + 1)
        have := i32_eq_self_iff.mp hrange
        omega)
      (fun all he => by cases he)
      (fun k hk => Int.add_lt_add_left (Int.ofNat_lt.mpr hk) _)
      (Int.le_max_left _ _)
    dsimp only
    split
    case h_1 m heq =>
      rw [heq] at hloop
      exact hloop.trans (checkPendingLogRep_acts m)
    case h_2 m heq =>
      rw [heq] at hloop
      exact hloop

theorem testcaseOneShotBigLog_acts (chunks : List DataChunk) :
    Acts n (.oneShot chunks) n (n.testcaseOneShotBigLog chunks) := by
  unfold testcaseOneShotBigLog
  split
  · exact .refl
  case isFalse hstate =>
    refine requestLoop_acts _ n 0 (not_not.mp hstate) rfl (fun _ => ?_) (fun htimer => ?_) ?_
      (fun k hk => ?_) (Int.le_max_left _ _)
    · rw [List.length_take]
      have : maxConsensusLog.toNat = 400000 := rfl
      omega
    · cases htimer
    · rintro all ⟨⟩
      exact ⟨Int.le_refl 0, .inl rfl, List.take_prefix _ _⟩
    · rw [Int.zero_add]
      exact Int.ofNat_lt.mpr hk

theorem Act.config (h : Act s e n n') : n'.sdev.config = n.sdev.config := by
  cases h with
  | quiet h => exact h.config
  | noteVote lid pkt => rw [noteVote_sdev]
  | leaderCommit =>
    obtain ⟨log, heq⟩ := n.updateCommitIdx_eq
    rw [heq]
  | _ => rfl

/-- **Every step of a node is a sequence of actions.** -/
theorem step_acts (n : Node) (e : Event) : Acts n e n (n.step e) := by
  cases e with
  | rx lid ts =>
    simp only [step]
    split
    · exact doPostPayload_acts n lid ts rfl
    · exact .refl
  | handle lid pkt =>
    simp only [step]
    split
    case isTrue hlid => exact handle_acts rfl hlid
    case isFalse => exact .refl
  | tick => exact tick_acts n rfl
  | request chunks => exact testcaseTimer_acts chunks
  | oneShot chunks => exact testcaseOneShotBigLog_acts chunks
  | work k =>
    simp only [step]
    split
    · exact (Acts.of_quiet (by constructor <;> rfl)).trans (prepareLogReplication_acts _ _)
    · exact .refl
  | user rxbuf => exact .single (.user n rxbuf)
  | leConfig maxEntriesPerPkt =>
    simp only [step, leConfigWrite]
    split
    · exact Acts.of_quiet (by constructor <;> rfl)
    · exact .refl
  | pmStart =>
    simp only [step, preparePmLoop]
    split
    · exact .refl
    · exact Acts.of_quiet (by constructor <;> rfl)
  | pmStop => exact (consensusStop_acts n).trans (Acts.of_quiet (by constructor <;> rfl))
  | pmHalt => exact Acts.of_quiet (by constructor <;> rfl)
  | pmFail => exact Acts.of_quiet (by constructor <;> rfl)
  | start => exact consensusStart_acts n
  | stop => exact consensusStop_acts n

theorem step_preserves {I : Node → Prop} (n : Node) (e : Event)
    (hact : ∀ m m', Act n e m m' → I m → I m') (hn : I n) : I (n.step e) :=
  Run.preserved_of_moves hact (step_acts n e) hn

theorem step_config (n : Node) (e : Event) : (n.step e).sdev.config = n.sdev.config :=
  n.step_preserves (I := fun m => m.sdev.config = n.sdev.config) e
    (fun _ _ hact hm => hact.config.trans hm) rfl

theorem numOfTargets_of_config (h : n'.sdev.config = n.sdev.config) :
    n'.numOfTargets = n.numOfTargets := by
  have hlength := congrArg (fun c => c.2.1.length) h
  simpa only [AsgardDevice.config, List.length_map, numOfTargets,
    AsgardDevice.numOfTargets] using hlength

theorem rclusterId_eq (n : Node) (lid : Nat) :
    n.rclusterId lid = ((n.sdev.targets.map TargetInfo.clusterId)[lid]?).getD (-1) := by
  unfold rclusterId
  rw [List.getElem?_map]
  cases n.sdev.targets[lid]? <;> rfl

theorem rclusterId_of_config (h : n'.sdev.config = n.sdev.config) (lid : Nat) :
    n'.rclusterId lid = n.rclusterId lid := by
  rw [rclusterId_eq, rclusterId_eq, show n'.sdev.targets.map TargetInfo.clusterId =
    n.sdev.targets.map TargetInfo.clusterId from congrArg (fun c => c.2.1) h]

theorem step_numOfTargets (n : Node) (e : Event) : (n.step e).numOfTargets = n.numOfTargets :=
  numOfTargets_of_config (n.step_config e)

theorem consensusInit_numOfTargets (c : Config) (u : Uninit) :
    (consensusInit c u).numOfTargets = c.targets.length :=
  List.length_map _

theorem run_numOfTargets (c : Config) (u : Uninit) (events : List Event) :
    (run (consensusInit c u) events).numOfTargets = c.targets.length :=
  Run.invariant_run step (I := fun n => n.numOfTargets = c.targets.length)
    (fun n e hn => (n.step_numOfTargets e).trans hn) (consensusInit_numOfTargets c u) events

theorem run_snoc (start : Node) (events : List Event) (e : Event) :
    run start (events ++ [e]) = (run start events).step e :=
  Run.run_append step start events [e]

end Node

end XlaneLkm
