import XlaneLkm.Proof.Election
import XlaneLkm.Proof.LeaderChange

/-!
# Roles

The part of a node that elections change: role, protocol state and term, the terms it has led in and
the leaders it has accepted. `is_leader` repeats what `nstate` and `state` say together, and the code
writes the three at different moments. Between events they agree, a step changes the roles in one of
few ways, and every ALIVE or APPEND it sends carries the term of a leader.
-/

namespace XlaneLkm

open MachineInt

@[ext]
structure Roles where
  nstate : NodeState
  state : LeState
  term : Int
  isLeader : Bool
  leads : List Int
  accepted : List (Int × Int)

/-- `is_leader` says what role and protocol state say. -/
def Roles.Consistent (r : Roles) : Prop :=
  r.isLeader = true ↔ r.nstate = .leader ∧ r.state = .running

/-- The receivers of these messages trust their term. -/
def ConRecord.fromLeader (pkt : ConRecord) : Prop :=
  pkt.opcodeVal = some .alive ∨ pkt.opcodeVal = some .append

namespace Node

def roles (n : Node) : Roles where
  nstate := n.priv.nstate
  state := n.priv.state
  term := n.priv.term
  isLeader := n.sdev.isLeader
  leads := n.hist.leads.map Prod.fst
  accepted := n.hist.accepted

/-- The messages of a leader among those sent on the way from `n` to `n'` carry the term `T`, and there
 are none unless `leading`. -/
def SendsIn (leading : Bool) (T : Int) (n n' : Node) : Prop :=
  ∃ fresh, n'.sent = fresh ++ n.sent ∧ ∀ dest pkt, (dest, some pkt) ∈ fresh → pkt.fromLeader →
    leading = true ∧ pkt.param1 = toU32 T

variable {n m n' : Node} {b : Bool} {T : Int}

theorem SendsIn.of_eq (h : n'.sent = n.sent) : SendsIn b T n n' :=
  ⟨[], h, fun _ _ hmem => absurd hmem List.not_mem_nil⟩

theorem SendsIn.trans (hfirst : SendsIn b T n m) (hsecond : SendsIn b T m n') :
    SendsIn b T n n' := by
  obtain ⟨first, hsent, hterm⟩ := hfirst
  obtain ⟨second, hsent', hterm'⟩ := hsecond
  refine ⟨second ++ first, by rw [hsent', hsent, List.append_assoc], fun dest pkt hmem => ?_⟩
  rcases List.mem_append.mp hmem with hnew | hold
  · exact hterm' dest pkt hnew
  · exact hterm dest pkt hold

theorem SendsIn.of_silent {T' : Int} (h : SendsIn false T' n n') : SendsIn b T n n' := by
  obtain ⟨fresh, hsent, hnone⟩ := h
  exact ⟨fresh, hsent, fun dest pkt hmem hleader =>
    absurd (hnone dest pkt hmem hleader).1 Bool.false_ne_true⟩

theorem sendsIn_send (n : Node) (dest : Dest) {record : Option ConRecord}
    (h : ∀ pkt, record = some pkt → pkt.fromLeader → b = true ∧ pkt.param1 = toU32 T) :
    SendsIn b T n (n.send dest record) := by
  refine ⟨[(dest, record)], rfl, fun dest' pkt hmem => ?_⟩
  have heq := List.mem_singleton.mp hmem
  exact h pkt (congrArg Prod.snd heq).symm

theorem sendsIn_foldl {β : Type*} {f : Node → β → Node} (h : ∀ m x, SendsIn b T m (f m x))
    (l : List β) (n : Node) : SendsIn b T n (l.foldl f n) := by
  induction l generalizing n with
  | nil => exact .of_eq rfl
  | cons x l ih => exact (h n x).trans (ih (f n x))

/-- The roles stay as they are. -/
structure Calm (n n' : Node) : Prop where
  roles : n'.roles = n.roles
  sends : SendsIn n.sdev.isLeader n.priv.term n n'

theorem Calm.refl (n : Node) : Calm n n := ⟨rfl, .of_eq rfl⟩

theorem Calm.isLeader (h : Calm n n') : n'.sdev.isLeader = n.sdev.isLeader :=
  congrArg Roles.isLeader h.roles

theorem Calm.term (h : Calm n n') : n'.priv.term = n.priv.term := congrArg Roles.term h.roles

theorem Calm.nstate (h : Calm n n') : n'.priv.nstate = n.priv.nstate := congrArg Roles.nstate h.roles

theorem Calm.trans (hfirst : Calm n m) (hsecond : Calm m n') : Calm n n' := by
  refine ⟨hsecond.roles.trans hfirst.roles, hfirst.sends.trans ?_⟩
  rw [← hfirst.isLeader, ← hfirst.term]
  exact hsecond.sends

theorem Calm.of_eq (hroles : n'.roles = n.roles) (hsent : n'.sent = n.sent) : Calm n n' :=
  ⟨hroles, .of_eq hsent⟩

theorem calm_send (n : Node) (dest : Dest) {record : Option ConRecord}
    (h : ∀ pkt, record = some pkt → pkt.fromLeader →
      n.sdev.isLeader = true ∧ pkt.param1 = toU32 n.priv.term) : Calm n (n.send dest record) :=
  ⟨rfl, sendsIn_send n dest h⟩

theorem calm_foldl {β : Type*} {f : Node → β → Node} (h : ∀ m b, Calm m (f m b)) (l : List β)
    (n : Node) : Calm n (l.foldl f n) := by
  induction l generalizing n with
  | nil => exact Calm.refl n
  | cons b l ih => exact (h n b).trans (ih (f n b))

/-! ### What leaves the roles alone -/

theorem not_fromLeader {pkt : ConRecord} {op : LeOpcode} (hop : pkt.opcodeVal = some op)
    (halive : op ≠ .alive) (happend : op ≠ .append) : ¬pkt.fromLeader := by
  rintro (hleader | hleader)
  · exact halive (Option.some.inj (hop.symm.trans hleader))
  · exact happend (Option.some.inj (hop.symm.trans hleader))

theorem setupLeMsg_sends (n : Node) {op : LeOpcode} (halive : op ≠ .alive) (happend : op ≠ .append)
    (targetId : Nat) (p1 p2 p3 p4 : Int) :
    SendsIn b T n (n.setupLeMsg op targetId p1 p2 p3 p4) := by
  refine sendsIn_send n _ fun pkt heq hleader => ?_
  cases heq
  exact absurd hleader (not_fromLeader (setLeOpcode_opcodeVal ..) halive happend)

theorem setupLeBroadcastMsg_sends (n : Node) {op : LeOpcode} (halive : op ≠ .alive)
    (happend : op ≠ .append) : SendsIn b T n (n.setupLeBroadcastMsg op) :=
  sendsIn_foldl (fun m i => setupLeMsg_sends m halive happend i _ _ _ _) _ n

theorem emitPktsScheduled_calm (n : Node) : Calm n n.emitPktsScheduled := by
  refine calm_foldl (fun m i => calm_send m (.target i) fun pkt heq => ?_) _ n
  cases heq

theorem preHbSetup_calm (n : Node) (i : Nat) : Calm n (n.preHbSetup i) := by
  unfold preHbSetup hbRecord
  by_cases hwarm : n.sdev.warmupState = .warmingUp
  · simp only [hwarm, ↓reduceIte]
    refine calm_send n _ fun pkt heq hleader => ?_
    cases heq
    exact absurd hleader (not_fromLeader (setLeOpcodeAd_opcodeVal ..) (by decide) (by decide))
  · by_cases hleader : n.sdev.isLeader
    · simp only [hwarm, hleader, ↓reduceIte]
      refine calm_send n _ fun pkt heq _ => ?_
      cases heq
      exact ⟨hleader, rfl⟩
    · simp only [hwarm, hleader, ↓reduceIte, Bool.false_eq_true]
      exact Calm.refl n

theorem preHbSetups_calm (l : List Nat) (n : Node) : Calm n (l.foldl preHbSetup n) :=
  calm_foldl preHbSetup_calm l n

theorem updateAlivenessStates_calm (n : Node) : Calm n n.updateAlivenessStates := .of_eq rfl rfl

theorem heartbeat_calm (n : Node) : Calm n n.heartbeat := by
  have hinterval : Calm n { n with sdev.hbInterval := (n.sdev.hbInterval + 1) % 4294967296 } :=
    .of_eq rfl rfl
  exact ((hinterval.trans (emitPktsScheduled_calm _)).trans (preHbSetups_calm _ _)).trans
    (updateAlivenessStates_calm _)

theorem getNextIdxForTarget_calm (n : Node) (i : Nat) : Calm n (n.getNextIdxForTarget i).1 := by
  simp only [getNextIdxForTarget]
  split
  · split
    · exact Calm.refl n
    · exact .of_eq rfl rfl
  · exact Calm.refl n

theorem scheduleLogRep_calm (n : Node) (work : LogRepWork) : Calm n (n.scheduleLogRep work) := by
  unfold scheduleLogRep
  split
  · exact Calm.refl n
  split
  · exact Calm.refl n
  · exact .of_eq rfl rfl

theorem checkPendingLogRepForTarget_calm (n : Node) (i : Nat) :
    Calm n (n.checkPendingLogRepForTarget i) := by
  unfold checkPendingLogRepForTarget
  split
  · exact Calm.refl n
  split
  · exact Calm.refl n
  refine (getNextIdxForTarget_calm n i).trans ?_
  dsimp only
  split
  · exact Calm.refl _
  split
  · exact Calm.refl _
  · exact scheduleLogRep_calm _ _

theorem doPrepareLogReplicationMulticast_calm (n : Node) :
    Calm n n.doPrepareLogReplicationMulticast.1 := by
  unfold doPrepareLogReplicationMulticast
  by_cases hleader : n.sdev.isLeader = false
  · simp only [hleader, ↓reduceIte]
    exact Calm.refl n
  have hleader : n.sdev.isLeader = true := by simpa using hleader
  simp only [hleader, Bool.true_eq_false, ↓reduceIte]
  rcases n.setupAppendMulticastMsg_cases with ⟨ret, hmsg⟩ | ⟨num, ret, pkt, hmsg, hpkt⟩
  · rw [hmsg]
    exact .of_eq rfl rfl
  · rw [hmsg]
    refine ⟨rfl, sendsIn_send (n.repairLast.advanceMulticast num) _ fun pkt' heq _ => ?_⟩
    cases heq
    exact ⟨hleader, hpkt.term⟩

theorem multicastLoop_calm (k : Nat) (n : Node) : Calm n (n.multicastLoop k) := by
  induction k generalizing n with
  | zero => exact Calm.refl n
  | succ k ih =>
    unfold multicastLoop
    dsimp only
    split
    · exact (doPrepareLogReplicationMulticast_calm n).trans (ih _)
    · exact doPrepareLogReplicationMulticast_calm n

theorem checkPendingLogRep_calm (n : Node) : Calm n n.checkPendingLogRep := by
  unfold checkPendingLogRep
  split
  · exact Calm.refl n
  split
  · exact Calm.refl n
  split
  · unfold checkPendingLogRepForMulticast
    split_ifs
    · exact Calm.refl n
    · exact multicastLoop_calm _ n
  · exact calm_foldl checkPendingLogRepForTarget_calm _ n

theorem doPrepareLogReplication_calm (n : Node) (work : LogRepWork) :
    Calm n (n.doPrepareLogReplication work).1 := by
  unfold doPrepareLogReplication
  split
  · exact Calm.refl n
  case isFalse hleader =>
  split
  · exact Calm.refl n
  split
  · exact Calm.refl n
  generalize hresult : n.setupAppendMsg work.targetId work.nextIndex work.retrans = result
  have hspec := appendMsgAt_spec n.repairLast work.targetId
    (if work.retrans then work.nextIndex else n.repairLast.getNextIdx work.targetId) work.retrans
  change n.repairLast.appendMsgAt _ _ _ = _ at hresult
  rw [hresult] at hspec
  obtain ⟨n', ret, record⟩ := result
  obtain ⟨⟨nextIndex, hn'⟩, hmsg⟩ := hspec
  dsimp only at hn' hmsg ⊢
  have hadvance : Calm n n' := by
    rw [hn']
    exact .of_eq rfl rfl
  cases record with
  | none => exact hadvance
  | some pkt =>
    refine hadvance.trans (calm_send n' _ fun pkt' heq _ => ?_)
    cases heq
    obtain ⟨_, _, _, _, -, -, -, -, hpkt⟩ := (hmsg pkt rfl).exists_range
    rw [hadvance.isLeader, hadvance.term, hpkt]
    exact ⟨Bool.not_eq_false _ ▸ hleader, rfl⟩

theorem prepareLogReplication_calm (n : Node) (work : LogRepWork) :
    Calm n (n.prepareLogReplication work) := by
  unfold prepareLogReplication
  dsimp only
  split
  · exact doPrepareLogReplication_calm n work
  split
  · exact (doPrepareLogReplication_calm n work).trans (checkPendingLogRepForTarget_calm _ _)
  · exact doPrepareLogReplication_calm n work

theorem requestLoop_calm (chunks : List DataChunk) (n : Node) (i : Int) :
    Calm n (n.requestLoop i chunks).1 := by
  induction chunks generalizing n i with
  | nil => exact Calm.refl n
  | cons chunk chunks ih =>
    unfold requestLoop
    split
    · exact Calm.refl n
    case h_2 log _ =>
      have hlog : Calm n { n with smLog := log } := .of_eq rfl rfl
      exact hlog.trans (ih _ _)

theorem testcaseTimer_calm (n : Node) (chunks : List DataChunk) : Calm n (n.testcaseTimer chunks) := by
  unfold testcaseTimer
  split
  · exact Calm.refl n
  have hloop := requestLoop_calm (chunks.take (i32 (i32 (n.smLog.lastIdx + 1) + chunks.length) -
    i32 (n.smLog.lastIdx + 1)).toNat) n (i32 (n.smLog.lastIdx + 1))
  dsimp only
  split
  case h_1 m heq =>
    rw [heq] at hloop
    exact hloop.trans (checkPendingLogRep_calm m)
  case h_2 m heq =>
    rw [heq] at hloop
    exact hloop

theorem testcaseOneShotBigLog_calm (n : Node) (chunks : List DataChunk) :
    Calm n (n.testcaseOneShotBigLog chunks) := by
  unfold testcaseOneShotBigLog
  split
  · exact Calm.refl n
  · exact requestLoop_calm _ n 0

theorem handleAppendRpc_calm (n : Node) (pkt : ConRecord) (lid : Nat) (rclusterId : Int) :
    Calm n (n.handleAppendRpc pkt lid rclusterId) := by
  have hlog : Calm n { n with smLog := (n.smLog.handleAppend n.priv pkt rclusterId).1 } :=
    .of_eq rfl rfl
  have hreply : ∀ p1 success idx, Calm n
      (replyAppend { n with smLog := (n.smLog.handleAppend n.priv pkt rclusterId).1 } lid p1 success
        idx) :=
    fun _ _ _ => hlog.trans ⟨rfl, setupLeMsg_sends _ (by decide) (by decide) _ _ _ _ _⟩
  simp only [handleAppendRpc]
  split
  · exact hlog
  · exact hreply _ _ _
  · split
    · exact hlog
    · exact hreply _ _ _
  · exact hreply _ _ _

theorem commitLog_calm (n : Node) (idx : Int) : Calm n (n.commitLog idx) := .of_eq rfl rfl

theorem replyVote_calm (n : Node) (lid : Nat) (rclusterId p1 p2 : Int) :
    Calm n (n.replyVote lid rclusterId p1 p2) :=
  ⟨rfl, setupLeMsg_sends n (by decide) (by decide) lid p1 p2 0 0⟩

theorem noteVote_calm (n : Node) (lid : Nat) (pkt : ConRecord) : Calm n (n.noteVote lid pkt) := by
  obtain ⟨voters, heq, -⟩ := n.noteVote_eq lid pkt
  rw [heq]
  exact .of_eq rfl rfl

theorem leaderProcessAppendReply_calm (n : Node) (lid : Nat) (pkt : ConRecord) :
    Calm n (n.leaderProcessAppendReply lid pkt) := by
  unfold leaderProcessAppendReply
  dsimp only
  split
  · split
    · exact Calm.refl n
    · obtain ⟨log, heq⟩ := updateCommitIdx_eq { n with
        leaderIdx.matchIndex := Function.update n.leaderIdx.matchIndex lid (asI32 pkt.param4) }
      rw [heq]
      exact .of_eq rfl rfl
  split
  · split
    · exact Calm.refl n
    split
    · exact Calm.refl n
    · refine Calm.trans ?_ (checkPendingLogRep_calm _)
      simp only [queueRetransmission]
      split
      · exact Calm.refl n
      · exact .of_eq rfl rfl
  split
  · split
    · exact Calm.refl n
    · exact .of_eq rfl rfl
  · exact Calm.refl n

/-! ### What changes the roles -/

theorem sent_stopRole (n : Node) : n.stopRole.sent = n.sent := by
  obtain ⟨idx, isLeader, heq⟩ := stopRole_eq n
  rw [heq]

theorem enterFollower_roles (n : Node) :
    n.enterFollower.roles = { n.roles with nstate := .follower, isLeader := false } := by
  obtain ⟨idx, sent, heq⟩ := enterFollower_eq n
  rw [heq]
  rfl

theorem enterFollower_sends (n : Node) : SendsIn b T n n.enterFollower := by
  have hnoop : SendsIn b T n.stopRole (n.stopRole.setupLeBroadcastMsg .noop) :=
    setupLeBroadcastMsg_sends _ (by decide) (by decide)
  exact (SendsIn.of_eq (sent_stopRole n)).trans (hnoop.trans (.of_eq rfl))

theorem nominate_roles (n : Node) :
    roles { n.setupLeBroadcastMsg .nomi with priv.nstate := .candidate } =
      { n.roles with nstate := .candidate } := by
  obtain ⟨sent, heq⟩ := setupLeBroadcastMsg_eq n .nomi
  rw [heq]
  rfl

theorem nominate_sends (n : Node) : SendsIn b T n
    { n.setupLeBroadcastMsg .nomi with priv.nstate := .candidate } :=
  (setupLeBroadcastMsg_sends n (by decide) (by decide)).trans (.of_eq rfl)

theorem nodeTransition_candidate (n : Node) (h : 2 ≤ n.numOfTargets) :
    (n.nodeTransition .candidate).roles =
        { n.roles with nstate := .candidate, isLeader := false, term := i32 (n.priv.term + 1) } ∧
      SendsIn b T n (n.nodeTransition .candidate) := by
  obtain ⟨idx, isLeader, hstop⟩ := stopRole_eq n.resetVotes
  have hsent : SendsIn b T n n.resetVotes.stopRole :=
    (SendsIn.of_eq rfl).trans (.of_eq (sent_stopRole n.resetVotes))
  simp only [nodeTransition]
  generalize n.resetVotes.stopRole = m at hstop hsent
  have hmany : ¬(m.numOfTargets < 2 ∧ m.sdev.warmupState = .warmedUp) := by
    rw [hstop]
    exact fun hfew => absurd hfew.1 (Nat.not_lt.mpr h)
  simp only [startCandidate, if_neg hmany, setupNomination]
  constructor
  · rw [nominate_roles, hstop]
    rfl
  · exact hsent.trans ((SendsIn.of_eq rfl).trans (nominate_sends _))

/-- `update_leader` begins a candidature that does not fail. -/
def standsForElection (n : Node) : Prop :=
  n.sdev.warmupState ≠ .warmingUp ∧
    (n.sdev.curLeaderLid = -1 ∨ n.sdev.alive n.sdev.curLeaderLid.toNat = false) ∧
    n.getLowestAliveId = n.sdev.clusterId ∧
    ¬(n.priv.nstate = .candidate ∧ n.priv.candidateCounter < 50) ∧ 2 ≤ n.numOfTargets

instance (n : Node) : Decidable n.standsForElection :=
  inferInstanceAs (Decidable (_ ∧ (_ ∨ _) ∧ _ ∧ ¬_ ∧ _))

theorem updateLeader_roles (n : Node) (h : n.priv.nstate ≠ .leader ∨ 2 ≤ n.numOfTargets) :
    (n.updateLeader.roles = n.roles ∨ n.standsForElection ∧ n.updateLeader.roles =
        { n.roles with nstate := .candidate, isLeader := false, term := i32 (n.priv.term + 1) }) ∧
      SendsIn b T n n.updateLeader := by
  unfold updateLeader
  split
  · exact ⟨.inl rfl, .of_eq rfl⟩
  case isFalse hwarm =>
  split
  case isFalse => exact ⟨.inl rfl, .of_eq rfl⟩
  case isTrue hleader =>
  split
  case isFalse => exact ⟨.inl rfl, .of_eq rfl⟩
  case isTrue hlowest =>
  split
  case isTrue => exact ⟨.inl rfl, .of_eq rfl⟩
  case isFalse hwait =>
  by_cases hmany : 2 ≤ n.numOfTargets
  · obtain ⟨hroles, hsends⟩ := nodeTransition_candidate (b := b) (T := T) n hmany
    exact ⟨.inr ⟨⟨hwarm, hleader, hlowest, hwait, hmany⟩, hroles⟩, hsends⟩
  · have hrole : n.resetVotes.stopRole = n.resetVotes := stopRole_of_ne (h.resolve_right hmany)
    have hfailed : n.resetVotes.startCandidate = none := by
      refine if_pos ⟨Nat.not_le.mp hmany, ?_⟩
      cases hstate : n.sdev.warmupState with
      | warmedUp => exact hstate
      | warmingUp => exact absurd hstate hwarm
    simp only [nodeTransition, hrole, hfailed]
    exact ⟨.inl rfl, .of_eq rfl⟩

theorem consensusStart_roles (n : Node) :
    (n.priv.state = .running ∧ n.consensusStart = n ∨ n.priv.state ≠ .running ∧
        n.consensusStart.roles =
          { n.roles with nstate := .follower, state := .running, isLeader := false }) ∧
      SendsIn b T n n.consensusStart := by
  unfold consensusStart
  split
  case isTrue hrun => exact ⟨.inl ⟨hrun, rfl⟩, .of_eq rfl⟩
  case isFalse hrun =>
    refine ⟨.inr ⟨hrun, ?_⟩, ?_⟩
    · rw [nodeTransition_follower, enterFollower_roles]
      rfl
    · exact (SendsIn.of_eq rfl).trans (enterFollower_sends _)

theorem consensusStop_roles (n : Node) (hn : n.roles.Consistent) :
    (n.consensusStop.roles = n.roles ∨
        n.consensusStop.roles = { n.roles with state := .ready, isLeader := false }) ∧
      SendsIn b T n n.consensusStop := by
  unfold consensusStop
  split
  case isTrue => exact ⟨.inl rfl, .of_eq rfl⟩
  case isFalse =>
    refine ⟨.inr ?_, (SendsIn.of_eq (sent_stopRole n)).trans (.of_eq rfl)⟩
    by_cases hleader : n.priv.nstate = .leader
    · obtain ⟨idx, heq⟩ := cleanRequestTransmissionLists_eq { n with sdev.isLeader := false }
      have hstop : n.stopRole = n.stopLeader := by simp only [stopRole, hleader]
      rw [hstop, stopLeader, heq]
      rfl
    · have hnot : n.sdev.isLeader = false :=
        Bool.eq_false_iff.mpr fun h => hleader (hn.mp h).1
      rw [stopRole_of_ne hleader]
      simp only [roles, setAllTargetsDead, hnot]

theorem initializeIndices_calm (n : Node) : Calm n n.initializeIndices := by
  rw [initializeIndices_eq]
  have hindices : Calm n { n with leaderIdx := n.resetIndices n.numOfTargets } := .of_eq rfl rfl
  exact hindices.trans (preHbSetups_calm _ _)

/-- Whatever `start_leader` sends as a leader it sends after `is_leader` is set. -/
theorem startLeader_roles (n : Node) (h : n.sdev.isLeader = false) :
    n.startLeader.roles =
        { n.roles with isLeader := true, leads := n.priv.term :: n.roles.leads } ∧
      SendsIn true n.priv.term n n.startLeader := by
  have hindices := initializeIndices_calm n.recordLead
  unfold startLeader
  generalize n.recordLead.initializeIndices = m at hindices
  have hraised : Calm { m with sdev.isLeader := true, priv.candidateCounter := 0 }
      (checkPendingLogRep ((List.range m.numOfTargets).foldl preHbSetup
        { m with sdev.isLeader := true, priv.candidateCounter := 0 })) :=
    (preHbSetups_calm _ _).trans (checkPendingLogRep_calm _)
  constructor
  · refine hraised.roles.trans ?_
    have hroles : m.roles = n.recordLead.roles := hindices.roles
    simp only [roles, Roles.mk.injEq] at hroles ⊢
    obtain ⟨hnstate, hstate, hterm, -, hleads, haccepted⟩ := hroles
    exact ⟨hnstate, hstate, hterm, trivial, hleads, haccepted⟩
  · obtain ⟨fresh, hsent, hnone⟩ := hindices.sends
    have hsilent : SendsIn true n.priv.term n m := ⟨fresh, hsent, fun dest pkt hmem hleader =>
      absurd (h.symm.trans (hnone dest pkt hmem hleader).1) Bool.false_ne_true⟩
    have hsends := hraised.sends
    rw [show ({ m with sdev.isLeader := true, priv.candidateCounter := 0 } : Node).priv.term =
      n.priv.term from hindices.term] at hsends
    exact hsilent.trans ((SendsIn.of_eq rfl).trans hsends)

theorem acceptVote_roles (n : Node) (lid : Nat) (hrole : n.priv.nstate = .candidate)
    (h : n.sdev.isLeader = false) :
    (Calm n (n.acceptVote lid)) ∨ (n.acceptVote lid).roles = { n.roles with
        nstate := .leader, isLeader := true, leads := n.priv.term :: n.roles.leads } ∧
      SendsIn true n.priv.term n (n.acceptVote lid) := by
  rw [acceptVote_eq lid hrole]
  split
  case isFalse => exact .inl (.of_eq rfl rfl)
  case isTrue =>
    right
    obtain ⟨hroles, hsends⟩ := startLeader_roles (n.countVote lid).resetVotes h
    generalize (n.countVote lid).resetVotes.startLeader = m at hroles hsends
    refine ⟨?_, (SendsIn.of_eq rfl).trans (hsends.trans (.of_eq rfl))⟩
    simp only [roles, Roles.mk.injEq] at hroles ⊢
    obtain ⟨-, hstate, hterm, hleader, hleads, haccepted⟩ := hroles
    exact ⟨trivial, hstate, hterm, hleader, hleads, haccepted⟩

/-! ### One step -/

/-- The arrival of a packet that ends the warm-up: the node `check_warmup_state` starts. -/
def warmsUp (n : Node) (lid ts : Nat) : Option Node :=
  let targets := n.sdev.targets.modify lid fun t => { t with chbTs := ts, alive := true }
  if lid < n.numOfTargets ∧ n.sdev.pmState = .emitting ∧ n.sdev.warmupState = .warmingUp ∧
      2 ≤ n.numOfTargets ∧ 2 ≤ targets.countP (fun t => t.alive) then
    some { consensusStart { n with sdev.targets := targets } with sdev.warmupState := .warmedUp }
  else none

/-- The event makes the node stand for election with a new term. -/
def startsCandidature (n : Node) : Event → Prop
  | .tick => n.sdev.pmState = .emitting ∧ n.priv.nstate ≠ .leader ∧ n.heartbeat.standsForElection
  | .rx lid ts => ∃ m ∈ n.warmsUp lid ts, m.standsForElection
  | _ => False

instance (n : Node) : (e : Event) → Decidable (n.startsCandidature e)
  | .tick => inferInstanceAs (Decidable (_ ∧ _ ∧ _))
  | .rx lid ts => inferInstanceAs (Decidable (∃ m ∈ n.warmsUp lid ts, m.standsForElection))
  | .handle .. | .request .. | .oneShot .. | .work .. | .user .. | .leConfig .. | .pmStart | .pmStop
  | .pmHalt | .pmFail | .start | .stop => isFalse id

/-- How a step changes the roles. -/
inductive Turn (n : Node) : Event → Roles → Prop where
  | same {e : Event} : Turn n e n.roles
  | accept {lid : Nat} {pkt : ConRecord} (h : n.takesLeader lid pkt) :
      Turn n (.handle lid pkt) { n.roles with
        nstate := .follower
        term := asI32 pkt.param1
        isLeader := false
        accepted := (n.rclusterId lid, asI32 pkt.param1) :: n.roles.accepted }
  | catchUp {lid : Nat} {pkt : ConRecord} (h : n.catchesUp lid pkt) :
      Turn n (.handle lid pkt) { n.roles with term := asI32 pkt.param1 }
  | giveUp {lid : Nat} {pkt : ConRecord} (h : n.takesNomination pkt) :
      Turn n (.handle lid pkt) { n.roles with nstate := .follower, isLeader := false }
  | lead {lid : Nat} {pkt : ConRecord} (h : n.takesVote pkt) :
      Turn n (.handle lid pkt) { n.roles with
        nstate := .leader
        isLeader := true
        leads := n.priv.term :: n.roles.leads }
  | stand {e : Event} (state : LeState) (h : n.startsCandidature e) :
      Turn n e { n.roles with
        nstate := .candidate
        state := state
        isLeader := false
        term := i32 (n.priv.term + 1) }
  | start {e : Event} (h : n.priv.state ≠ .running) :
      Turn n e { n.roles with nstate := .follower, state := .running, isLeader := false }
  | stop {e : Event} : Turn n e { n.roles with state := .ready, isLeader := false }

/-- A change of roles that sends leader messages in the term it ends with only, and as a leader. -/
structure Turns (n : Node) (e : Event) (n' : Node) : Prop where
  roles : n.Turn e n'.roles
  sends : SendsIn n'.sdev.isLeader n'.priv.term n n'

variable {e : Event} {lid : Nat} {pkt : ConRecord}

theorem Calm.turns (h : Calm n n') : Turns n e n' := by
  refine ⟨h.roles ▸ .same, ?_⟩
  rw [h.isLeader, h.term]
  exact h.sends

theorem Turns.of_eq (hroles : n'.roles = n.roles) (hsent : n'.sent = n.sent) : Turns n e n' :=
  (Calm.of_eq hroles hsent).turns

theorem Turns.calm (hfirst : Turns n e m) (hsecond : Calm m n') : Turns n e n' := by
  refine ⟨hsecond.roles ▸ hfirst.roles, ?_⟩
  rw [hsecond.isLeader, hsecond.term]
  exact hfirst.sends.trans hsecond.sends

theorem acceptLeader_turns (h : n.takesLeader lid pkt) :
    Turns n (.handle lid pkt) (n.acceptLeader lid (n.rclusterId lid) (asI32 pkt.param1)) := by
  rw [acceptLeader_eq]
  refine ⟨?_, (SendsIn.of_eq rfl).trans (enterFollower_sends _)⟩
  rw [enterFollower_roles]
  exact .accept h

theorem catchUpTerm_turns (hnomi : n.takesNomination pkt) :
    Turns n (.handle lid pkt) (n.catchUpTerm pkt.param1.toNat (n.rclusterId lid)) := by
  unfold catchUpTerm
  split
  case isTrue h => exact ⟨.catchUp ⟨hnomi, h⟩, .of_eq rfl⟩
  case isFalse => exact (Calm.refl n).turns

/-- A vote is granted only to a node with a lower id, for which the own term is not raised first. -/
theorem catchUpTerm_of_grants (h : n.grantsNomination lid pkt) :
    n.catchUpTerm pkt.param1.toNat (n.rclusterId lid) = n :=
  if_neg fun hcatch => absurd hcatch.1 (Nat.not_lt.mpr (electable_of_grants h).1.1)

theorem follower_turns (hrun : n.priv.state = .running) (hstate : n.priv.nstate = .follower) :
    Turns n (.handle lid pkt) (n.followerProcessPkt lid (n.rclusterId lid) pkt) := by
  unfold followerProcessPkt
  dsimp only
  split
  case h_1 hop =>
    have hnomi : n.takesNomination pkt := ⟨hrun, .inl hstate, hop⟩
    have hcatch : Turns n (.handle lid pkt) _ := catchUpTerm_turns hnomi
    split
    case h_1 m hcheck =>
      have hm : n.catchUpTerm pkt.param1.toNat (n.rclusterId lid) = m := congrArg Prod.fst hcheck
      exact (hm ▸ hcatch).calm (replyVote_calm m _ _ _ _)
    case h_2 m hcheck =>
      have hm : n.catchUpTerm pkt.param1.toNat (n.rclusterId lid) = m := congrArg Prod.fst hcheck
      exact hm ▸ hcatch
  case h_2 hop =>
    by_cases hnew : asI32 pkt.param1 > n.priv.term
    · simp only [if_pos hnew]
      have hlead : n.takesLeader lid pkt := ⟨hrun, .inl ⟨hstate, hnew, .inl hop⟩⟩
      have haccept := acceptLeader_turns hlead
      split
      · exact haccept.calm (commitLog_calm _ _)
      · exact haccept
    · simp only [if_neg hnew]
      split
      · exact (commitLog_calm _ _).turns
      · exact (Calm.refl n).turns
  case h_3 hop =>
    split
    · exact (Calm.refl n).turns
    case isFalse hsender =>
    split
    case isTrue hnew =>
      have haccept := acceptLeader_turns ⟨hrun, .inl ⟨hstate, hnew, .inr ⟨hop, not_not.mp hsender⟩⟩⟩
      exact haccept.calm (handleAppendRpc_calm _ _ _ _)
    case isFalse =>
    split
    · exact ((handleAppendRpc_calm n _ _ _).trans (commitLog_calm _ _)).turns
    · exact (Calm.refl n).turns
  case h_4 => exact (Calm.refl n).turns

theorem candidate_turns (hrun : n.priv.state = .running) (hstate : n.priv.nstate = .candidate)
    (hvote : pkt.opcodeVal ≠ some .vote) :
    Turns n (.handle lid pkt) (n.candidateProcessPkt lid (n.rclusterId lid) pkt) := by
  unfold candidateProcessPkt
  dsimp only
  split
  case h_1 hop => exact absurd hop hvote
  case h_2 hop =>
    have hnomi : n.takesNomination pkt := ⟨hrun, .inr hstate, hop⟩
    split
    case h_1 m hcheck =>
      have hm : n.catchUpTerm pkt.param1.toNat (n.rclusterId lid) = m := congrArg Prod.fst hcheck
      rw [catchUpTerm_of_grants (congrArg Prod.snd hcheck)] at hm
      subst hm
      refine Turns.calm ⟨?_, ?_⟩ (replyVote_calm _ _ _ _ _)
      · rw [nodeTransition_follower, enterFollower_roles]
        exact .giveUp hnomi
      · exact (SendsIn.of_eq rfl).trans (enterFollower_sends _)
    case h_2 m hcheck =>
      have hm : n.catchUpTerm pkt.param1.toNat (n.rclusterId lid) = m := congrArg Prod.fst hcheck
      exact hm ▸ catchUpTerm_turns hnomi
  case h_3 hop =>
    split
    case isTrue hnew => exact acceptLeader_turns ⟨hrun, .inr (.inl ⟨hstate, hnew, hop⟩)⟩
    case isFalse => exact (Calm.refl n).turns
  case h_4 hop =>
    split
    · exact (Calm.refl n).turns
    split
    · exact (handleAppendRpc_calm n _ _ _).turns
    · exact (Calm.refl n).turns
  case h_5 => exact (Calm.refl n).turns

theorem leader_turns (hrun : n.priv.state = .running) (hstate : n.priv.nstate = .leader) :
    Turns n (.handle lid pkt) (n.leaderProcessPkt lid (n.rclusterId lid) pkt) := by
  unfold leaderProcessPkt
  split
  case h_1 => exact (leaderProcessAppendReply_calm n lid pkt).turns
  case h_2 hop =>
    split
    case isTrue hnew => exact acceptLeader_turns ⟨hrun, .inr (.inr ⟨hstate, hnew, hop⟩)⟩
    case isFalse => exact (Calm.refl n).turns
  case h_3 => exact (Calm.refl n).turns

theorem vote_turns (hvote : n.takesVote pkt) (hn : n.roles.Consistent) :
    Turns n (.handle lid pkt) ((n.noteVote lid pkt).acceptVote lid) := by
  have hnote := noteVote_calm n lid pkt
  have hnot : n.sdev.isLeader = false :=
    Bool.eq_false_iff.mpr fun h => by cases hvote.2.1.symm.trans (hn.mp h).1
  rcases acceptVote_roles (n.noteVote lid pkt) lid (hnote.nstate.trans hvote.2.1)
    (hnote.isLeader.trans hnot) with hcalm | ⟨hroles, hsends⟩
  · exact (hnote.trans hcalm).turns
  · rw [hnote.roles, hnote.term] at hroles
    rw [hnote.term] at hsends
    have hsilent : SendsIn false n.priv.term n (n.noteVote lid pkt) := hnot ▸ hnote.sends
    refine ⟨hroles ▸ .lead hvote, ?_⟩
    rw [show ((n.noteVote lid pkt).acceptVote lid).sdev.isLeader = true from
        congrArg Roles.isLeader hroles,
      show ((n.noteVote lid pkt).acceptVote lid).priv.term = n.priv.term from
        congrArg Roles.term hroles]
    exact hsilent.of_silent.trans hsends

theorem handle_turns (lid : Nat) (pkt : ConRecord) (hn : n.roles.Consistent) :
    Turns n (.handle lid pkt) (n.step (.handle lid pkt)) := by
  simp only [step]
  split
  case isFalse => exact (Calm.refl n).turns
  have hnote : Turns n (.handle lid pkt) (n.noteVote lid pkt) := (noteVote_calm n lid pkt).turns
  unfold consensusPostPayload
  rw [noteVote_priv]
  split
  · exact hnote
  case isFalse hrun =>
  have hrun := not_not.mp hrun
  by_cases hvote : pkt.opcodeVal = some .vote
  · split
    case h_1 => simpa only [followerProcessPkt, hvote] using hnote
    case h_2 hstate =>
      simpa only [candidateProcessPkt, hvote] using vote_turns ⟨hrun, hstate, hvote⟩ hn
    case h_3 => simpa only [leaderProcessPkt, hvote] using hnote
    case h_4 => exact hnote
  · rw [noteVote_of_ne hvote]
    split
    case h_1 hstate => exact follower_turns hrun hstate
    case h_2 hstate => exact candidate_turns hrun hstate hvote
    case h_3 hstate => exact leader_turns hrun hstate
    case h_4 => exact (Calm.refl n).turns

theorem tick_turns (hn : n.roles.Consistent) : Turns n .tick n.tick := by
  unfold tick
  split
  · exact (Calm.refl n).turns
  case isFalse hemitting =>
  have hheart := heartbeat_calm n
  by_cases hleader : n.heartbeat.priv.nstate = .leader
  · simp only [hleader, ne_eq, not_true_eq_false, ↓reduceIte]
    exact (hheart.trans (checkPendingLogRep_calm _)).turns
  · simp only [hleader, ne_eq, not_false_eq_true, ↓reduceIte]
    refine Turns.calm ?_ (checkPendingLogRep_calm _)
    have hrole : n.priv.nstate ≠ .leader := hheart.nstate ▸ hleader
    have hnot : n.sdev.isLeader = false := Bool.eq_false_iff.mpr fun h => hrole (hn.mp h).1
    have hsilent : SendsIn false n.priv.term n n.heartbeat := hnot ▸ hheart.sends
    obtain ⟨hroles, hsends⟩ := updateLeader_roles (b := n.heartbeat.updateLeader.sdev.isLeader)
      (T := n.heartbeat.updateLeader.priv.term) n.heartbeat (.inl hleader)
    refine ⟨?_, hsilent.of_silent.trans hsends⟩
    rcases hroles with hsame | ⟨hstands, hroles⟩
    · rw [hsame, hheart.roles]
      exact .same
    · rw [hroles, hheart.roles, hheart.term]
      exact .stand n.priv.state ⟨not_not.mp hemitting, hrole, hstands⟩

theorem consensusStart_numOfTargets (n : Node) : n.consensusStart.numOfTargets = n.numOfTargets := by
  unfold consensusStart
  split
  · rfl
  · obtain ⟨idx, sent, heq⟩ := enterFollower_eq (resetVotes { n with priv.state := .running })
    rw [nodeTransition_follower, heq]
    rfl

theorem warmsUp_turns {ts : Nat} (hm : n.warmsUp lid ts = some m) :
    Turns n (.rx lid ts) m.updateLeader := by
  have hstands : m.standsForElection → n.startsCandidature (.rx lid ts) := fun h => ⟨m, hm, h⟩
  simp only [warmsUp] at hm
  split at hm
  case isFalse => cases hm
  case isTrue h =>
  generalize htargets : n.sdev.targets.modify lid
    (fun t => { t with chbTs := ts, alive := true }) = targets at hm
  have hm := Option.some.inj hm
  have hmany : 2 ≤ m.numOfTargets := by
    rw [← hm]
    change 2 ≤ (consensusStart { n with sdev.targets := targets }).numOfTargets
    rw [consensusStart_numOfTargets]
    simpa only [numOfTargets, AsgardDevice.numOfTargets, ← htargets, List.length_modify]
      using h.2.2.2.1
  obtain ⟨hstart, hfirst⟩ := consensusStart_roles (b := m.updateLeader.sdev.isLeader)
    (T := m.updateLeader.priv.term) { n with sdev.targets := targets }
  obtain ⟨hupdate, hsecond⟩ := updateLeader_roles (b := m.updateLeader.sdev.isLeader)
    (T := m.updateLeader.priv.term) m (.inr hmany)
  have hroles : m.roles = (consensusStart { n with sdev.targets := targets }).roles := by
    rw [← hm]
    rfl
  refine ⟨?_, ?_⟩
  · have hstart : m.roles = n.roles ∧ n.priv.state = .running ∨ n.priv.state ≠ .running ∧
        m.roles = { n.roles with nstate := .follower, state := .running, isLeader := false } := by
      rcases hstart with ⟨hrun, hsame⟩ | ⟨hstopped, hstart⟩
      · rw [hsame] at hroles
        exact .inl ⟨hroles, hrun⟩
      · exact .inr ⟨hstopped, hroles.trans hstart⟩
    rcases hupdate with hsame | ⟨hcandidate, hupdate⟩
    · rw [hsame]
      rcases hstart with ⟨hsame, -⟩ | ⟨hstopped, hstart⟩
      · exact hsame ▸ .same
      · exact hstart ▸ .start hstopped
    · have hturn := Turn.stand .running (hstands hcandidate)
      have hterm : m.priv.term = m.roles.term := rfl
      rw [hupdate, hterm]
      rcases hstart with ⟨hsame, hrun⟩ | ⟨-, hstart⟩
      · rw [hsame]
        rw [← hrun] at hturn
        exact hturn
      · rw [hstart]
        exact hturn
  · refine (SendsIn.of_eq rfl).trans (hfirst.trans (SendsIn.trans (.of_eq ?_) hsecond))
    rw [← hm]

theorem rx_turns (lid ts : Nat) : Turns n (.rx lid ts) (n.step (.rx lid ts)) := by
  simp only [step]
  split
  case isFalse => exact (Calm.refl n).turns
  case isTrue hlid =>
  unfold doPostPayload
  split
  case isTrue => exact (Calm.refl n).turns
  case isFalse hemitting =>
  have hmark : ∀ targets, Turns n (.rx lid ts) { n with sdev.targets := targets } :=
    fun _ => .of_eq rfl rfl
  unfold checkWarmupState
  dsimp only
  split
  case isFalse => exact hmark _
  case isTrue hwarm =>
  split
  case isTrue => exact hmark _
  case isFalse hmany =>
  split
  case isTrue => exact hmark _
  case isFalse halive =>
    simp only [numOfTargets, AsgardDevice.numOfTargets, List.length_modify] at hmany
    exact warmsUp_turns (if_pos ⟨hlid, not_not.mp hemitting, hwarm, Nat.not_lt.mp hmany,
      Nat.not_lt.mp halive⟩)

theorem consensusStop_turns (hn : n.roles.Consistent) : Turns n e n.consensusStop := by
  obtain ⟨hroles, hsends⟩ := consensusStop_roles (b := n.consensusStop.sdev.isLeader)
    (T := n.consensusStop.priv.term) n hn
  refine ⟨?_, hsends⟩
  rcases hroles with hsame | hstop
  · exact hsame ▸ .same
  · exact hstop ▸ .stop

/-- **Every step turns the roles in one of these ways**, and sends as a leader only. -/
theorem step_turns (n : Node) (e : Event) (hn : n.roles.Consistent) : Turns n e (n.step e) := by
  cases e with
  | rx lid ts => exact rx_turns lid ts
  | handle lid pkt => exact handle_turns lid pkt hn
  | tick => exact tick_turns hn
  | request chunks => exact (testcaseTimer_calm n chunks).turns
  | oneShot chunks => exact (testcaseOneShotBigLog_calm n chunks).turns
  | work k =>
    simp only [step]
    split
    case h_1 work _ =>
      have hqueue : Calm n { n with leaderWq := n.leaderWq.eraseIdx k } := .of_eq rfl rfl
      exact (hqueue.trans (prepareLogReplication_calm _ work)).turns
    case h_2 => exact (Calm.refl n).turns
  | user rxbuf => exact .of_eq rfl rfl
  | leConfig maxEntriesPerPkt =>
    simp only [step, leConfigWrite]
    split
    · exact .of_eq rfl rfl
    · exact .of_eq rfl rfl
  | pmStart =>
    simp only [step, preparePmLoop]
    split
    · exact .of_eq rfl rfl
    · exact .of_eq rfl rfl
  | pmStop => exact (consensusStop_turns hn).calm (.of_eq rfl rfl)
  | pmHalt => exact .of_eq rfl rfl
  | pmFail => exact .of_eq rfl rfl
  | start =>
    obtain ⟨hroles, hsends⟩ := consensusStart_roles (b := n.consensusStart.sdev.isLeader)
      (T := n.consensusStart.priv.term) n
    refine ⟨?_, hsends⟩
    rcases hroles with ⟨-, hsame⟩ | ⟨hstopped, hroles⟩
    · exact (congrArg Node.roles hsame) ▸ .same
    · exact hroles ▸ .start hstopped
  | stop => exact consensusStop_turns hn

end Node

end XlaneLkm
