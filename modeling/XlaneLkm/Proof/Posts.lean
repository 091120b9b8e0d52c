import XlaneLkm.Proof.Roles
import XlaneLkm.Proof.Appending

/-!
# What a step hands out

To the payloads: a step only adds to `sent`. The APPENDs it adds have at most as many entries as the
configuration allows, and a node in multicast mode addresses none of them to a single target. To user
space: what a step appends to the rx ring are the commands it applies.
-/

namespace XlaneLkm

open MachineInt

namespace SmLog

/-! ### What applies nothing -/

@[simp]
theorem applied_store (log : SmLog) (chunk : DataChunk) (term idx : Int) :
    (log.store chunk term idx).abstract.applied = log.abstract.applied := rfl

@[simp]
theorem applied_getLastIdxSafe (log : SmLog) :
    log.getLastIdxSafe.abstract.applied = log.abstract.applied := by
  unfold getLastIdxSafe
  split <;> rfl

theorem applied_appendCommand {log log' : SmLog} {chunk : DataChunk} {term idx : Int}
    (h : log.appendCommand chunk term idx = .ok log') :
    log'.abstract.applied = log.abstract.applied := by
  unfold appendCommand at h
  split at h
  · cases h
  · cases h
    rfl

@[simp]
theorem applied_appendLoop (log : SmLog) (pkt : ConRecord) (term i : Int) (j k : Nat) :
    (log.appendLoop pkt term i j k).1.abstract.applied = log.abstract.applied := by
  induction k generalizing log i j with
  | zero => rfl
  | succ k ih =>
    unfold appendLoop
    split
    · rfl
    case h_2 log' heq => exact (ih log' (i + 1) (j + 1)).trans (applied_appendCommand heq)

@[simp]
theorem applied_updateStableIdx (log : SmLog) :
    log.updateStableIdx.abstract.applied = log.abstract.applied := by
  obtain ⟨stable, heq, -⟩ := log.updateStableIdx_eq
  rw [heq]
  rfl

@[simp]
theorem applied_updateNextRetransmissionRequestIdx (log : SmLog) (maxEntriesPerPkt : Int) :
    (log.updateNextRetransmissionRequestIdx maxEntriesPerPkt).abstract.applied =
      log.abstract.applied := by
  rw [updateNextRetransmissionRequestIdx_eq]
  split <;> rfl

@[simp]
theorem applied_appendCommands (log : SmLog) (pkt : ConRecord) (term num pktSize start : Int)
    (unstable : Bool) : (log.appendCommands pkt term num pktSize start unstable).1.abstract.applied =
      log.abstract.applied := by
  have hloop := log.applied_appendLoop pkt term start 0 (i32 (start + num - 1) - start + 1).toNat
  unfold appendCommands
  dsimp only
  split
  · rfl
  split
  case h_1 log' err heq =>
    rw [heq] at hloop
    exact hloop
  case h_2 log' heq =>
    rw [heq] at hloop
    split
    · exact hloop
    split
    · exact hloop
    · exact (applied_updateStableIdx log').trans hloop

@[simp]
theorem applied_handleAppend (log : SmLog) (priv : ConsensusPriv) (pkt : ConRecord)
    (rclusterId : Int) :
    (log.handleAppend priv pkt rclusterId).1.abstract.applied = log.abstract.applied := by
  have happend := fun unstable => log.applied_appendCommands pkt priv.term (i32 pkt.numEntries.toNat)
    pkt.pktSize.toNat (i32 (pkt.prevLogIdx + 1)) unstable
  unfold handleAppend
  dsimp only
  split
  · rfl
  split
  · rfl
  split
  · rfl
  split
  case h_1 log' err heq =>
    have hlog := happend (decide (pkt.prevLogIdx > log.stableIdx ∧
      pkt.prevLogTerm = u32 priv.term ∧ priv.leaderId = u32 rclusterId))
    rw [heq] at hlog
    exact hlog
  case h_2 log' heq =>
    have hlog := happend (decide (pkt.prevLogIdx > log.stableIdx ∧
      pkt.prevLogTerm = u32 priv.term ∧ priv.leaderId = u32 rclusterId))
    rw [heq] at hlog
    split
    · exact (log'.applied_updateNextRetransmissionRequestIdx _).trans hlog
    · exact (log'.applied_updateNextRetransmissionRequestIdx _).trans hlog

@[simp]
theorem applied_leaderCommit (log : SmLog) (N : Int) :
    (log.leaderCommit N).abstract.applied = log.abstract.applied := by
  obtain ⟨entries, heq, -⟩ := log.leaderCommit_eq N
  rw [heq]
  rfl

end SmLog

namespace Node

variable {n m n' : Node}

/-- What holds of an APPEND that is sent. -/
structure Fits (n : Node) (dest : Dest) (pkt : ConRecord) : Prop where
  dest_eq : n.sdev.multicastEnable = true → dest = .multicast
  numEntries_le : n.priv.maxEntriesPerPkt ≤ maxAeEntriesPerPkt → pkt.numEntries.toNat ≤ 100

/-- The commands applied on the way from `n` to `n'` have been appended to the rx ring. -/
def HandsOver (n n' : Node) : Prop :=
  ∃ chunks, n'.smLog.abstract.applied = n.smLog.abstract.applied ++ chunks ∧
    chunks.foldlM AsgRingBuf.appendRb n.rxbuf = some n'.rxbuf

structure Posts (n n' : Node) : Prop where
  maxEntriesPerPkt : n'.priv.maxEntriesPerPkt = n.priv.maxEntriesPerPkt
  multicastEnable : n'.sdev.multicastEnable = n.sdev.multicastEnable
  leaderWq : n.sdev.multicastEnable = true → n'.leaderWq = n.leaderWq
  sends : ∃ fresh, n'.sent = fresh ++ n.sent ∧ ∀ dest pkt, (dest, some pkt) ∈ fresh →
    pkt.opcodeVal = some .append → n.Fits dest pkt
  handsOver : HandsOver n n'

theorem HandsOver.of_eq (hrxbuf : n'.rxbuf = n.rxbuf)
    (happlied : n'.smLog.abstract.applied = n.smLog.abstract.applied) : HandsOver n n' :=
  ⟨[], happlied.trans (List.append_nil _).symm, congrArg some hrxbuf.symm⟩

theorem HandsOver.trans (hfirst : HandsOver n m) (hsecond : HandsOver m n') : HandsOver n n' := by
  obtain ⟨first, happlied, hring⟩ := hfirst
  obtain ⟨second, happlied', hring'⟩ := hsecond
  refine ⟨first ++ second, by rw [happlied', happlied, List.append_assoc], ?_⟩
  rw [List.foldlM_append, hring]
  exact hring'

theorem Fits.congr {dest : Dest} {pkt : ConRecord} (h : n.Fits dest pkt)
    (hmax : m.priv.maxEntriesPerPkt = n.priv.maxEntriesPerPkt)
    (hmulticast : m.sdev.multicastEnable = n.sdev.multicastEnable) : m.Fits dest pkt := by
  constructor
  · rw [hmulticast]
    exact h.dest_eq
  · rw [hmax]
    exact h.numEntries_le

theorem Posts.trans (hfirst : Posts n m) (hsecond : Posts m n') : Posts n n' := by
  obtain ⟨first, hsent, hfits⟩ := hfirst.sends
  obtain ⟨second, hsent', hfits'⟩ := hsecond.sends
  constructor
  · exact hsecond.maxEntriesPerPkt.trans hfirst.maxEntriesPerPkt
  · exact hsecond.multicastEnable.trans hfirst.multicastEnable
  · intro hmulticast
    calc n'.leaderWq = m.leaderWq := hsecond.leaderWq (hfirst.multicastEnable.trans hmulticast)
      _ = n.leaderWq := hfirst.leaderWq hmulticast
  · refine ⟨second ++ first, by rw [hsent', hsent, List.append_assoc], ?_⟩
    intro dest pkt hmem hop
    rcases List.mem_append.mp hmem with hnew | hold
    · exact (hfits' dest pkt hnew hop).congr hfirst.maxEntriesPerPkt.symm hfirst.multicastEnable.symm
    · exact hfits dest pkt hold hop
  · exact hfirst.handsOver.trans hsecond.handsOver

theorem Posts.of_eq (hmax : n'.priv.maxEntriesPerPkt = n.priv.maxEntriesPerPkt)
    (hmulticast : n'.sdev.multicastEnable = n.sdev.multicastEnable) (hwq : n'.leaderWq = n.leaderWq)
    (hsent : n'.sent = n.sent) (hrxbuf : n'.rxbuf = n.rxbuf)
    (happlied : n'.smLog.abstract.applied = n.smLog.abstract.applied) : Posts n n' :=
  ⟨hmax, hmulticast, fun _ => hwq, ⟨[], hsent, fun _ _ hmem => absurd hmem List.not_mem_nil⟩,
    .of_eq hrxbuf happlied⟩

theorem Posts.refl (n : Node) : Posts n n := .of_eq rfl rfl rfl rfl rfl rfl

theorem posts_send (n : Node) (dest : Dest) {record : Option ConRecord}
    (h : ∀ pkt, record = some pkt → pkt.opcodeVal = some .append → n.Fits dest pkt) :
    Posts n (n.send dest record) := by
  refine ⟨rfl, rfl, fun _ => rfl, ⟨[(dest, record)], rfl, fun dest' pkt hmem hop => ?_⟩,
    .of_eq rfl rfl⟩
  obtain ⟨rfl, hrecord⟩ := Prod.mk.inj (List.mem_singleton.mp hmem)
  exact h pkt hrecord.symm hop

theorem posts_send_of_ne (n : Node) (dest : Dest) {pkt : ConRecord}
    (h : pkt.opcodeVal ≠ some .append) : Posts n (n.send dest (some pkt)) :=
  posts_send n dest fun _ heq hop => absurd (Option.some.inj heq ▸ hop) h

theorem posts_foldl {β : Type*} {f : Node → β → Node} (h : ∀ m b, Posts m (f m b)) (l : List β)
    (n : Node) : Posts n (l.foldl f n) := by
  induction l generalizing n with
  | nil => exact Posts.refl n
  | cons b l ih => exact (h n b).trans (ih (f n b))

theorem mem_of_posts {x : Dest × Option ConRecord} (h : Posts n n') (hx : x ∈ n.sent) :
    x ∈ n'.sent := by
  obtain ⟨fresh, hsent, -⟩ := h.sends
  exact hsent ▸ List.mem_append_right fresh hx

/-- A fold of sends, one for every target, sends to every target. -/
theorem mem_sent_foldl {f : Node → Nat → Node} {P : Node → Prop} {record : Option ConRecord}
    (hposts : ∀ m i, Posts m (f m i))
    (hsend : ∀ m i, P m → P (f m i) ∧ (Dest.target i, record) ∈ (f m i).sent)
    {l : List Nat} {i : Nat} (hi : i ∈ l) (hn : P n) :
    (Dest.target i, record) ∈ (l.foldl f n).sent := by
  induction l generalizing n with
  | nil => exact absurd hi List.not_mem_nil
  | cons j l ih =>
    obtain ⟨hnext, hmem⟩ := hsend n j hn
    rcases List.mem_cons.mp hi with rfl | hrest
    · exact mem_of_posts (posts_foldl hposts l _) hmem
    · exact ih hrest hnext

/-! ### Heartbeats and the messages of elections -/

theorem setupLeMsg_posts (n : Node) {op : LeOpcode} (hop : op ≠ .append) (targetId : Nat)
    (p1 p2 p3 p4 : Int) : Posts n (n.setupLeMsg op targetId p1 p2 p3 p4) := by
  apply posts_send_of_ne
  rw [setLeOpcode_opcodeVal]
  exact fun heq => hop (Option.some.inj heq)

theorem setupLeBroadcastMsg_posts (n : Node) {op : LeOpcode} (hop : op ≠ .append) :
    Posts n (n.setupLeBroadcastMsg op) :=
  posts_foldl (fun m i => setupLeMsg_posts m hop i _ _ _ _) _ n

theorem preHbSetup_posts (n : Node) (i : Nat) : Posts n (n.preHbSetup i) := by
  unfold preHbSetup hbRecord
  split_ifs
  · apply posts_send_of_ne
    rw [setLeOpcodeAd_opcodeVal]
    simp
  · apply posts_send_of_ne
    rw [setupAliveMsg, setLeOpcode_opcodeVal]
    simp
  · exact Posts.refl n

theorem heartbeat_posts (n : Node) : Posts n n.heartbeat := by
  have hinterval : Posts n { n with sdev.hbInterval := (n.sdev.hbInterval + 1) % 4294967296 } :=
    .of_eq rfl rfl rfl rfl rfl rfl
  have hemit : ∀ m : Node, Posts m m.emitPktsScheduled := fun m =>
    posts_foldl (fun m i => posts_send m (.target i) fun pkt heq =>
      absurd heq (Option.some_ne_none pkt).symm) _ m
  exact ((hinterval.trans (hemit _)).trans (posts_foldl preHbSetup_posts _ _)).trans
    (.of_eq rfl rfl rfl rfl rfl rfl)

/-! ### Log replication -/

theorem setAeData_numEntries_le (pktSize : UInt16) (term leaderId first prevLogTerm commitIdx : Int)
    (log : SmLog) {num : Int} (hpos : 0 ≤ num) (hle : num ≤ maxAeEntriesPerPkt) :
    (setAeData pktSize term leaderId first prevLogTerm commitIdx log num).numEntries.toNat ≤ 100 := by
  have hmax : maxAeEntriesPerPkt = 100 := rfl
  have hincluded : 0 ≤ includedEntries log first num ∧ includedEntries log first num ≤ 100 := by
    unfold includedEntries
    split_ifs <;> omega
  rw [setAeData, toU32_toNat, u32_eq_toNat hincluded.1 (by omega)]
  omega

theorem appendMsgAt_numEntries (n : Node) (t : Nat) (i : Int) (retrans : Bool) (pkt : ConRecord)
    (hmax : n.priv.maxEntriesPerPkt ≤ maxAeEntriesPerPkt)
    (h : (n.appendMsgAt t i retrans).2.2 = some pkt) : pkt.numEntries.toNat ≤ 100 := by
  have hle := n.entriesToSend_le i
  simp only [appendMsgAt] at h
  split at h
  · cases h
  split at h
  · cases h
  split at h
  · cases h
  split at h
  · cases h
  split at h
  · cases h
  case isFalse hnum =>
  split at h
  · cases h
  · cases h
    exact setAeData_numEntries_le _ _ _ _ _ _ _ (by omega) (by omega)

theorem setupAppendMulticastMsg_numEntries (n : Node) {n' : Node} {ret : Int} {pkt : ConRecord}
    (hmax : n.priv.maxEntriesPerPkt ≤ maxAeEntriesPerPkt)
    (h : n.setupAppendMulticastMsg = (n', ret, some pkt)) : pkt.numEntries.toNat ≤ 100 := by
  have hle : (n.repairLast.entriesToSend n.repairLast.sdev.multicastNextIdx).1 ≤
      n.priv.maxEntriesPerPkt := n.repairLast.entriesToSend_le _
  simp only [setupAppendMulticastMsg] at h
  split at h
  · cases h
  split at h
  · cases h
  split at h
  · cases h
  split at h
  · cases h
  case isFalse hnum =>
  split at h
  · cases h
  · cases h
    exact setAeData_numEntries_le _ _ _ _ _ _ _ (by omega) (by omega)

theorem getNextIdxForTarget_posts (n : Node) (i : Nat) : Posts n (n.getNextIdxForTarget i).1 := by
  simp only [getNextIdxForTarget]
  split
  · split
    · exact Posts.refl n
    · exact .of_eq rfl rfl rfl rfl rfl rfl
  · exact Posts.refl n

theorem scheduleLogRep_posts (n : Node) (h : n.sdev.multicastEnable = false) (work : LogRepWork) :
    Posts n (n.scheduleLogRep work) := by
  unfold scheduleLogRep
  split_ifs
  · exact Posts.refl n
  · exact Posts.refl n
  · exact ⟨rfl, rfl, fun hmulticast => absurd (h.symm.trans hmulticast) Bool.false_ne_true,
      ⟨[], rfl, fun _ _ hmem => absurd hmem List.not_mem_nil⟩, .of_eq rfl rfl⟩

theorem checkPendingLogRepForTarget_posts (n : Node) (h : n.sdev.multicastEnable = false) (i : Nat) :
    Posts n (n.checkPendingLogRepForTarget i) := by
  have hnext := getNextIdxForTarget_posts n i
  unfold checkPendingLogRepForTarget
  split
  · exact Posts.refl n
  split
  · exact Posts.refl n
  refine hnext.trans ?_
  dsimp only
  split_ifs
  · exact Posts.refl _
  · exact Posts.refl _
  · exact scheduleLogRep_posts _ (hnext.multicastEnable.trans h) _

theorem repairLast_posts (n : Node) : Posts n n.repairLast :=
  .of_eq rfl rfl rfl rfl rfl n.smLog.applied_getLastIdxSafe

theorem doPrepareLogReplicationMulticast_posts (n : Node) :
    Posts n n.doPrepareLogReplicationMulticast.1 := by
  unfold doPrepareLogReplicationMulticast
  split
  · exact Posts.refl n
  rcases n.setupAppendMulticastMsg_cases with ⟨ret, hmsg⟩ | ⟨num, ret, pkt, hmsg, -⟩
  · rw [hmsg]
    exact repairLast_posts n
  · have hnum := fun hmax => n.setupAppendMulticastMsg_numEntries hmax hmsg
    rw [hmsg]
    have hadvance : Posts n (n.repairLast.advanceMulticast num) :=
      (repairLast_posts n).trans (.of_eq rfl rfl rfl rfl rfl rfl)
    refine hadvance.trans (posts_send _ _ fun pkt' heq _ => ⟨fun _ => rfl, ?_⟩)
    cases heq
    exact hnum

theorem multicastLoop_posts (k : Nat) (n : Node) : Posts n (n.multicastLoop k) := by
  induction k generalizing n with
  | zero => exact Posts.refl n
  | succ k ih =>
    unfold multicastLoop
    dsimp only
    split
    · exact (doPrepareLogReplicationMulticast_posts n).trans (ih _)
    · exact doPrepareLogReplicationMulticast_posts n

theorem checkPendings_posts (l : List Nat) (n : Node) (h : n.sdev.multicastEnable = false) :
    Posts n (l.foldl checkPendingLogRepForTarget n) := by
  induction l generalizing n with
  | nil => exact Posts.refl n
  | cons i l ih =>
    have hone := checkPendingLogRepForTarget_posts n h i
    exact hone.trans (ih _ (hone.multicastEnable.trans h))

theorem checkPendingLogRep_posts (n : Node) : Posts n n.checkPendingLogRep := by
  unfold checkPendingLogRep
  split
  · exact Posts.refl n
  split
  · exact Posts.refl n
  split
  · unfold checkPendingLogRepForMulticast
    split_ifs
    · exact Posts.refl n
    · exact multicastLoop_posts _ n
  case isFalse hmulticast =>
    exact checkPendings_posts _ n (Bool.not_eq_true _ ▸ hmulticast)

theorem doPrepareLogReplication_posts (n : Node) (h : n.sdev.multicastEnable = false)
    (work : LogRepWork) : Posts n (n.doPrepareLogReplication work).1 := by
  unfold doPrepareLogReplication
  split
  · exact Posts.refl n
  split
  · exact Posts.refl n
  split
  · exact Posts.refl n
  generalize hresult : n.setupAppendMsg work.targetId work.nextIndex work.retrans = result
  change n.repairLast.appendMsgAt _ _ _ = _ at hresult
  obtain ⟨⟨nextIndex, hn'⟩, -⟩ := appendMsgAt_spec n.repairLast work.targetId
    (if work.retrans then work.nextIndex else n.repairLast.getNextIdx work.targetId) work.retrans
  have hnum := n.repairLast.appendMsgAt_numEntries work.targetId
    (if work.retrans then work.nextIndex else n.repairLast.getNextIdx work.targetId) work.retrans
  rw [hresult] at hn' hnum
  obtain ⟨n', ret, record⟩ := result
  dsimp only at hn' hnum ⊢
  have hadvance : Posts n n' := by
    rw [hn']
    exact (repairLast_posts n).trans (.of_eq rfl rfl rfl rfl rfl rfl)
  cases record with
  | none => exact hadvance
  | some pkt =>
    refine hadvance.trans (posts_send n' _ fun pkt' heq _ => ?_)
    cases heq
    refine ⟨fun hmulticast => absurd (hadvance.multicastEnable.symm.trans hmulticast) ?_, fun hmax => ?_⟩
    · rw [h]
      simp
    · exact hnum pkt (hadvance.maxEntriesPerPkt ▸ hmax) rfl

theorem prepareLogReplication_posts (n : Node) (h : n.sdev.multicastEnable = false)
    (work : LogRepWork) : Posts n (n.prepareLogReplication work) := by
  have hone := doPrepareLogReplication_posts n h work
  unfold prepareLogReplication
  dsimp only
  split_ifs
  · exact hone
  · exact hone.trans (checkPendingLogRepForTarget_posts _ (hone.multicastEnable.trans h) _)
  · exact hone

theorem requestLoop_posts (chunks : List DataChunk) (n : Node) (i : Int) :
    Posts n (n.requestLoop i chunks).1 := by
  induction chunks generalizing n i with
  | nil => exact Posts.refl n
  | cons chunk chunks ih =>
    unfold requestLoop
    split
    · exact Posts.refl n
    case h_2 log heq =>
      have hlog : Posts n { n with smLog := log } :=
        .of_eq rfl rfl rfl rfl rfl (SmLog.applied_appendCommand heq)
      exact hlog.trans (ih _ _)

theorem testcaseTimer_posts (n : Node) (chunks : List DataChunk) :
    Posts n (n.testcaseTimer chunks) := by
  unfold testcaseTimer
  split
  · exact Posts.refl n
  have hloop := requestLoop_posts (chunks.take (i32 (i32 (n.smLog.lastIdx + 1) + chunks.length) -
    i32 (n.smLog.lastIdx + 1)).toNat) n (i32 (n.smLog.lastIdx + 1))
  dsimp only
  split
  case h_1 m heq =>
    rw [heq] at hloop
    exact hloop.trans (checkPendingLogRep_posts m)
  case h_2 m heq =>
    rw [heq] at hloop
    exact hloop

theorem testcaseOneShotBigLog_posts (n : Node) (chunks : List DataChunk) :
    Posts n (n.testcaseOneShotBigLog chunks) := by
  unfold testcaseOneShotBigLog
  split
  · exact Posts.refl n
  · exact requestLoop_posts _ n 0

/-! ### Roles -/

theorem stopRole_posts (n : Node) : Posts n n.stopRole := by
  have hclean : ∀ m : Node, Posts m m.cleanRequestTransmissionLists := fun m =>
    posts_foldl (f := cleanRequestTransmissionList) (fun _ _ => .of_eq rfl rfl rfl rfl rfl rfl) _ m
  unfold stopRole
  split
  · have hdrop : Posts n { n with sdev.isLeader := false } := .of_eq rfl rfl rfl rfl rfl rfl
    exact hdrop.trans (hclean _)
  · exact Posts.refl n
  · exact Posts.refl n
  · exact Posts.refl n

theorem startFollower_posts (n : Node) : Posts n n.startFollower :=
  (setupLeBroadcastMsg_posts n (by decide)).trans (.of_eq rfl rfl rfl rfl rfl rfl)

theorem startCandidate_posts {n n' : Node} (h : n.startCandidate = some n') : Posts n n' := by
  unfold startCandidate at h
  split at h
  · cases h
  · cases h
    refine Posts.trans ?_ (setupLeBroadcastMsg_posts _ (by decide))
    exact .of_eq rfl rfl rfl rfl rfl rfl

theorem startLeader_posts (n : Node) : Posts n n.startLeader := by
  have hinit : Posts n n.recordLead.initializeIndices := by
    have hrecord : Posts n n.recordLead := .of_eq rfl rfl rfl rfl rfl rfl
    refine hrecord.trans (posts_foldl (fun m i => ?_) _ _)
    refine Posts.trans ?_ (preHbSetup_posts _ i)
    exact .of_eq rfl rfl rfl rfl rfl rfl
  have hraise : Posts n { n.recordLead.initializeIndices with
      sdev.isLeader := true
      priv.candidateCounter := 0 } := hinit.trans (.of_eq rfl rfl rfl rfl rfl rfl)
  exact (hraise.trans (posts_foldl preHbSetup_posts _ _)).trans (checkPendingLogRep_posts _)

theorem nodeTransition_posts (n : Node) (state : NodeState) : Posts n (n.nodeTransition state) := by
  have hreset : Posts n n.resetVotes := .of_eq rfl rfl rfl rfl rfl rfl
  have hstop := hreset.trans (stopRole_posts n.resetVotes)
  unfold nodeTransition
  dsimp only
  split
  · exact (hstop.trans (startFollower_posts _)).trans (.of_eq rfl rfl rfl rfl rfl rfl)
  · split
    · exact hstop.trans (.of_eq rfl rfl rfl rfl rfl rfl)
    case h_2 m heq => exact (hstop.trans (startCandidate_posts heq)).trans (.of_eq rfl rfl rfl rfl rfl rfl)
  · exact (hstop.trans (startLeader_posts _)).trans (.of_eq rfl rfl rfl rfl rfl rfl)
  · exact hstop

theorem acceptLeader_posts (n : Node) (lid : Nat) (cid term : Int) :
    Posts n (n.acceptLeader lid cid term) := by
  unfold acceptLeader
  refine Posts.trans ?_ (nodeTransition_posts _ .follower)
  exact .of_eq rfl rfl rfl rfl rfl rfl

/-! ### Packets -/

theorem handleAppendRpc_posts (n : Node) (pkt : ConRecord) (lid : Nat) (rclusterId : Int) :
    Posts n (n.handleAppendRpc pkt lid rclusterId) := by
  have hlog : Posts n { n with smLog := (n.smLog.handleAppend n.priv pkt rclusterId).1 } :=
    .of_eq rfl rfl rfl rfl rfl (n.smLog.applied_handleAppend n.priv pkt rclusterId)
  have hreply : ∀ p1 success idx, Posts n
      (replyAppend { n with smLog := (n.smLog.handleAppend n.priv pkt rclusterId).1 } lid p1 success
        idx) :=
    fun _ _ _ => hlog.trans (setupLeMsg_posts _ (by decide) _ _ _ _ _)
  simp only [handleAppendRpc]
  split
  · exact hlog
  · exact hreply _ _ _
  · split
    · exact hlog
    · exact hreply _ _ _
  · exact hreply _ _ _

theorem replyVote_posts (n : Node) (lid : Nat) (rclusterId p1 p2 : Int) :
    Posts n (n.replyVote lid rclusterId p1 p2) :=
  (setupLeMsg_posts n (by decide) lid p1 p2 0 0).trans (.of_eq rfl rfl rfl rfl rfl rfl)

theorem checkHandleNomination_posts (n : Node) (p1 p3 p4 : Nat) (rclusterId : Int) :
    Posts n (n.checkHandleNomination p1 p3 p4 rclusterId).1 := by
  simp only [checkHandleNomination, catchUpTerm]
  split
  · exact .of_eq rfl rfl rfl rfl rfl rfl
  · exact Posts.refl n

theorem applyLoop_hands (log : SmLog) (rx : AsgRingBuf) (i : Int) (k : Nat) : ∃ chunks,
    (log.applyLoop rx i k).1.abstract.applied = log.abstract.applied ++ chunks ∧
      chunks.foldlM AsgRingBuf.appendRb rx = some (log.applyLoop rx i k).2 := by
  induction k generalizing log rx i with
  | zero => exact ⟨[], (List.append_nil _).symm, rfl⟩
  | succ k ih =>
    unfold SmLog.applyLoop
    split
    · exact ⟨[], (List.append_nil _).symm, rfl⟩
    case h_2 rx' heq =>
      obtain ⟨chunks, happlied, hring⟩ := ih (log.applied i) rx' (i + 1)
      have hone : (log.applied i).abstract.applied =
          log.abstract.applied ++ [(log.entry i).dataChunk] := rfl
      refine ⟨(log.entry i).dataChunk :: chunks, ?_, ?_⟩
      · rw [happlied, hone, List.append_assoc, List.singleton_append]
      · rw [List.foldlM_cons, heq]
        exact hring

theorem commitLog_hands (n : Node) (idx : Int) : HandsOver n (n.commitLog idx) := by
  unfold commitLog SmLog.commitLog
  split
  · split
    · exact .of_eq rfl rfl
    · exact applyLoop_hands { n.smLog with commitIdx := idx } n.rxbuf _ _
  · exact .of_eq rfl rfl

theorem commitLog_posts (n : Node) (idx : Int) : Posts n (n.commitLog idx) :=
  ⟨rfl, rfl, fun _ => rfl, ⟨[], rfl, fun _ _ hmem => absurd hmem List.not_mem_nil⟩,
    n.commitLog_hands idx⟩

theorem followerProcessPkt_posts (n : Node) (lid : Nat) (rclusterId : Int) (pkt : ConRecord) :
    Posts n (n.followerProcessPkt lid rclusterId pkt) := by
  unfold followerProcessPkt
  dsimp only
  split
  · have hcheck := checkHandleNomination_posts n pkt.param1.toNat pkt.param3.toNat pkt.param4.toNat
      rclusterId
    split
    case h_1 m heq =>
      rw [heq] at hcheck
      exact hcheck.trans (replyVote_posts m _ _ _ _)
    case h_2 m heq =>
      rw [heq] at hcheck
      exact hcheck
  · have haccept : Posts n (if asI32 pkt.param1 > n.priv.term then
        n.acceptLeader lid rclusterId (asI32 pkt.param1) else n) := by
      split
      · exact acceptLeader_posts n _ _ _
      · exact Posts.refl n
    revert haccept
    generalize (if asI32 pkt.param1 > n.priv.term then n.acceptLeader lid rclusterId (asI32 pkt.param1)
      else n) = m
    intro haccept
    split
    · exact haccept.trans (commitLog_posts m _)
    · exact haccept
  · split_ifs
    · exact Posts.refl n
    · exact (acceptLeader_posts n _ _ _).trans (handleAppendRpc_posts _ _ _ _)
    · exact (handleAppendRpc_posts _ _ _ _).trans (commitLog_posts _ _)
    · exact Posts.refl n
  · exact Posts.refl n

theorem acceptVote_posts (n : Node) (lid : Nat) : Posts n (n.acceptVote lid) := by
  unfold acceptVote
  dsimp only
  split
  · refine (Posts.trans ?_ (nodeTransition_posts _ .leader)).trans (.of_eq rfl rfl rfl rfl rfl rfl)
    exact .of_eq rfl rfl rfl rfl rfl rfl
  · exact .of_eq rfl rfl rfl rfl rfl rfl

theorem candidateProcessPkt_posts (n : Node) (lid : Nat) (rclusterId : Int) (pkt : ConRecord) :
    Posts n (n.candidateProcessPkt lid rclusterId pkt) := by
  unfold candidateProcessPkt
  dsimp only
  split
  · exact acceptVote_posts n lid
  · have hcheck := checkHandleNomination_posts n pkt.param1.toNat pkt.param3.toNat pkt.param4.toNat
      rclusterId
    split
    case h_1 m heq =>
      rw [heq] at hcheck
      exact (hcheck.trans (nodeTransition_posts m .follower)).trans (replyVote_posts _ _ _ _ _)
    case h_2 m heq =>
      rw [heq] at hcheck
      exact hcheck
  · split
    · exact acceptLeader_posts n _ _ _
    · exact Posts.refl n
  · split_ifs
    · exact Posts.refl n
    · exact handleAppendRpc_posts n _ _ _
    · exact Posts.refl n
  · exact Posts.refl n

theorem updateCommitIdx_posts (n : Node) : Posts n n.updateCommitIdx := by
  rcases n.updateCommitIdx_cases with heq | ⟨N, heq, -⟩
  · rw [heq]
    exact Posts.refl n
  · rw [heq]
    exact .of_eq rfl rfl rfl rfl rfl (n.smLog.applied_leaderCommit N)

theorem leaderProcessAppendReply_posts (n : Node) (lid : Nat) (pkt : ConRecord) :
    Posts n (n.leaderProcessAppendReply lid pkt) := by
  unfold leaderProcessAppendReply
  dsimp only
  split
  · split
    · exact Posts.refl n
    · refine Posts.trans ?_ (updateCommitIdx_posts _)
      exact .of_eq rfl rfl rfl rfl rfl rfl
  split
  · split
    · exact Posts.refl n
    split
    · exact Posts.refl n
    · refine Posts.trans ?_ (checkPendingLogRep_posts _)
      simp only [queueRetransmission]
      split
      · exact Posts.refl n
      · exact .of_eq rfl rfl rfl rfl rfl rfl
  split
  · split
    · exact Posts.refl n
    · exact .of_eq rfl rfl rfl rfl rfl rfl
  · exact Posts.refl n

theorem leaderProcessPkt_posts (n : Node) (lid : Nat) (rclusterId : Int) (pkt : ConRecord) :
    Posts n (n.leaderProcessPkt lid rclusterId pkt) := by
  unfold leaderProcessPkt
  split
  · exact leaderProcessAppendReply_posts n lid pkt
  · split
    · exact acceptLeader_posts n _ _ _
    · exact Posts.refl n
  · exact Posts.refl n

theorem consensusPostPayload_posts (n : Node) (lid : Nat) (rclusterId : Int) (pkt : ConRecord) :
    Posts n (n.consensusPostPayload lid rclusterId pkt) := by
  unfold consensusPostPayload
  split
  · exact Posts.refl n
  split
  · exact followerProcessPkt_posts n _ _ _
  · exact candidateProcessPkt_posts n _ _ _
  · exact leaderProcessPkt_posts n _ _ _
  · exact Posts.refl n

theorem noteVote_posts (n : Node) (lid : Nat) (pkt : ConRecord) : Posts n (n.noteVote lid pkt) := by
  obtain ⟨voters, heq, -⟩ := n.noteVote_eq lid pkt
  rw [heq]
  exact .of_eq rfl rfl rfl rfl rfl rfl

/-! ### Pacemaker -/

theorem updateLeader_posts (n : Node) : Posts n n.updateLeader := by
  unfold updateLeader
  split_ifs
  · exact Posts.refl n
  · exact .of_eq rfl rfl rfl rfl rfl rfl
  · exact nodeTransition_posts n _
  · exact Posts.refl n
  · exact Posts.refl n

/-- The part of `tick` behind the heartbeat. -/
theorem tick_eq (n : Node) (h : n.sdev.pmState = .emitting) :
    n.tick = checkPendingLogRep (if n.heartbeat.priv.nstate ≠ .leader then n.heartbeat.updateLeader
      else n.heartbeat) :=
  if_neg (not_not.mpr h)

theorem tick_posts_heartbeat (n : Node) (h : n.sdev.pmState = .emitting) :
    Posts n.heartbeat n.tick := by
  rw [tick_eq n h]
  refine Posts.trans ?_ (checkPendingLogRep_posts _)
  split
  · exact updateLeader_posts _
  · exact Posts.refl _

theorem tick_posts (n : Node) : Posts n n.tick := by
  by_cases h : n.sdev.pmState = .emitting
  · exact (heartbeat_posts n).trans (tick_posts_heartbeat n h)
  · rw [tick, if_pos h]
    exact Posts.refl n

theorem consensusStart_posts (n : Node) : Posts n n.consensusStart := by
  unfold consensusStart
  split
  · exact Posts.refl n
  · refine Posts.trans ?_ (nodeTransition_posts _ .follower)
    exact .of_eq rfl rfl rfl rfl rfl rfl

theorem consensusStop_posts (n : Node) : Posts n n.consensusStop := by
  unfold consensusStop
  split
  · exact Posts.refl n
  · exact (stopRole_posts n).trans (.of_eq rfl rfl rfl rfl rfl rfl)

theorem finishWarmup_posts (n : Node) : Posts n n.finishWarmup := by
  have hwarm : Posts n { n.consensusStart with sdev.warmupState := .warmedUp } :=
    (consensusStart_posts n).trans (.of_eq rfl rfl rfl rfl rfl rfl)
  exact hwarm.trans (updateLeader_posts _)

theorem checkWarmupState_posts (n : Node) : Posts n n.checkWarmupState.1 := by
  unfold checkWarmupState
  split_ifs
  · exact Posts.refl n
  · exact Posts.refl n
  · exact finishWarmup_posts n
  · exact Posts.refl n

theorem doPostPayload_posts (n : Node) (lid ts : Nat) : Posts n (n.doPostPayload lid ts) := by
  unfold doPostPayload
  split
  · exact Posts.refl n
  · refine Posts.trans ?_ (checkWarmupState_posts _)
    exact .of_eq rfl rfl rfl rfl rfl rfl

/-! ### Runs -/

/-- Only a write to the configuration changes `max_entries_per_pkt`, and only the work of a leader in
unicast mode sends an APPEND to a single target. -/
structure Posting (n : Node) : Prop where
  maxEntriesPerPkt : n.priv.maxEntriesPerPkt ≤ maxAeEntriesPerPkt
  leaderWq : n.sdev.multicastEnable = true → n.leaderWq = []
  fits : ∀ dest pkt, (dest, some pkt) ∈ n.sent → pkt.opcodeVal = some .append → n.Fits dest pkt

theorem Posting.of_posts (hn : n.Posting) (h : Posts n n') : n'.Posting := by
  constructor
  · exact h.maxEntriesPerPkt ▸ hn.maxEntriesPerPkt
  · intro hmulticast
    have hbefore := h.multicastEnable.symm.trans hmulticast
    exact (h.leaderWq hbefore).trans (hn.leaderWq hbefore)
  · obtain ⟨fresh, hsent, hfits⟩ := h.sends
    intro dest pkt hmem hop
    rw [hsent] at hmem
    refine Fits.congr ?_ h.maxEntriesPerPkt h.multicastEnable
    rcases List.mem_append.mp hmem with hnew | hold
    · exact hfits dest pkt hnew hop
    · exact hn.fits dest pkt hold hop

theorem posting_init (c : Config) (u : Uninit) : (consensusInit c u).Posting :=
  ⟨le_rfl, fun _ => rfl, fun _ _ hmem => absurd hmem List.not_mem_nil⟩

/-- Every step posts, but a write to the configuration and what user space does to the ring. -/
theorem step_posts (hn : n.Posting) {e : Event} (huser : ∀ rxbuf, e ≠ .user rxbuf)
    (hconfig : ∀ maxEntriesPerPkt, e ≠ .leConfig maxEntriesPerPkt) : Posts n (n.step e) := by
  cases e with
  | rx lid ts =>
    change Posts n (if lid < n.numOfTargets then n.doPostPayload lid ts else n)
    split
    · exact doPostPayload_posts n lid ts
    · exact Posts.refl n
  | handle lid pkt =>
    change Posts n (if lid < n.numOfTargets then
      (n.noteVote lid pkt).consensusPostPayload lid (n.rclusterId lid) pkt else n)
    split
    · exact (noteVote_posts n lid pkt).trans (consensusPostPayload_posts _ _ _ _)
    · exact Posts.refl n
  | tick => exact tick_posts n
  | request chunks => exact testcaseTimer_posts n chunks
  | oneShot chunks => exact testcaseOneShotBigLog_posts n chunks
  | work k =>
    simp only [step]
    split
    case h_1 work hk =>
      have hunicast : n.sdev.multicastEnable = false := by
        by_contra hmulticast
        have hempty := hn.leaderWq (Bool.not_eq_false _ ▸ hmulticast)
        rw [hempty] at hk
        cases hk
      have htaken : Posts n { n with leaderWq := n.leaderWq.eraseIdx k } :=
        ⟨rfl, rfl, fun hmulticast => absurd (hunicast.symm.trans hmulticast) Bool.false_ne_true,
          ⟨[], rfl, fun _ _ hmem => absurd hmem List.not_mem_nil⟩, .of_eq rfl rfl⟩
      exact htaken.trans
        (prepareLogReplication_posts { n with leaderWq := n.leaderWq.eraseIdx k } hunicast work)
    · exact Posts.refl n
  | user rxbuf => exact absurd rfl (huser rxbuf)
  | leConfig maxEntriesPerPkt => exact absurd rfl (hconfig maxEntriesPerPkt)
  | pmStart =>
    simp only [step, preparePmLoop]
    split
    · exact Posts.refl n
    · exact .of_eq rfl rfl rfl rfl rfl rfl
  | pmStop => exact (consensusStop_posts n).trans (.of_eq rfl rfl rfl rfl rfl rfl)
  | pmHalt => exact .of_eq rfl rfl rfl rfl rfl rfl
  | pmFail => exact .of_eq rfl rfl rfl rfl rfl rfl
  | start => exact consensusStart_posts n
  | stop => exact consensusStop_posts n

theorem step_posting (e : Event) (hn : n.Posting) : (n.step e).Posting := by
  cases e with
  | user rxbuf =>
    exact ⟨hn.maxEntriesPerPkt, hn.leaderWq, fun dest pkt hmem hop =>
      (hn.fits dest pkt hmem hop).congr rfl rfl⟩
  | leConfig maxEntriesPerPkt =>
    simp only [step, leConfigWrite]
    split
    case isTrue h =>
      refine ⟨h.2, hn.leaderWq, fun dest pkt hmem hop => ⟨(hn.fits dest pkt hmem hop).dest_eq, fun _ => ?_⟩⟩
      exact (hn.fits dest pkt hmem hop).numEntries_le hn.maxEntriesPerPkt
    · exact hn
  | _ => exact hn.of_posts (step_posts hn (by simp) (by simp))

/-- Whatever the node does, the ring gets the commands it applies. -/
theorem step_handsOver (hn : n.Posting) {e : Event} (huser : ∀ rxbuf, e ≠ .user rxbuf) :
    HandsOver n (n.step e) := by
  by_cases hconfig : ∃ maxEntriesPerPkt, e = .leConfig maxEntriesPerPkt
  · obtain ⟨maxEntriesPerPkt, rfl⟩ := hconfig
    simp only [step, leConfigWrite]
    split <;> exact .of_eq rfl rfl
  · exact (step_posts hn huser fun _ heq => hconfig ⟨_, heq⟩).handsOver

theorem Act.sent_eq {s : Node} {e : Event} (h : Act s e m n') :
    ∃ fresh, n'.sent = fresh ++ m.sent := by
  cases h with
  | quiet h => exact ⟨[], h.sent⟩
  | emit _ dest record => exact ⟨[(dest, record)], rfl⟩
  | grant _ lid pkt => exact ⟨[(.target lid, _)], rfl⟩
  | multicast _ num pkt => exact ⟨[(.multicast, some pkt)], rfl⟩
  | noteVote lid pkt =>
    obtain ⟨voters, heq, -⟩ := m.noteVote_eq lid pkt
    exact ⟨[], by rw [heq]; rfl⟩
  | leaderCommit =>
    obtain ⟨log, heq⟩ := m.updateCommitIdx_eq
    exact ⟨[], by rw [heq]; rfl⟩
  | _ => exact ⟨[], rfl⟩

/-- What was sent stays on record. -/
theorem step_sent (n : Node) (e : Event) : ∃ fresh, (n.step e).sent = fresh ++ n.sent := by
  refine Run.preserved_of_moves (I := fun m => ∃ fresh, m.sent = fresh ++ n.sent) ?_ (step_acts n e)
    ⟨[], rfl⟩
  rintro m m' hact ⟨fresh, hfresh⟩
  obtain ⟨more, hmore⟩ := hact.sent_eq
  exact ⟨more ++ fresh, by rw [hmore, hfresh, List.append_assoc]⟩

end Node

end XlaneLkm
