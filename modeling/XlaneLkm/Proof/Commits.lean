import XlaneLkm.Proof.Gaps
import XlaneLkm.Proof.LeaderChange

/-!
# When a follower commits

Commit indices come in ALIVE and APPEND messages. `commit_log` has its own gate, `stable_idx`, and
does not know what the rest of the handler made of the message: whether an ALIVE came from the leader,
or whether the commands of an APPEND were taken.
-/

namespace XlaneLkm

open MachineInt

namespace SmLog

variable {log : SmLog}

/-- `commit_log` takes the index: it is new, and stable in unicast mode. -/
def takesCommitIdx (log : SmLog) (multicastEnable : Bool) (commitIdx : Int) : Prop :=
  log.commitIdx < commitIdx ∧ (multicastEnable = false → commitIdx ≤ log.stableIdx)

instance (log : SmLog) (multicastEnable : Bool) (commitIdx : Int) :
    Decidable (log.takesCommitIdx multicastEnable commitIdx) :=
  inferInstanceAs (Decidable (_ ∧ _))

theorem commitLog_of_takes {multicastEnable : Bool} {commitIdx : Int}
    (h : log.takesCommitIdx multicastEnable commitIdx) (rx : AsgRingBuf) :
    log.commitLog rx multicastEnable commitIdx = applyLogToSm { log with commitIdx := commitIdx } rx := by
  rw [commitLog, if_pos h.1, if_neg]
  rintro ⟨hunicast, hgt⟩
  exact absurd (h.2 hunicast) (not_le.mpr hgt)

theorem commitLog_of_not_takes {multicastEnable : Bool} {commitIdx : Int}
    (h : ¬log.takesCommitIdx multicastEnable commitIdx) (rx : AsgRingBuf) :
    log.commitLog rx multicastEnable commitIdx = (log, rx) := by
  rw [commitLog]
  split
  case isTrue hnew =>
    refine if_pos ?_
    by_contra hgate
    refine h ⟨hnew, fun hunicast => ?_⟩
    by_contra hgt
    exact hgate ⟨hunicast, not_le.mp hgt⟩
  case isFalse => rfl

/-- `apply_log_to_sm` moves `last_applied` up to `commit_idx` at most, and clears valid flags. -/
theorem applyLogToSm_frame (log : SmLog) (rx : AsgRingBuf) :
    (log.applyLogToSm rx).1.commitIdx = log.commitIdx ∧
      (log.applyLogToSm rx).1.stableIdx = log.stableIdx ∧
      (log.applyLogToSm rx).1.lastIdx = log.lastIdx ∧
      SameCommands log.entries (log.applyLogToSm rx).1.entries ∧
      log.lastApplied ≤ (log.applyLogToSm rx).1.lastApplied ∧
      (log.lastApplied ≤ log.commitIdx → (log.applyLogToSm rx).1.lastApplied ≤ log.commitIdx) := by
  by_cases hle : log.lastApplied ≤ log.commitIdx
  · have h := applyLoop_preserves (I := fun l => l.commitIdx = log.commitIdx ∧
      l.stableIdx = log.stableIdx ∧ l.lastIdx = log.lastIdx ∧ SameCommands log.entries l.entries ∧
      log.lastApplied ≤ l.lastApplied ∧ l.lastApplied ≤ log.commitIdx) ?_ log rx
      (log.commitIdx - log.lastApplied).toNat (by omega)
      ⟨rfl, rfl, rfl, fun _ => ⟨rfl, rfl⟩, le_rfl, hle⟩
    · obtain ⟨hcommit, hstable, hlast, hsame, hlow, hhigh⟩ := h
      exact ⟨hcommit, hstable, hlast, hsame, hlow, fun _ => hhigh⟩
    · rintro l hlt ⟨hcommit, hstable, hlast, hsame, hlow, hhigh⟩
      have hone := l.invalidate_sameCommands (l.lastApplied + 1)
      refine ⟨hcommit, hstable, hlast, ?_, hlow.trans (Int.le_add_one le_rfl), ?_⟩
      · exact fun k => ⟨(hone k).1.trans (hsame k).1, (hone k).2.trans (hsame k).2⟩
      · exact hcommit ▸ hlt
  · rw [applyLogToSm, show (log.commitIdx - log.lastApplied).toNat = 0 by omega]
    exact ⟨rfl, rfl, rfl, fun _ => ⟨rfl, rfl⟩, le_rfl, fun h => absurd h hle⟩

theorem commitLog_commitIdx (log : SmLog) (rx : AsgRingBuf) (multicastEnable : Bool)
    (commitIdx : Int) : (log.commitLog rx multicastEnable commitIdx).1.commitIdx =
      if log.takesCommitIdx multicastEnable commitIdx then commitIdx else log.commitIdx := by
  split
  case isTrue h =>
    rw [commitLog_of_takes h]
    exact (applyLogToSm_frame { log with commitIdx := commitIdx } rx).1
  case isFalse h => rw [commitLog_of_not_takes h]

theorem handleAppend_commitIdx (log : SmLog) (priv : ConsensusPriv) (pkt : ConRecord)
    (rclusterId : Int) : (log.handleAppend priv pkt rclusterId).1.commitIdx = log.commitIdx := by
  by_cases hnum : pkt.numEntries.toNat = 0
  · simp only [handleAppend, if_pos hnum]
  by_cases hpasses : log.passesAppend pkt
  · rw [handleAppend_of_passes priv rclusterId hnum hpasses]
    exact (log.receives priv pkt rclusterId).commitIdx
  · rw [handleAppend_of_not_passes priv rclusterId hnum hpasses]

end SmLog

namespace Node

/-! ### On whose authority -/

/-- If the packet changes `commit_idx`, its sender is the accepted leader and its term the present
one. -/
def CommitsForLeader (n : Node) (lid : Nat) (rclusterId : Int) (pkt : ConRecord) : Prop :=
  (n.followerProcessPkt lid rclusterId pkt).smLog.commitIdx ≠ n.smLog.commitIdx →
    (n.followerProcessPkt lid rclusterId pkt).priv.leaderId = u32 rclusterId ∧
      asI32 pkt.param1 = (n.followerProcessPkt lid rclusterId pkt).priv.term

/-- An ALIVE of the present term, from a node other than the leader, with a commit index that
`commit_log` takes. -/
def takesForeignCommit (n : Node) (rclusterId : Int) (pkt : ConRecord) : Prop :=
  pkt.opcodeVal = some .alive ∧ asI32 pkt.param1 = n.priv.term ∧ asI32 pkt.param2 ≠ -1 ∧
    n.priv.leaderId ≠ u32 rclusterId ∧
    n.smLog.takesCommitIdx n.sdev.multicastEnable (asI32 pkt.param2)

instance (n : Node) (rclusterId : Int) (pkt : ConRecord) :
    Decidable (n.takesForeignCommit rclusterId pkt) :=
  inferInstanceAs (Decidable (_ ∧ _ ∧ _))

theorem handleAppendRpc_commitIdx (n : Node) (pkt : ConRecord) (lid : Nat) (rclusterId : Int) :
    (n.handleAppendRpc pkt lid rclusterId).smLog.commitIdx = n.smLog.commitIdx := by
  obtain ⟨sent, heq⟩ := n.handleAppendRpc_eq pkt lid rclusterId
  rw [heq]
  exact n.smLog.handleAppend_commitIdx n.priv pkt rclusterId

theorem checkHandleNomination_smLog (n : Node) (param1 param3 param4 : Nat) (rclusterId : Int) :
    (n.checkHandleNomination param1 param3 param4 rclusterId).1.smLog = n.smLog := by
  simp only [checkHandleNomination, catchUpTerm]
  split
  · rfl
  · rfl

section Opcodes

variable {n : Node} {lid : Nat} {rclusterId : Int} {pkt : ConRecord}

theorem commitIdx_of_nomi (hop : pkt.opcodeVal = some .nomi) :
    (n.followerProcessPkt lid rclusterId pkt).smLog.commitIdx = n.smLog.commitIdx := by
  have hlog := n.checkHandleNomination_smLog pkt.param1.toNat pkt.param3.toNat pkt.param4.toNat
    rclusterId
  simp only [followerProcessPkt, hop]
  split
  case h_1 m hcheck =>
    rw [hcheck] at hlog
    exact congrArg SmLog.commitIdx hlog
  case h_2 m hcheck =>
    rw [hcheck] at hlog
    exact congrArg SmLog.commitIdx hlog

/-- The handler of APPEND messages looks at their sender before it commits. -/
theorem commitsForLeader_of_append (hop : pkt.opcodeVal = some .append) :
    n.CommitsForLeader lid rclusterId pkt := by
  simp only [CommitsForLeader, followerProcessPkt, hop]
  split
  case isTrue => exact fun h => absurd rfl h
  case isFalse hleader =>
  split
  case isTrue hnew =>
    rw [handleAppendRpc_commitIdx, acceptLeader_smLog]
    exact fun h => absurd rfl h
  case isFalse =>
  split
  case isTrue hterm =>
    obtain ⟨sent, heq⟩ := n.handleAppendRpc_eq pkt lid rclusterId
    rw [heq]
    exact fun _ => ⟨not_not.mp hleader, hterm⟩
  case isFalse => exact fun h => absurd rfl h

theorem commitsForLeader_of_newer (hop : pkt.opcodeVal = some .alive)
    (hnew : asI32 pkt.param1 > n.priv.term) : n.CommitsForLeader lid rclusterId pkt := by
  obtain ⟨-, hleader, hterm⟩ := n.acceptLeader_priv lid rclusterId (asI32 pkt.param1)
  simp only [CommitsForLeader, followerProcessPkt, hop, if_pos hnew]
  split
  · exact fun _ => ⟨hleader, hterm.symm⟩
  · exact fun _ => ⟨hleader, hterm.symm⟩

/-- An ALIVE that does not make its sender the leader hands its commit index to `commit_log`, whoever
sent it. -/
theorem commitsForLeader_alive_iff (hop : pkt.opcodeVal = some .alive)
    (hold : ¬asI32 pkt.param1 > n.priv.term) :
    n.CommitsForLeader lid rclusterId pkt ↔ ¬n.takesForeignCommit rclusterId pkt := by
  simp only [CommitsForLeader, takesForeignCommit, followerProcessPkt, hop, if_neg hold, true_and]
  by_cases hcommits : asI32 pkt.param1 = n.priv.term ∧ asI32 pkt.param2 ≠ -1
  · rw [if_pos hcommits]
    have hcommit := n.smLog.commitLog_commitIdx n.rxbuf n.sdev.multicastEnable (asI32 pkt.param2)
    change ((n.smLog.commitLog n.rxbuf n.sdev.multicastEnable (asI32 pkt.param2)).1.commitIdx ≠
      n.smLog.commitIdx → n.priv.leaderId = u32 rclusterId ∧ asI32 pkt.param1 = n.priv.term) ↔ _
    rw [hcommit]
    by_cases htakes : n.smLog.takesCommitIdx n.sdev.multicastEnable (asI32 pkt.param2)
    · rw [if_pos htakes]
      constructor
      · rintro hleader ⟨-, -, hother, -⟩
        exact hother (hleader htakes.1.ne').1
      · intro hnone _
        refine ⟨?_, hcommits.1⟩
        by_contra hother
        exact hnone ⟨hcommits.1, hcommits.2, hother, htakes⟩
    · rw [if_neg htakes]
      exact iff_of_true (fun h => absurd rfl h) fun h => htakes h.2.2.2
  · rw [if_neg hcommits]
    exact iff_of_true (fun h => absurd rfl h) fun h => hcommits ⟨h.1, h.2.1⟩

end Opcodes

/-- **Who makes a follower commit.** Everything but ALIVE messages of other nodes is on the leader's
authority. -/
theorem commits_for_leader_iff (n : Node) (lid : Nat) (rclusterId : Int) (pkt : ConRecord) :
    n.CommitsForLeader lid rclusterId pkt ↔ ¬n.takesForeignCommit rclusterId pkt := by
  by_cases halive : pkt.opcodeVal = some .alive
  · by_cases hnew : asI32 pkt.param1 > n.priv.term
    · exact iff_of_true (commitsForLeader_of_newer halive hnew) fun h => hnew.ne' h.2.1
    · exact commitsForLeader_alive_iff halive hnew
  · refine iff_of_true ?_ fun h => halive h.1
    by_cases happend : pkt.opcodeVal = some .append
    · exact commitsForLeader_of_append happend
    refine fun hchanged => absurd ?_ hchanged
    by_cases hnomi : pkt.opcodeVal = some .nomi
    · exact commitIdx_of_nomi hnomi
    · unfold followerProcessPkt
      split
      case h_1 hop => exact absurd hop hnomi
      case h_2 hop => exact absurd hop halive
      case h_3 hop => exact absurd hop happend
      case h_4 => rfl

/-- Node 1 is the leader of term 1; node 2 says it leads the same term, and has committed index 0. -/
def leaderOfSameTerm : List Event := hasLeader ++
  [.handle 0 (sampleAppend 1 1 (-1) 1 (-1) (sampleChunk 7))]

theorem commit_of_other_node :
    ¬ ∀ (n : Node) (lid : Nat) (rclusterId : Int) (pkt : ConRecord),
      n.CommitsForLeader lid rclusterId pkt := by
  intro h
  have hleader := h (run (consensusInit (smallConfig 3 [1, 2]) zeroUninit) leaderOfSameTerm) 1 2
    (setLeOpcode .alive 1 0 (-1) 0)
  revert hleader
  unfold CommitsForLeader
  decide

/-! ### After a rejection -/

/-- An APPEND of the leader in the present term that is turned down: it comes too late, does not match
the log, or `append_commands` fails, which it does after it has stored the commands when the last index
is INT_MAX. -/
structure RejectsAppend (n : Node) (rclusterId : Int) (pkt : ConRecord) : Prop where
  opcode : pkt.opcodeVal = some .append
  leader : n.priv.leaderId = u32 rclusterId
  term : asI32 pkt.param1 = n.priv.term
  entries : pkt.numEntries.toNat ≠ 0
  fails : ¬n.smLog.passesAppend pkt ∨ pkt.newLast = 2147483647

/-- The log that `commit_log` then gets. -/
theorem RejectsAppend.handled {n : Node} {rclusterId : Int} {pkt : ConRecord}
    (h : n.RejectsAppend rclusterId pkt) :
    let log' := (n.smLog.handleAppend n.priv pkt rclusterId).1
    log'.commitIdx = n.smLog.commitIdx ∧ log'.lastApplied = n.smLog.lastApplied ∧
      log'.stableIdx = n.smLog.stableIdx ∧ (¬n.smLog.passesAppend pkt → log' = n.smLog) := by
  intro log'
  by_cases hpasses : n.smLog.passesAppend pkt
  · have hwraps := h.fails.resolve_left (not_not.mpr hpasses)
    have hstored : log' =
        n.smLog.storeRange pkt.entries n.priv.term pkt.startIdx pkt.count :=
      (congrArg Prod.fst (SmLog.handleAppend_of_passes n.priv rclusterId h.entries hpasses)).trans
        (if_pos hwraps)
    rw [hstored]
    exact ⟨SmLog.storeRange_commitIdx .., SmLog.storeRange_lastApplied ..,
      SmLog.storeRange_stableIdx .., fun hnot => absurd hpasses hnot⟩
  · have hsame : log' = n.smLog :=
      congrArg Prod.fst (SmLog.handleAppend_of_not_passes n.priv rclusterId h.entries hpasses)
    exact ⟨congrArg SmLog.commitIdx hsame, congrArg SmLog.lastApplied hsame,
      congrArg SmLog.stableIdx hsame, fun _ => hsame⟩

theorem RejectsAppend.commitLog {n : Node} {rclusterId : Int} {pkt : ConRecord}
    (h : n.RejectsAppend rclusterId pkt) (lid : Nat) :
    (n.followerProcessPkt lid rclusterId pkt).smLog =
      ((n.smLog.handleAppend n.priv pkt rclusterId).1.commitLog n.rxbuf n.sdev.multicastEnable
        (asI32 pkt.leaderCommitIdx)).1 := by
  obtain ⟨sent, heq⟩ := n.handleAppendRpc_eq pkt lid rclusterId
  simp only [followerProcessPkt, h.opcode, h.leader, h.term, ne_eq, not_true_eq_false, if_false,
    gt_iff_lt, lt_irrefl, if_true, heq, Node.commitLog]

/-- **Commits of a rejected APPEND.** Both commit indices stay as they are exactly if the packet's commit
index is not new or not stable. Else it is the new `commit_idx`, and `last_applied` moves up to it at
most. Nothing is stored unless the last index is INT_MAX. -/
theorem commits_of_rejected_append (n : Node) (hunicast : n.sdev.multicastEnable = false) (lid : Nat)
    (rclusterId : Int) (pkt : ConRecord) (hrejects : n.RejectsAppend rclusterId pkt) :
    let after := (n.followerProcessPkt lid rclusterId pkt).smLog
    let commitIdx := asI32 pkt.leaderCommitIdx
    (after.commitIdx = n.smLog.commitIdx ∧ after.lastApplied = n.smLog.lastApplied ↔
      ¬(n.smLog.commitIdx < commitIdx ∧ commitIdx ≤ n.smLog.stableIdx)) ∧
    (n.smLog.commitIdx < commitIdx → commitIdx ≤ n.smLog.stableIdx →
      after.commitIdx = commitIdx ∧ n.smLog.lastApplied ≤ after.lastApplied ∧
        (n.smLog.lastApplied ≤ commitIdx → after.lastApplied ≤ commitIdx)) ∧
    after.stableIdx = n.smLog.stableIdx ∧
    (¬n.smLog.passesAppend pkt → after.lastIdx = n.smLog.lastIdx ∧
      SmLog.SameCommands n.smLog.entries after.entries) := by
  intro after commitIdx
  obtain ⟨hcommit₀, happlied₀, hstable₀, hstored⟩ := hrejects.handled
  have hafter : after = ((n.smLog.handleAppend n.priv pkt rclusterId).1.commitLog n.rxbuf false
      commitIdx).1 := by
    rw [← hunicast]
    exact hrejects.commitLog lid
  generalize (n.smLog.handleAppend n.priv pkt rclusterId).1 = log' at *
  rw [← hcommit₀, ← happlied₀, ← hstable₀]
  by_cases htakes : log'.takesCommitIdx false commitIdx
  · rw [SmLog.commitLog_of_takes htakes] at hafter
    obtain ⟨hcommit, hstable, hlast, hsame, hlow, hhigh⟩ :=
      SmLog.applyLogToSm_frame { log' with commitIdx := commitIdx } n.rxbuf
    rw [← hafter] at hcommit hstable hlast hsame hlow hhigh
    refine ⟨iff_of_false ?_ ?_, fun _ _ => ⟨hcommit, hlow, hhigh⟩, hstable, fun hfails => ?_⟩
    · rintro ⟨hsame, -⟩
      exact absurd (hsame.symm.trans hcommit) htakes.1.ne
    · exact not_not.mpr ⟨htakes.1, htakes.2 rfl⟩
    · rw [← hstored hfails]
      exact ⟨hlast, hsame⟩
  · rw [SmLog.commitLog_of_not_takes htakes] at hafter
    rw [hafter]
    refine ⟨iff_of_true ⟨rfl, rfl⟩ ?_, ?_, rfl, fun hfails => ?_⟩
    · exact fun h => htakes ⟨h.1, fun _ => h.2⟩
    · exact fun hnew hstable => absurd ⟨hnew, fun _ => hstable⟩ htakes
    · rw [hstored hfails]
      exact ⟨rfl, fun _ => ⟨rfl, rfl⟩⟩

/-- A follower with index 0 stable, and an APPEND of its leader that does not match it and says that
index 0 is committed. -/
def mismatchingAppend : ConRecord := sampleAppend 1 1 0 5 0 (sampleChunk 8)

theorem mismatchingAppend_rejected :
    (run (consensusInit (smallConfig 3 [1, 2]) zeroUninit) leaderOfSameTerm).RejectsAppend 1
      mismatchingAppend where
  opcode := by decide
  leader := by decide
  term := by decide
  entries := by decide
  fails := .inl (by decide)

theorem commits_of_rejected_append_mismatching :
    let n := run (consensusInit (smallConfig 3 [1, 2]) zeroUninit) leaderOfSameTerm
    let after := (n.followerProcessPkt 0 1 mismatchingAppend).smLog
    (after.commitIdx = n.smLog.commitIdx ∧ after.lastApplied = n.smLog.lastApplied ↔
      ¬(n.smLog.commitIdx < 0 ∧ 0 ≤ n.smLog.stableIdx)) :=
  (commits_of_rejected_append _ (by decide) 0 1 mismatchingAppend mismatchingAppend_rejected).1

theorem rejected_append_commits :
    ¬ ∀ (n : Node) (lid : Nat) (rclusterId : Int) (pkt : ConRecord),
      n.sdev.multicastEnable = false → n.RejectsAppend rclusterId pkt →
      (n.followerProcessPkt lid rclusterId pkt).smLog.commitIdx = n.smLog.commitIdx ∧
        (n.followerProcessPkt lid rclusterId pkt).smLog.lastApplied = n.smLog.lastApplied := by
  intro h
  have hsame := h _ 0 1 mismatchingAppend (by decide) mismatchingAppend_rejected
  revert hsame
  decide

end Node

end XlaneLkm
