import XlaneLkm.Proof.StepActions

/-!
# What a step can do to the log

Every step of a node moves its log by the moves below, one entry or one index at a time. Invariants of
the log are proved once per move. As before, `s` is the node before the step and `e` the event.
-/

namespace XlaneLkm

open MachineInt Relation

/-- The index of the first entry of an APPEND. -/
def ConRecord.startIdx (pkt : ConRecord) : Int := i32 (pkt.prevLogIdx + 1)

namespace SmLog

/-- An APPEND passes every check between `_handle_append_rpc` and the first store, and the bound of
the loop has not wrapped around. -/
def acceptsAppend (log : SmLog) (pkt : ConRecord) : Prop :=
  pkt.numEntries.toNat ≠ 0 ∧ log.stableIdx ≤ pkt.prevLogIdx ∧
    log.checkPrevLogMatch pkt.prevLogTerm (u32 log.stableIdx) = false ∧
    i32 (i32 (i32 pkt.numEntries.toNat * aeEntrySize) + asgardProtoConAeBaseSz) ≤
      pkt.pktSize.toNat ∧
    pkt.startIdx ≤ i32 (pkt.startIdx + i32 pkt.numEntries.toNat - 1) ∧ log.commitIdx ≤ pkt.startIdx

instance (log : SmLog) (pkt : ConRecord) : Decidable (log.acceptsAppend pkt) :=
  inferInstanceAs (Decidable (_ ∧ _ ∧ _))

/-- No wrap-around: the index after a `prev_log_idx` of `INT_MAX` is below every `commit_idx`. -/
theorem acceptsAppend.startIdx {log : SmLog} {pkt : ConRecord} (h : log.acceptsAppend pkt)
    (hcommit : -1 ≤ log.commitIdx) : pkt.startIdx = pkt.prevLogIdx + 1 := by
  have hguard : log.commitIdx ≤ pkt.startIdx := h.2.2.2.2.2
  have hlow : -2147483648 ≤ pkt.prevLogIdx := le_asI32 _
  have hhigh : pkt.prevLogIdx ≤ 2147483647 := asI32_le _
  obtain ⟨_, _, k, hk⟩ := i32_spec (pkt.prevLogIdx + 1)
  simp only [ConRecord.startIdx] at hguard ⊢
  omega

end SmLog

namespace Node

/-- What `update_commit_idx` asks of an index: an entry of the present term, on every target alive. -/
def Committable (n : Node) (N : Int) : Prop :=
  (n.smLog.entry N).term = u32 n.priv.term ∧ n.isPotentialCommitIdx N = true

/-- Every target's match index is set and inside the log. -/
def allMatched (n : Node) : Prop :=
  ∀ j < n.numOfTargets, n.leaderIdx.matchIndex j ≠ -1 ∧ n.leaderIdx.matchIndex j ≤ n.smLog.lastIdx

instance (n : Node) (N : Int) : Decidable (n.Committable N) :=
  inferInstanceAs (Decidable (_ ∧ _))

instance (n : Node) : Decidable n.allMatched :=
  inferInstanceAs (Decidable (∀ j < _, _))

theorem commitCandidateLoop_spec (n : Node) {k : Nat} {i : Nat} {N M : Int}
    (h : n.commitCandidateLoop i N k = some M) :
    (M = N ∨ ∃ j < i + k, n.leaderIdx.matchIndex j = M ∧ n.Committable M) ∧
      ∀ j, i ≤ j → j < i + k →
        n.leaderIdx.matchIndex j ≠ -1 ∧ n.leaderIdx.matchIndex j ≤ n.smLog.lastIdx := by
  induction k generalizing i N with
  | zero =>
    cases h
    exact ⟨.inl rfl, fun j hij hj => by omega⟩
  | succ k ih =>
    simp only [commitCandidateLoop] at h
    split at h
    · cases h
    case isFalse hset =>
    split at h
    · cases h
    case isFalse hlast =>
    rw [show i + (k + 1) = i + 1 + k by omega]
    have hall : ∀ M', n.commitCandidateLoop (i + 1) M' k = some M → ∀ j, i ≤ j → j < i + 1 + k →
        n.leaderIdx.matchIndex j ≠ -1 ∧ n.leaderIdx.matchIndex j ≤ n.smLog.lastIdx := by
      intro M' hrest j hij hj
      rcases Nat.eq_or_lt_of_le hij with rfl | hlt
      · exact ⟨hset, by omega⟩
      · exact (ih hrest).2 j hlt hj
    split at h
    case isTrue hcandidate =>
      refine ⟨.inr ?_, hall _ h⟩
      rcases (ih h).1 with rfl | hother
      · exact ⟨i, by omega, rfl, hcandidate.1, hcandidate.2.1⟩
      · exact hother
    case isFalse => exact ⟨(ih h).1, hall _ h⟩

/-- `update_commit_idx` commits nothing, or a committable match index while all of them are set. -/
theorem updateCommitIdx_cases (n : Node) : n.updateCommitIdx = n ∨
    ∃ N, n.updateCommitIdx = { n with smLog := n.smLog.leaderCommit N } ∧
      (N = -1 ∨ n.allMatched ∧
        ∃ j < n.numOfTargets, n.leaderIdx.matchIndex j = N ∧ n.Committable N) := by
  unfold updateCommitIdx
  split
  · exact .inl rfl
  split
  · exact .inl rfl
  case h_2 N hN =>
    obtain ⟨hcases, hall⟩ := n.commitCandidateLoop_spec hN
    rw [Nat.zero_add] at hcases hall
    refine .inr ⟨N, rfl, ?_⟩
    rcases hcases with rfl | hcommittable
    · exact .inl rfl
    · exact .inr ⟨fun j hj => hall j (Nat.zero_le j) hj, hcommittable⟩

inductive LogMove (s : Node) (e : Event) : SmLog → SmLog → Prop where
  /-- `append_command` for the `j`-th entry of an APPEND. -/
  | store {log : SmLog} (lid : Nat) (pkt : ConRecord) (j : Nat) (he : e = .handle lid pkt)
      (hlid : lid < s.numOfTargets) (h : s.takesAppend lid pkt) (haccepts : s.smLog.acceptsAppend pkt)
      (hj : j < pkt.numEntries.toNat) (hle : pkt.startIdx + j ≤ 2147483647)
      (hstable : log.stableIdx = s.smLog.stableIdx) (hcommit : log.commitIdx = s.smLog.commitIdx)
      (hlast : log.lastIdx ≤ max s.smLog.lastIdx (pkt.startIdx + j - 1)) :
      LogMove s e log (log.store (pkt.entries j) (s.appendTerm pkt) (pkt.startIdx + j))
  /-- One iteration of `update_stable_idx`. -/
  | stabilise {log : SmLog} (lid : Nat) (pkt : ConRecord) (he : e = .handle lid pkt)
      (hlid : lid < s.numOfTargets) (h : s.takesAppend lid pkt) (hlast : log.stableIdx < log.lastIdx)
      (hvalid : (log.entry (log.stableIdx + 1)).valid = true) :
      LogMove s e log { log with stableIdx := log.stableIdx + 1 }
  | retransRequest {log : SmLog} (idx : Int) : LogMove s e log { log with nextRetransReqIdx := idx }
  | setCommit {log : SmLog} (lid : Nat) (pkt : ConRecord) (idx : Int) (he : e = .handle lid pkt)
      (hlid : lid < s.numOfTargets) (h : s.takesCommit lid pkt idx) (hnew : log.commitIdx < idx)
      (hstable : s.sdev.multicastEnable = false → idx ≤ log.stableIdx) :
      LogMove s e log { log with commitIdx := idx }
  | apply {log : SmLog} (h : log.lastApplied < log.commitIdx) :
      LogMove s e log (log.applied (log.lastApplied + 1))
  | request {log : SmLog} (chunk : DataChunk) (idx : Int) (hrole : s.priv.nstate = .leader)
      (hguard : log.commitIdx ≤ idx) (hle : idx ≤ 2147483647)
      (hnext : e.isOneShot = false → i32 s.smLog.lastIdx = s.smLog.lastIdx →
        -1 ≤ log.commitIdx → idx = log.lastIdx + 1)
      (hshot : ∀ chunks, e = .oneShot chunks →
        log.commitIdx ≤ 0 ∧ 0 ≤ idx ∧ chunks[idx.toNat]? = some chunk)
      (hasks : s.asksFor e idx) (hlast : log.lastIdx ≤ max s.smLog.lastIdx (idx - 1)) :
      LogMove s e log (log.store chunk s.priv.term idx)
  | leaderCommit (lid : Nat) (pkt : ConRecord) (N : Int) (he : e = .handle lid pkt)
      (hlid : lid < s.numOfTargets) (h : s.takesMatch pkt)
      (hN : N = -1 ∨ (s.recordMatch lid (asI32 pkt.param4)).allMatched ∧
        ∃ j < s.numOfTargets, (s.recordMatch lid (asI32 pkt.param4)).leaderIdx.matchIndex j = N ∧
          (s.recordMatch lid (asI32 pkt.param4)).Committable N) :
      LogMove s e s.smLog (s.smLog.leaderCommit N)
  | repair {log : SmLog} : LogMove s e log log.getLastIdxSafe
  | multicast {log : SmLog} (commitIdx : Int) (h : s.sdev.multicastEnable = true) :
      LogMove s e log { log with commitIdx := commitIdx }

abbrev LogMoves (s : Node) (e : Event) : SmLog → SmLog → Prop := ReflTransGen (LogMove s e)

variable {s : Node} {e : Event} {n n' : Node}

/-! ### Receiving an APPEND -/

section Append

variable {lid : Nat} {pkt : ConRecord}

theorem appendLoop_moves (he : e = .handle lid pkt) (hlid : lid < s.numOfTargets)
    (h : s.takesAppend lid pkt) (haccepts : s.smLog.acceptsAppend pkt) (k : Nat) (log : SmLog)
    (j : Nat) (hj : j + k ≤ pkt.numEntries.toNat)
    (hle : k ≠ 0 → pkt.startIdx + j + k - 1 ≤ 2147483647)
    (hstable : log.stableIdx = s.smLog.stableIdx) (hcommit : log.commitIdx = s.smLog.commitIdx)
    (hlast : log.lastIdx ≤ max s.smLog.lastIdx (pkt.startIdx + j - 1)) :
    LogMoves s e log (log.appendLoop pkt (s.appendTerm pkt) (pkt.startIdx + j) j k).1 := by
  induction k generalizing log j with
  | zero => exact .refl
  | succ k ih =>
    have hle := hle (Nat.succ_ne_zero k)
    have hguard : ¬log.commitIdx > pkt.startIdx + j := by
      have := haccepts.2.2.2.2.2
      omega
    simp only [SmLog.appendLoop, SmLog.appendCommand, if_neg hguard]
    refine ReflTransGen.head (.store lid pkt j he hlid h haccepts (by omega) (by omega) hstable
      hcommit hlast) ?_
    have hrest := ih (log.store (pkt.entries j) (s.appendTerm pkt) (pkt.startIdx + j)) (j + 1)
      (by omega) (fun _ => by omega) hstable hcommit (by
        simp only [SmLog.store]
        split <;> omega)
    rwa [Int.natCast_succ, ← Int.add_assoc] at hrest

theorem updateStableLoop_moves (he : e = .handle lid pkt) (hlid : lid < s.numOfTargets)
    (h : s.takesAppend lid pkt) (k : Nat) (log : SmLog) (hk : log.stableIdx + k ≤ log.lastIdx) :
    LogMoves s e log (log.updateStableLoop (log.stableIdx + 1) k) := by
  induction k generalizing log with
  | zero => exact .refl
  | succ k ih =>
    unfold SmLog.updateStableLoop
    split
    · exact .refl
    case isFalse hvalid =>
      refine ReflTransGen.head (.stabilise lid pkt he hlid h (by omega) ?_) (ih _ ?_)
      · exact Bool.not_eq_false _ ▸ hvalid
      · dsimp only
        omega

theorem updateStableIdx_moves (he : e = .handle lid pkt) (hlid : lid < s.numOfTargets)
    (h : s.takesAppend lid pkt) (log : SmLog) : LogMoves s e log log.updateStableIdx := by
  unfold SmLog.updateStableIdx
  by_cases hlast : log.stableIdx ≤ log.lastIdx
  · exact updateStableLoop_moves he hlid h _ log (by omega)
  · rw [show (log.lastIdx - log.stableIdx).toNat = 0 by omega]
    exact .refl

/-- The loop runs once per entry, or not at all because its bound has wrapped around. -/
theorem iterations_le {start : Int} {num : UInt32} (hstart : i32 start = start)
    (hnum : num.toNat ≠ 0) :
    (i32 (start + i32 num.toNat - 1) - start + 1).toNat ≤ num.toNat := by
  have hlt : num.toNat < 4294967296 := num.toNat_lt
  have hrange := i32_eq_self_iff.mp hstart
  obtain ⟨_, _, k, hk⟩ := i32_spec num.toNat
  obtain ⟨_, _, k', hk'⟩ := i32_spec (start + i32 num.toNat - 1)
  omega

theorem appendLoop_of_committed {log : SmLog} {term i : Int} {j k : Nat} (h : log.commitIdx > i) :
    (log.appendLoop pkt term i j k).1 = log := by
  cases k with
  | zero => rfl
  | succ k => simp only [SmLog.appendLoop, SmLog.appendCommand, if_pos h]

theorem appendCommands_moves (he : e = .handle lid pkt) (hlid : lid < s.numOfTargets)
    (h : s.takesAppend lid pkt) (hnum : pkt.numEntries.toNat ≠ 0)
    (hprev : s.smLog.stableIdx ≤ pkt.prevLogIdx)
    (hmatch : s.smLog.checkPrevLogMatch pkt.prevLogTerm (u32 s.smLog.stableIdx) = false)
    (unstable : Bool) :
    LogMoves s e s.smLog (s.smLog.appendCommands pkt (s.appendTerm pkt) (i32 pkt.numEntries.toNat)
      pkt.pktSize.toNat pkt.startIdx unstable).1 := by
  simp only [SmLog.appendCommands]
  split
  · exact .refl
  case isFalse hsize =>
  have hloop : LogMoves s e s.smLog (s.smLog.appendLoop pkt (s.appendTerm pkt) pkt.startIdx 0
      (i32 (pkt.startIdx + i32 pkt.numEntries.toNat - 1) - pkt.startIdx + 1).toNat).1 := by
    by_cases hwrap : i32 (pkt.startIdx + i32 pkt.numEntries.toNat - 1) < pkt.startIdx
    · rw [show (i32 (pkt.startIdx + i32 pkt.numEntries.toNat - 1) - pkt.startIdx + 1).toNat = 0 by
        omega]
      exact .refl
    by_cases hguard : s.smLog.commitIdx ≤ pkt.startIdx
    · have hiterations := iterations_le (i32_i32 (pkt.prevLogIdx + 1)) hnum
      rw [← ConRecord.startIdx] at hiterations
      have hbound := i32_le (pkt.startIdx + i32 pkt.numEntries.toNat - 1)
      have hstores := appendLoop_moves he hlid h ⟨hnum, hprev, hmatch, by omega, by omega, hguard⟩
        (i32 (pkt.startIdx + i32 pkt.numEntries.toNat - 1) - pkt.startIdx + 1).toNat s.smLog 0
        (by omega) (by omega) rfl rfl (Int.le_max_left _ _)
      rwa [Int.natCast_zero, Int.add_zero] at hstores
    · rw [appendLoop_of_committed (by omega)]
  split
  case h_1 log err heq => rw [heq] at hloop; exact hloop
  case h_2 log heq =>
    rw [heq] at hloop
    split
    · exact hloop
    cases unstable with
    | true => exact hloop
    | false => exact hloop.trans (updateStableIdx_moves he hlid h log)

theorem handleAppend_moves (he : e = .handle lid pkt) (hlid : lid < s.numOfTargets)
    (h : s.takesAppend lid pkt) {priv : ConsensusPriv} (hterm : priv.term = s.appendTerm pkt)
    (rcid : Int) : LogMoves s e s.smLog (s.smLog.handleAppend priv pkt rcid).1 := by
  simp only [SmLog.handleAppend, hterm]
  split
  · exact .refl
  case isFalse hnum =>
  split
  · exact .refl
  case isFalse hprev =>
  split
  · exact .refl
  case isFalse hmatch =>
  have hcommands := appendCommands_moves he hlid h hnum (by omega) (Bool.eq_false_iff.mpr hmatch)
    (decide (pkt.prevLogIdx > s.smLog.stableIdx ∧ pkt.prevLogTerm = u32 (s.appendTerm pkt) ∧
      priv.leaderId = u32 rcid))
  split
  case h_1 log err heq =>
    rw [ConRecord.startIdx, heq] at hcommands
    exact hcommands
  case h_2 log heq =>
    rw [ConRecord.startIdx, heq] at hcommands
    have hretrans : LogMoves s e log (log.updateNextRetransmissionRequestIdx priv.maxEntriesPerPkt) := by
      unfold SmLog.updateNextRetransmissionRequestIdx
      split
      · exact .refl
      · exact .single (.retransRequest _)
    split
    · exact hcommands.trans hretrans
    · exact hcommands.trans hretrans

/-! ### Committing -/

theorem applyLoop_moves (k : Nat) (log : SmLog) (rx : AsgRingBuf)
    (hk : log.lastApplied + k ≤ log.commitIdx) :
    LogMoves s e log (log.applyLoop rx (log.lastApplied + 1) k).1 := by
  induction k generalizing log rx with
  | zero => exact .refl
  | succ k ih =>
    unfold SmLog.applyLoop
    split
    · exact .refl
    case h_2 rx' _ =>
      refine ReflTransGen.head (.apply (by omega)) (ih (log.applied (log.lastApplied + 1)) rx' ?_)
      simp only [SmLog.applied, SmLog.invalidate]
      omega

theorem commitLog_moves (he : e = .handle lid pkt) (hlid : lid < s.numOfTargets) {idx : Int}
    (h : s.takesCommit lid pkt idx) (hconfig : n.sdev.config = s.sdev.config) :
    LogMoves s e n.smLog (n.commitLog idx).smLog := by
  simp only [Node.commitLog, SmLog.commitLog]
  split
  case isFalse => exact .refl
  case isTrue hnew =>
  split
  · exact .refl
  case isFalse hstable =>
    have hmulticast : n.sdev.multicastEnable = s.sdev.multicastEnable :=
      congrArg (fun c => c.2.2) hconfig
    refine ReflTransGen.head (.setCommit lid pkt idx he hlid h hnew fun hunicast => ?_) ?_
    · rw [hmulticast] at hstable
      by_contra hlt
      exact hstable ⟨hunicast, by omega⟩
    · unfold SmLog.applyLogToSm
      by_cases hle : n.smLog.lastApplied ≤ idx
      · exact applyLoop_moves _ { n.smLog with commitIdx := idx } n.rxbuf (by dsimp only; omega)
      · rw [show (idx - n.smLog.lastApplied).toNat = 0 by omega]
        exact .refl

end Append

theorem Act.logMoves (h : Act s e n n') (hconfig : n.sdev.config = s.sdev.config) :
    LogMoves s e n.smLog n'.smLog := by
  cases h with
  | quiet h => rw [h.smLog]
  | noteVote lid pkt => rw [noteVote_smLog]
  | append _ lid pkt he hlid h hlog hleader hterm =>
    dsimp only
    rw [hlog]
    exact handleAppend_moves he hlid h hterm _
  | commit _ lid pkt idx he hlid h => exact commitLog_moves he hlid h hconfig
  | request _ chunk idx hrole hterm hguard hle hnext hshot hasks hlast =>
    dsimp only
    rw [hterm]
    exact .single (.request chunk idx hrole hguard hle hnext hshot hasks hlast)
  | leaderCommit _ lid pkt he hlid h hn =>
    rcases n.updateCommitIdx_cases with heq | ⟨N, heq, hN⟩
    · rw [heq]
    · subst hn
      rw [heq]
      exact .single (.leaderCommit lid pkt N he hlid h hN)
  | repairLast => exact .single .repair
  | multicast _ num pkt hmulticast =>
    have : s.sdev.multicastEnable = true :=
      (congrArg (fun c => c.2.2) hconfig).symm.trans hmulticast
    exact .single (.multicast _ this)
  | _ => exact .refl

/-- **Every step of a node moves its log by log moves.** -/
theorem step_logMoves (n : Node) (e : Event) : LogMoves n e n.smLog (n.step e).smLog := by
  have h := n.step_preserves
    (I := fun m => m.sdev.config = n.sdev.config ∧ LogMoves n e n.smLog m.smLog) e
    (fun _ _ hact hm => ⟨hact.config.trans hm.1, hm.2.trans (hact.logMoves hm.1)⟩) ⟨rfl, .refl⟩
  exact h.2

theorem step_preserves_log {I : SmLog → Prop} (n : Node) (e : Event)
    (hmove : ∀ log log', LogMove n e log log' → I log → I log') (hn : I n.smLog) :
    I (n.step e).smLog :=
  Run.preserved_of_moves hmove (n.step_logMoves e) hn

end Node

end XlaneLkm
