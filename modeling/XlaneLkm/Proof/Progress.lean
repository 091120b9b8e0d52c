import XlaneLkm.Proof.Commits
import XlaneLkm.Proof.CmdLogMemory

/-!
# Progress is never given back

Four indices say how far a log has come. Handlers of every role move them, from signed fields of
packets that may be stale or malformed, and a multicast leader adds to `commit_idx` without looking at
where it stands. Each of them still only moves up: what it adds it has sent, and it sends every index
once, so `commit_idx` stays within the range of the log and what packets told.
-/

namespace XlaneLkm

open MachineInt

namespace SmLog

/-- No index is given up. -/
structure Progress (log log' : SmLog) : Prop where
  lastIdx : log.lastIdx ≤ log'.lastIdx
  stableIdx : log.stableIdx ≤ log'.stableIdx
  commitIdx : log.commitIdx ≤ log'.commitIdx
  lastApplied : log.lastApplied ≤ log'.lastApplied

/-- What holds of the indices of every node. -/
structure Bounded (log : SmLog) : Prop where
  applied_le : log.lastApplied ≤ log.commitIdx
  stable_le : log.stableIdx ≤ log.lastIdx
  le_commit : -1 ≤ log.commitIdx

variable {log log' : SmLog}

theorem Progress.refl (log : SmLog) : Progress log log := ⟨le_rfl, le_rfl, le_rfl, le_rfl⟩

theorem Progress.trans {log'' : SmLog} (hfirst : Progress log log') (hsecond : Progress log' log'') :
    Progress log log'' where
  lastIdx := hfirst.lastIdx.trans hsecond.lastIdx
  stableIdx := hfirst.stableIdx.trans hsecond.stableIdx
  commitIdx := hfirst.commitIdx.trans hsecond.commitIdx
  lastApplied := hfirst.lastApplied.trans hsecond.lastApplied

theorem handleAppend_progress (hlog : log.Bounded) (priv : ConsensusPriv) (pkt : ConRecord)
    (rclusterId : Int) : Progress log (log.handleAppend priv pkt rclusterId).1 ∧
      (log.handleAppend priv pkt rclusterId).1.Bounded := by
  by_cases hnum : pkt.numEntries.toNat = 0
  · simp only [handleAppend, if_pos hnum]
    exact ⟨.refl log, hlog⟩
  by_cases hpasses : log.passesAppend pkt
  · rw [handleAppend_of_passes priv rclusterId hnum hpasses]
    have h := log.receives priv pkt rclusterId
    have hlast : log.lastIdx ≤ (log.received priv pkt rclusterId).lastIdx := by
      rw [h.lastIdx]
      split
      · exact le_rfl
      · exact le_max_left _ _
    refine ⟨⟨hlast, h.stable_le, h.commitIdx.ge, h.lastApplied.ge⟩, ?_, ?_, ?_⟩
    · rw [h.lastApplied, h.commitIdx]
      exact hlog.applied_le
    · rcases h.stable_last with hsame | hle
      · exact hsame ▸ hlog.stable_le.trans hlast
      · exact hle
    · exact h.commitIdx ▸ hlog.le_commit
  · rw [handleAppend_of_not_passes priv rclusterId hnum hpasses]
    exact ⟨.refl log, hlog⟩

theorem commitLog_progress (hlog : log.Bounded) (rx : AsgRingBuf) (multicastEnable : Bool)
    (commitIdx : Int) : Progress log (log.commitLog rx multicastEnable commitIdx).1 ∧
      (log.commitLog rx multicastEnable commitIdx).1.Bounded := by
  by_cases htakes : log.takesCommitIdx multicastEnable commitIdx
  · rw [commitLog_of_takes htakes]
    obtain ⟨hcommit, hstable, hlast, -, hlow, hhigh⟩ :=
      applyLogToSm_frame { log with commitIdx := commitIdx } rx
    have hnew : log.commitIdx < commitIdx := htakes.1
    refine ⟨⟨hlast.ge, hstable.ge, hcommit ▸ hnew.le, hlow⟩, ?_, ?_, ?_⟩
    · rw [hcommit]
      exact hhigh (hlog.applied_le.trans hnew.le)
    · rw [hstable, hlast]
      exact hlog.stable_le
    · exact hcommit ▸ hlog.le_commit.trans hnew.le
  · rw [commitLog_of_not_takes htakes]
    exact ⟨.refl log, hlog⟩

theorem store_progress (hlog : log.Bounded) (chunk : DataChunk) (term idx : Int) :
    Progress log (log.store chunk term idx) ∧ (log.store chunk term idx).Bounded := by
  have hlast : log.lastIdx ≤ (log.store chunk term idx).lastIdx := by
    rw [store_lastIdx]
    exact le_max_left _ _
  exact ⟨⟨hlast, le_rfl, le_rfl, le_rfl⟩,
    hlog.applied_le, hlog.stable_le.trans hlast, hlog.le_commit⟩

theorem leaderCommit_progress (hlog : log.Bounded) (N : Int) :
    Progress log (log.leaderCommit N) ∧ (log.leaderCommit N).Bounded := by
  obtain ⟨entries, heq, -⟩ := log.leaderCommit_eq N
  rw [heq]
  by_cases hnew : log.commitIdx < N
  · simp only [if_pos hnew]
    exact ⟨⟨le_rfl, le_rfl, hnew.le, hlog.applied_le.trans hnew.le⟩,
      le_rfl, hlog.stable_le, hlog.le_commit.trans hnew.le⟩
  · simp only [if_neg hnew]
    exact ⟨⟨le_rfl, le_rfl, le_rfl, le_rfl⟩, hlog.applied_le, hlog.stable_le, hlog.le_commit⟩

theorem repair_progress (hlog : log.Bounded) :
    Progress log log.getLastIdxSafe ∧ log.getLastIdxSafe.Bounded := by
  have hlast : log.lastIdx ≤ if log.lastIdx < -1 then -1 else log.lastIdx := by
    split <;> omega
  rw [getLastIdxSafe_eq]
  exact ⟨⟨hlast, le_rfl, le_rfl, le_rfl⟩,
    hlog.applied_le, hlog.stable_le.trans hlast, hlog.le_commit⟩

end SmLog

/-- The commit indices a packet carries are below 2^29. -/
def Event.carriesInRange : Event → Prop
  | .handle _ pkt => (pkt.opcodeVal = some .alive → asI32 pkt.param2 < 536870912) ∧
      (pkt.opcodeVal = some .append → asI32 pkt.leaderCommitIdx < 536870912)
  | _ => True

instance : (e : Event) → Decidable e.carriesInRange
  | .handle .. => inferInstanceAs (Decidable (_ ∧ _))
  | .rx .. | .tick | .request .. | .oneShot .. | .work .. | .user .. | .leConfig .. | .pmStart
  | .pmStop | .pmHalt | .pmFail | .start | .stop => isTrue trivial

namespace Node

variable {s n n' : Node} {e : Event}

/-- Packets carry no commit index from 2^29 on, and the step reaches no index from there on. -/
def indicesInRange (n : Node) (e : Event) : Prop :=
  e.carriesInRange ∧ (n.step e).smLog.lastIdx < 536870912

instance (n : Node) (e : Event) : Decidable (n.indicesInRange e) :=
  inferInstanceAs (Decidable (_ ∧ _))

/-- A multicast leader has added the entries it has sent, each once, to a commit index it was told. -/
structure ProgressInv (n : Node) : Prop where
  bounded : n.smLog.Bounded
  le_nextIdx : 0 ≤ n.sdev.multicastNextIdx
  nextIdx_le : n.sdev.multicastNextIdx ≤ n.smLog.lastIdx + 1
  commit_lt : n.sdev.multicastEnable = true →
    n.smLog.commitIdx < 536870912 + n.sdev.multicastNextIdx

theorem ProgressInv.congr (hn : ProgressInv n) (hlog : n'.smLog = n.smLog)
    (hnext : n'.sdev.multicastNextIdx = n.sdev.multicastNextIdx)
    (hmulticast : n'.sdev.multicastEnable = n.sdev.multicastEnable) :
    SmLog.Progress n.smLog n'.smLog ∧ ProgressInv n' := by
  refine ⟨hlog ▸ .refl _, ?_, ?_, ?_, ?_⟩
  · exact hlog ▸ hn.bounded
  · exact hnext ▸ hn.le_nextIdx
  · rw [hnext, hlog]
    exact hn.nextIdx_le
  · rw [hmulticast, hnext, hlog]
    exact hn.commit_lt

theorem ProgressInv.of_progress {log : SmLog} (hn : ProgressInv n)
    (h : SmLog.Progress n.smLog log ∧ log.Bounded)
    (hcommit : log.commitIdx = n.smLog.commitIdx ∨ log.commitIdx < 536870912) :
    SmLog.Progress n.smLog log ∧ ProgressInv { n with smLog := log } := by
  refine ⟨h.1, h.2, hn.le_nextIdx, hn.nextIdx_le.trans ?_, fun hmulticast => ?_⟩
  · exact Int.add_le_add_right h.1.lastIdx 1
  · rcases hcommit with hsame | hlt
    · exact hsame ▸ hn.commit_lt hmulticast
    · exact hlt.trans_le (Int.le_add_of_nonneg_right hn.le_nextIdx)

theorem takesCommit_inRange {lid : Nat} {pkt : ConRecord} {idx : Int} (h : s.takesCommit lid pkt idx)
    (hrange : (Event.handle lid pkt).carriesInRange) : idx < 536870912 := by
  rcases h.2.2 with ⟨hop, -, rfl⟩ | ⟨hop, -, -, rfl⟩
  · exact hrange.1 hop
  · exact hrange.2 hop

/-- Neither the next index nor the commit index of a multicast leader wraps around. -/
theorem ProgressInv.multicast {num : Int} {pkt : ConRecord} (hn : ProgressInv n)
    (hmsg : n.IsMulticastMsg num pkt) (hmulticast : n.sdev.multicastEnable = true)
    (hlast : n.smLog.lastIdx < 536870912) :
    SmLog.Progress n.smLog (n.advanceMulticast num).smLog ∧ ProgressInv (n.advanceMulticast num) := by
  have hpos := hmsg.pos
  have hle := hmsg.le_lastIdx
  have hlow := hn.le_nextIdx
  have hcommit := hn.commit_lt hmulticast
  have hminus := hn.bounded.le_commit
  have hnext : (n.advanceMulticast num).sdev.multicastNextIdx = n.sdev.multicastNextIdx + num :=
    i32_eq_self (by omega) (by omega)
  have hadded : (n.advanceMulticast num).smLog.commitIdx = n.smLog.commitIdx + (num - 1) :=
    i32_eq_self (by omega) (by omega)
  have hup : n.smLog.commitIdx ≤ (n.advanceMulticast num).smLog.commitIdx := by omega
  refine ⟨⟨le_rfl, le_rfl, hup, le_rfl⟩, ⟨hn.bounded.applied_le.trans hup, hn.bounded.stable_le,
    hminus.trans hup⟩, ?_, ?_, fun _ => ?_⟩
  · omega
  · change (n.advanceMulticast num).sdev.multicastNextIdx ≤ n.smLog.lastIdx + 1
    omega
  · omega

theorem ProgressInv.leaderCommit (hn : ProgressInv n) :
    SmLog.Progress n.smLog n.updateCommitIdx.smLog ∧ ProgressInv n.updateCommitIdx := by
  by_cases hmulticast : n.sdev.multicastEnable = true
  · rw [show n.updateCommitIdx = n from if_pos hmulticast]
    exact hn.congr rfl rfl rfl
  rcases n.updateCommitIdx_cases with heq | ⟨N, heq, -⟩
  · rw [heq]
    exact hn.congr rfl rfl rfl
  · obtain ⟨hprogress, hbounded⟩ := SmLog.leaderCommit_progress hn.bounded N
    rw [heq]
    exact ⟨hprogress, hbounded, hn.le_nextIdx,
      hn.nextIdx_le.trans (Int.add_le_add_right hprogress.lastIdx 1), fun h => absurd h hmulticast⟩

theorem progress_act (hrange : e.carriesInRange) (h : Act s e n n') (hn : ProgressInv n)
    (hlast : n'.smLog.lastIdx < 536870912) :
    SmLog.Progress n.smLog n'.smLog ∧ ProgressInv n' := by
  cases h with
  | quiet h => exact hn.congr h.smLog h.multicastNextIdx (congrArg (fun c => c.2.2) h.config)
  | noteVote lid pkt => exact hn.congr (noteVote_smLog ..) (by rw [noteVote_sdev]) (by rw [noteVote_sdev])
  | append _ lid pkt =>
    exact hn.of_progress (SmLog.handleAppend_progress hn.bounded n.priv pkt (s.rclusterId lid))
      (.inl (SmLog.handleAppend_commitIdx ..))
  | commit _ lid pkt idx he hlid h =>
    subst he
    obtain ⟨hprogress, hinv⟩ := hn.of_progress
      (SmLog.commitLog_progress hn.bounded n.rxbuf n.sdev.multicastEnable idx) (by
        rw [SmLog.commitLog_commitIdx]
        split
        · exact .inr (takesCommit_inRange h hrange)
        · exact .inl rfl)
    exact ⟨hprogress, hinv.bounded, hinv.le_nextIdx, hinv.nextIdx_le, hinv.commit_lt⟩
  | request _ chunk idx =>
    exact hn.of_progress (SmLog.store_progress hn.bounded chunk n.priv.term idx) (.inl rfl)
  | leaderCommit => exact hn.leaderCommit
  | repairLast =>
    refine hn.of_progress (SmLog.repair_progress hn.bounded) (.inl ?_)
    rw [SmLog.getLastIdxSafe_eq]
  | multicast _ num pkt hmulticast hleader hmsg =>
    obtain ⟨hprogress, hinv⟩ := hn.multicast hmsg hmulticast hlast
    exact ⟨hprogress, hinv.bounded, hinv.le_nextIdx, hinv.nextIdx_le, hinv.commit_lt⟩
  | _ => exact hn.congr rfl rfl rfl

theorem progress_step (hrange : n.indicesInRange e) (hn : ProgressInv n) :
    SmLog.Progress n.smLog (n.step e).smLog ∧ ProgressInv (n.step e) := by
  have h := n.step_preserves (I := fun m => m.sdev.config = n.sdev.config ∧
    (m.smLog.lastIdx < 536870912 → SmLog.Progress n.smLog m.smLog ∧ ProgressInv m)) e ?_
    ⟨rfl, fun _ => ⟨.refl _, hn⟩⟩
  · exact h.2 hrange.2
  · rintro m m' hact ⟨hconfig, hm⟩
    refine ⟨hact.config.trans hconfig, fun hlast => ?_⟩
    -- what is not reached at the end of an action was not reached before it
    have hbefore : m.smLog.lastIdx ≤ m'.smLog.lastIdx :=
      Run.preserved_of_moves (I := fun log => m.smLog.lastIdx ≤ log.lastIdx)
        (fun _ _ hmove hlog => hlog.trans hmove.lastIdx_le) (hact.logMoves hconfig) le_rfl
    obtain ⟨hprogress, hinv⟩ := hm (hbefore.trans_lt hlast)
    obtain ⟨hone, hinv'⟩ := progress_act hrange.1 hact hinv hlast
    exact ⟨hprogress.trans hone, hinv'⟩

theorem progressInv_init (c : Config) (u : Uninit) : ProgressInv (consensusInit c u) where
  bounded := ⟨le_rfl, le_rfl, le_rfl⟩
  le_nextIdx := le_rfl
  nextIdx_le := le_rfl
  commit_lt := fun _ => show (-1 : Int) < 536870912 + 0 by decide

theorem progressInv_run (c : Config) (u : Uninit) (events : List Event)
    (hmeets : Run.Meets step indicesInRange (consensusInit c u) events) :
    ProgressInv (run (consensusInit c u) events) :=
  Run.invariant step (I := ProgressInv) (fun _ _ hn hrange => (progress_step hrange hn).2)
    (progressInv_init c u) hmeets

/-- **Progress indices never move backwards**, in unicast and in multicast mode, and what is applied
is committed and what is stable is in the log. As long as the arrays have a slot for every target, no
other field of the struct stands where these indices do. -/
theorem progress_monotone (c : Config) (u : Uninit) (hfew : c.targets.length ≤ clusterSize)
    (events : List Event) (hmeets : Run.Meets step indicesInRange (consensusInit c u) events) :
    (∀ before e after, events = before ++ e :: after →
      SmLog.Progress (run (consensusInit c u) before).smLog
        (run (consensusInit c u) (before ++ [e])).smLog) ∧
    (run (consensusInit c u) events).smLog.lastApplied ≤
      (run (consensusInit c u) events).smLog.commitIdx ∧
    (run (consensusInit c u) events).smLog.stableIdx ≤
      (run (consensusInit c u) events).smLog.lastIdx ∧
    ∀ lk, CmdLogMemory.TablesApart lk (run (consensusInit c u) events) := by
  have hend := (progressInv_run c u events hmeets).bounded
  have htargets := (run_numOfTargets c u events).trans_le hfew
  refine ⟨?_, hend.applied_le, hend.stable_le, fun lk => CmdLogMemory.tablesApart_of_few lk htargets⟩
  rintro before e after rfl
  obtain ⟨hbefore, hrange, -⟩ := (Run.meets_append step).mp hmeets
  rw [run_snoc]
  exact (progress_step hrange (progressInv_run c u before hbefore)).1

def multicastConfig (clusterId : Nat) (targets : List Int) : Config :=
  { smallConfig clusterId targets with multicastEnable := true }

/-- A multicast leader takes three requests at once. -/
def multicastRun : List Event := joining ++
  [.handle 0 (setLeOpcode .vote 1 0 0 0), .handle 1 (setLeOpcode .vote 1 0 0 0),
    .request [sampleChunk 7, sampleChunk 8, sampleChunk 9]]

theorem progress_monotone_multicast :
    (∀ before e after, multicastRun = before ++ e :: after →
      SmLog.Progress (run (consensusInit (multicastConfig 1 [2, 3]) zeroUninit) before).smLog
        (run (consensusInit (multicastConfig 1 [2, 3]) zeroUninit) (before ++ [e])).smLog) ∧
    (run (consensusInit (multicastConfig 1 [2, 3]) zeroUninit) multicastRun).smLog.lastApplied ≤
      (run (consensusInit (multicastConfig 1 [2, 3]) zeroUninit) multicastRun).smLog.commitIdx ∧
    (run (consensusInit (multicastConfig 1 [2, 3]) zeroUninit) multicastRun).smLog.stableIdx ≤
      (run (consensusInit (multicastConfig 1 [2, 3]) zeroUninit) multicastRun).smLog.lastIdx ∧
    ∀ lk, CmdLogMemory.TablesApart lk
      (run (consensusInit (multicastConfig 1 [2, 3]) zeroUninit) multicastRun) :=
  progress_monotone (multicastConfig 1 [2, 3]) zeroUninit (by decide) multicastRun (by decide +kernel)

example : (run (consensusInit (multicastConfig 1 [2, 3]) zeroUninit) multicastRun).smLog.commitIdx = 1 :=
  by decide +kernel

/-- Four targets turn up, and three of them vote. -/
def fourTargets : List Event :=
  [.pmStart, .rx 0 1, .rx 1 1, .rx 2 1, .rx 3 1, .handle 0 (setLeOpcode .vote 1 0 0 0),
    .handle 1 (setLeOpcode .vote 1 0 0 0), .handle 2 (setLeOpcode .vote 1 0 0 0)]

/-- **With a fourth target** the counter of its retransmission list is `last_applied`: on becoming leader
the node has applied index 0 of an empty log. -/
theorem fourth_target_applies : ¬∀ (c : Config) (u : Uninit) (events : List Event) (e : Event)
    (lk : RwLock) (mem : CmdLogMemory),
    Run.Meets step indicesInRange (consensusInit c u) (events ++ [e]) →
    let n := run (consensusInit c u) events
    (n.step e).hist.leads ≠ n.hist.leads → CmdLogMemory.Shows lk mem n →
    let mem' := mem.initializeIndices lk n.numOfTargets
    mem'.get lk .lastApplied ≤ mem'.get lk .commitIdx := by
  intro h
  have hmem := h (multicastConfig 1 [2, 3, 4, 5]) zeroUninit fourTargets
    (.handle 3 (setLeOpcode .vote 1 0 0 0)) CmdLogMemory.kernelRwLock
    (.ofNode CmdLogMemory.kernelRwLock 4096
      (run (consensusInit (multicastConfig 1 [2, 3, 4, 5]) zeroUninit) fourTargets))
    (by decide +kernel) (by decide +kernel) (CmdLogMemory.shows_ofNode _ _ (by decide +kernel))
  exact absurd hmem (by decide +kernel)

end Node

end XlaneLkm
