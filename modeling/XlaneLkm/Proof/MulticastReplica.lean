import XlaneLkm.Proof.Commits
import XlaneLkm.Proof.Progress
import XlaneLkm.Proof.Replica

/-!
# What a multicast replica applies

In multicast mode `commit_log` does not compare the commit index with `stable_idx`. As long as no
message commits more than has arrived, and none writes a whole turn of the ring ahead of what is
applied, user space gets only commands that an APPEND has brought.
-/

namespace XlaneLkm

open MachineInt
open Run (Meets)

namespace SmLog

variable {R : Int → DataChunk → Prop} {log : SmLog}

/-- What is stored and what is applied satisfies `R`, and what is stable is there to be applied. Unlike
for a replica in unicast mode, nothing is known about `commit_idx`. -/
structure FromAppends (R : Int → DataChunk → Prop) (log : SmLog) : Prop where
  refines : log.Refines
  applied_le : log.lastApplied ≤ log.stableIdx
  stable_le : log.stableIdx ≤ log.lastIdx
  last_le : log.lastIdx ≤ log.lastApplied + log.maxEntries
  lastIdx_le : log.lastIdx ≤ 2147483647
  valid : ∀ i, log.lastApplied < i → i ≤ log.stableIdx → (log.entry i).valid = true
  stored : ∀ i chunk lastApplied, .append i chunk lastApplied ∈ log.history → 0 ≤ i ∧ R i chunk
  applied : ∀ i chunk valid, .apply i chunk valid ∈ log.history → valid = true ∧ R i chunk

theorem fromAppends_initLog (c : Config) (u : Uninit) :
    (initLog u c.maxEntries).FromAppends R where
  refines := (replica_initLog c u).refines
  applied_le := le_rfl
  stable_le := le_rfl
  last_le := (replica_initLog c u).last_le
  lastIdx_le := by simp [initLog]
  valid := (replica_initLog c u).valid
  stored _ _ _ hmem := absurd hmem List.not_mem_nil
  applied _ _ _ hmem := absurd hmem List.not_mem_nil

theorem FromAppends.mono {R' : Int → DataChunk → Prop} (h : log.FromAppends R)
    (hR : ∀ i chunk, R i chunk → R' i chunk) : log.FromAppends R' :=
  { h with
    stored := fun i chunk lastApplied hmem =>
      ⟨(h.stored i chunk lastApplied hmem).1, hR i chunk (h.stored i chunk lastApplied hmem).2⟩
    applied := fun i chunk valid hmem =>
      ⟨(h.applied i chunk valid hmem).1, hR i chunk (h.applied i chunk valid hmem).2⟩ }

theorem FromAppends.le_lastApplied (h : log.FromAppends R) : -1 ≤ log.lastApplied := by
  have := h.refines.applied
  omega

theorem FromAppends.store (h : log.FromAppends R) {chunk : DataChunk} (term : Int) {idx : Int}
    (hstable : log.stableIdx < idx) (hle : idx ≤ 2147483647)
    (hring : idx ≤ log.lastApplied + log.maxEntries) (hR : R idx chunk) :
    (log.store chunk term idx).FromAppends R := by
  have hlow := h.le_lastApplied
  have happlied := h.applied_le
  refine ⟨h.refines.store chunk term (by omega) hring (by omega), happlied, ?_, ?_, ?_, ?_, ?_, ?_⟩
  · rw [store_lastIdx]
    exact h.stable_le.trans (le_max_left _ _)
  · rw [store_lastIdx]
    exact max_le h.last_le hring
  · rw [store_lastIdx]
    exact max_le h.lastIdx_le hle
  · exact fun i hgt hhigh => log.store_valid chunk term idx (h.valid i hgt hhigh)
  · intro i chunk' lastApplied hmem
    rcases List.mem_cons.mp hmem with heq | hmem
    · cases heq
      exact ⟨by omega, hR⟩
    · exact h.stored i chunk' lastApplied hmem
  · intro i chunk' valid hmem
    rcases List.mem_cons.mp hmem with heq | hmem
    · cases heq
    · exact h.applied i chunk' valid hmem

theorem FromAppends.storeRange (h : log.FromAppends R) {chunk : Nat → DataChunk} (term : Int)
    {first : Int} {k : Nat} (hstable : log.stableIdx < first) (hle : first + k - 1 ≤ 2147483647)
    (hring : first + k - 1 ≤ log.lastApplied + log.maxEntries)
    (hR : ∀ j < k, R (first + j) (chunk j)) : (log.storeRange chunk term first k).FromAppends R := by
  induction k with
  | zero => exact h
  | succ k ih =>
    have hbefore := ih (by omega) (by omega) fun j hj => hR j (Nat.lt_succ_of_lt hj)
    refine hbefore.store term ?_ (by omega) ?_ (hR k (Nat.lt_succ_self k))
    · rw [storeRange_stableIdx]
      omega
    · rw [storeRange_lastApplied, storeRange_maxEntries]
      omega

theorem FromAppends.setIndices (h : log.FromAppends R) (commitIdx retransIdx : Int) :
    FromAppends R { log with commitIdx := commitIdx, nextRetransReqIdx := retransIdx } :=
  ⟨⟨h.refines.sized, h.refines.applied, h.refines.inOrder, h.refines.shows⟩, h.applied_le, h.stable_le,
    h.last_le, h.lastIdx_le, h.valid, h.stored, h.applied⟩

theorem FromAppends.updateStableIdx (h : log.FromAppends R) : log.updateStableIdx.FromAppends R := by
  obtain ⟨stable, heq, hle, hlast, hbelow, -⟩ := log.updateStableIdx_eq
  have happlied := h.applied_le
  have hstable := h.stable_le
  rw [heq]
  refine ⟨⟨h.refines.sized, h.refines.applied, h.refines.inOrder, h.refines.shows⟩,
    happlied.trans hle, ?_, h.last_le, h.lastIdx_le, fun i hlow hhigh => ?_, h.stored, h.applied⟩
  · dsimp only
    omega
  · by_cases hold : i ≤ log.stableIdx
    · exact h.valid i hlow hold
    · exact hbelow i (by omega) hhigh

theorem FromAppends.updateNextRetransmissionRequestIdx (h : log.FromAppends R)
    (maxEntriesPerPkt : Int) :
    (log.updateNextRetransmissionRequestIdx maxEntriesPerPkt).FromAppends R := by
  rw [updateNextRetransmissionRequestIdx_eq]
  split
  · exact h
  · exact h.setIndices log.commitIdx (-2)

theorem mem_history_of_cell {k : Nat} {chunk : DataChunk} (h : log.abstract.cell k = some chunk) :
    ∃ idx lastApplied, .append idx chunk lastApplied ∈ log.history ∧ idx.toNat = k := by
  rw [abstract] at h
  generalize log.history = history at h ⊢
  induction history with
  | nil => cases h
  | cons action history ih =>
    rw [List.foldr_cons] at h
    cases action with
    | append idx chunk' lastApplied =>
      by_cases hk : k = idx.toNat
      · subst hk
        simp only [RingLog.UnboundedLog.append, Function.update_self, Option.some.injEq] at h
        subst h
        exact ⟨idx, lastApplied, List.mem_cons_self, rfl⟩
      · simp only [RingLog.UnboundedLog.append, Function.update_of_ne hk] at h
        obtain ⟨idx', la, hmem, hidx⟩ := ih h
        exact ⟨idx', la, List.mem_cons_of_mem _ hmem, hidx⟩
    | apply idx chunk' valid =>
      obtain ⟨idx', la, hmem, hidx⟩ := ih h
      exact ⟨idx', la, List.mem_cons_of_mem _ hmem, hidx⟩

/-- The next index to apply, if it is stable, has been brought by an APPEND. -/
theorem FromAppends.next (h : log.FromAppends R) (hstable : log.lastApplied < log.stableIdx) :
    (log.entry (log.lastApplied + 1)).valid = true ∧
      R (log.lastApplied + 1) (log.entry (log.lastApplied + 1)).dataChunk := by
  have hvalid := h.valid (log.lastApplied + 1) (by omega) (by omega)
  have hlow := h.le_lastApplied
  have happlied := h.refines.applied
  have hsize := h.refines.sized.1
  have hlast := h.stable_le
  have hmax := h.lastIdx_le
  have hslot := h.refines.sized.slot_eq (i := log.lastApplied + 1) (by omega) (by omega)
  have hnext : (log.lastApplied + 1).toNat = log.abstract.applied.length := by omega
  rw [hnext] at hslot
  have hlive : log.live (log.abstract.applied.length % log.maxEntries.toNat) =
      some (log.entry (log.lastApplied + 1)).dataChunk := by
    rw [← hslot]
    exact if_pos hvalid
  have hcell := h.refines.shows _ _ le_rfl (by omega) hlive
  obtain ⟨idx, lastApplied, hmem, hidx⟩ := mem_history_of_cell hcell
  obtain ⟨hnonneg, hR⟩ := h.stored idx _ lastApplied hmem
  obtain rfl : idx = log.lastApplied + 1 := by omega
  exact ⟨hvalid, hR⟩

theorem FromAppends.apply (h : log.FromAppends R) (hstable : log.lastApplied < log.stableIdx) :
    (log.applied (log.lastApplied + 1)).FromAppends R := by
  obtain ⟨hvalid, hR⟩ := h.next hstable
  have hlow := h.le_lastApplied
  have hlast := h.last_le
  have hlastStable := h.stable_le
  have hmax := h.lastIdx_le
  refine ⟨h.refines.apply (by omega) hvalid, hstable, h.stable_le, ?_, h.lastIdx_le, ?_, ?_, ?_⟩
  · simp only [SmLog.applied, invalidate]
    omega
  · intro i hgt hhigh
    simp only [SmLog.applied, invalidate] at hgt hhigh
    have hslot : log.slot i ≠ log.slot (log.lastApplied + 1) := by
      intro heq
      have := h.refines.sized.add_le_of_slot_eq (by omega) hgt (by omega) heq.symm
      omega
    rw [log.applied_entry_of_ne hslot]
    exact h.valid i (by omega) hhigh
  · intro i chunk lastApplied hmem
    rcases List.mem_cons.mp hmem with heq | hmem
    · cases heq
    · exact h.stored i chunk lastApplied hmem
  · intro i chunk valid hmem
    rcases List.mem_cons.mp hmem with heq | hmem
    · cases heq
      exact ⟨hvalid, hR⟩
    · exact h.applied i chunk valid hmem

theorem FromAppends.commitLog (h : log.FromAppends R) (rx : AsgRingBuf) (multicastEnable : Bool)
    {commitIdx : Int} (hcommit : log.commitIdx < commitIdx → commitIdx ≤ log.stableIdx) :
    (log.commitLog rx multicastEnable commitIdx).1.FromAppends R := by
  by_cases htakes : log.takesCommitIdx multicastEnable commitIdx
  · rw [commitLog_of_takes htakes, applyLogToSm]
    have hset := h.setIndices commitIdx log.nextRetransReqIdx
    have hstable := hcommit htakes.1
    by_cases hle : log.lastApplied ≤ commitIdx
    · have hloop := applyLoop_preserves
        (I := fun l => l.commitIdx = commitIdx ∧ l.stableIdx = log.stableIdx ∧ l.FromAppends R)
        (fun l hlt hl => ⟨hl.1, hl.2.1, hl.2.2.apply (by have := hl.1; have := hl.2.1; omega)⟩)
        { log with commitIdx := commitIdx } rx (commitIdx - log.lastApplied).toNat
        (by dsimp only; omega) ⟨rfl, rfl, hset⟩
      exact hloop.2.2
    · dsimp only
      rw [show (commitIdx - log.lastApplied).toNat = 0 by omega]
      exact hset
  · rw [commitLog_of_not_takes htakes]
    exact h

/-- The entries of the packet stay in the range of an index, and within one turn of the ring from what
is applied. -/
def fitsRing (log : SmLog) (pkt : ConRecord) : Prop :=
  pkt.numEntries.toNat ≠ 0 → log.passesAppend pkt → pkt.count ≠ 0 →
    pkt.prevLogIdx + pkt.count ≤ log.lastApplied + log.maxEntries ∧
      pkt.prevLogIdx + pkt.count ≤ 2147483647

instance fitsRing.decidable (log : SmLog) (pkt : ConRecord) : Decidable (log.fitsRing pkt) :=
  inferInstanceAs (Decidable (_ → _ → _ → _))

theorem FromAppends.handleAppend (h : log.FromAppends R) {pkt : ConRecord} (priv : ConsensusPriv)
    (rclusterId : Int) (hfits : log.fitsRing pkt)
    (hR : ∀ j < pkt.count, R (pkt.startIdx + j) (pkt.entries j)) :
    (log.handleAppend priv pkt rclusterId).1.FromAppends R := by
  by_cases hnum : pkt.numEntries.toNat = 0
  · simp only [SmLog.handleAppend, if_pos hnum]
    exact h
  by_cases hpasses : log.passesAppend pkt
  · rw [handleAppend_of_passes priv rclusterId hnum hpasses]
    have hstored : (log.storeRange pkt.entries priv.term pkt.startIdx pkt.count).FromAppends R := by
      by_cases hcount : pkt.count = 0
      · rw [hcount]
        exact h
      · obtain ⟨hring, hint⟩ := hfits hnum hpasses hcount
        have hlow := h.le_lastApplied
        have happlied := h.applied_le
        have hprev := hpasses.1
        have hstart : pkt.startIdx = pkt.prevLogIdx + 1 := i32_eq_self (by omega) (by omega)
        exact h.storeRange priv.term (by omega) (by omega) (by omega) hR
    simp only [received]
    split
    · exact hstored
    refine FromAppends.updateNextRetransmissionRequestIdx ?_ _
    split
    · exact hstored
    · exact hstored.updateStableIdx
  · rw [handleAppend_of_not_passes priv rclusterId hnum hpasses]
    exact h

end SmLog

def Event.isRequest : Event → Bool
  | .request _ => true
  | .oneShot _ => true
  | _ => false

/-- An APPEND of the run has brought the command for the index. -/
def ReceivedIn (events : List Event) (i : Int) (chunk : DataChunk) : Prop :=
  ∃ lid pkt, .handle lid pkt ∈ events ∧ pkt.opcodeVal = some .append ∧
    ∃ j : Nat, j < pkt.count ∧ i = pkt.startIdx + j ∧ chunk = pkt.entries j

theorem ReceivedIn.snoc {events : List Event} {i : Int} {chunk : DataChunk}
    (h : ReceivedIn events i chunk) (e : Event) : ReceivedIn (events ++ [e]) i chunk := by
  obtain ⟨lid, pkt, hmem, hpkt⟩ := h
  exact ⟨lid, pkt, List.mem_append_left _ hmem, hpkt⟩

namespace Node

variable {R : Int → DataChunk → Prop} {s n n' : Node} {e : Event} {lid : Nat} {pkt : ConRecord}

/-- The commit index a follower reads from a packet. -/
def commitOf (pkt : ConRecord) : Int :=
  if pkt.opcodeVal = some .append then asI32 pkt.leaderCommitIdx else asI32 pkt.param2

/-- The log at the moment that commit index gets to `commit_log`. -/
def logAtCommit (n : Node) (lid : Nat) (pkt : ConRecord) : SmLog :=
  if pkt.opcodeVal = some .append then (n.smLog.handleAppend n.priv pkt (n.rclusterId lid)).1
  else n.smLog

instance takesCommit.decidable (n : Node) (lid : Nat) (pkt : ConRecord) (idx : Int) :
    Decidable (n.takesCommit lid pkt idx) :=
  inferInstanceAs (Decidable (_ ∧ _ ∧ (_ ∧ _ ∧ _ ∨ _ ∧ _ ∧ _ ∧ _)))

/-- The packet commits nothing but what is stable, and writes less than a turn of the ring ahead. -/
def keepsToReceived (n : Node) : Event → Prop
  | .handle lid pkt =>
    (n.takesAppend lid pkt → n.smLog.fitsRing pkt) ∧
      (n.takesCommit lid pkt (commitOf pkt) → (n.logAtCommit lid pkt).commitIdx < commitOf pkt →
        commitOf pkt ≤ (n.logAtCommit lid pkt).stableIdx)
  | _ => True

instance keepsToReceived.decidable (n : Node) (e : Event) : Decidable (n.keepsToReceived e) :=
  match e with
  | .handle _ _ => inferInstanceAs (Decidable ((_ → _) ∧ (_ → _ → _)))
  | .rx _ _ => isTrue trivial
  | .tick => isTrue trivial
  | .request _ => isTrue trivial
  | .oneShot _ => isTrue trivial
  | .work _ => isTrue trivial
  | .user _ => isTrue trivial
  | .leConfig _ => isTrue trivial
  | .pmStart => isTrue trivial
  | .pmStop => isTrue trivial
  | .pmHalt => isTrue trivial
  | .pmFail => isTrue trivial
  | .start => isTrue trivial
  | .stop => isTrue trivial

theorem takesCommit.eq_commitOf {idx : Int} (h : n.takesCommit lid pkt idx) : idx = commitOf pkt := by
  obtain ⟨-, -, ⟨hop, -, rfl⟩ | ⟨hop, -, -, rfl⟩⟩ := h
  · rw [commitOf, if_neg (by simp [hop])]
  · rw [commitOf, if_pos hop]

/-- A follower that gets to `commit_log` has the log of that moment before it. -/
theorem followerProcessPkt_commits (h : n.takesCommit lid pkt (commitOf pkt)) :
    (n.followerProcessPkt lid (n.rclusterId lid) pkt).smLog = n.smLog ∨
      ∃ rx mode, (n.followerProcessPkt lid (n.rclusterId lid) pkt).smLog =
        ((n.logAtCommit lid pkt).commitLog rx mode (commitOf pkt)).1 := by
  obtain ⟨-, -, ⟨hop, -, hidx⟩ | ⟨hop, hterm, hleader, hidx⟩⟩ := h
  · have hlog : n.logAtCommit lid pkt = n.smLog := if_neg (by simp [hop])
    rw [hlog, hidx]
    simp only [followerProcessPkt, hop]
    by_cases hnew : asI32 pkt.param1 > n.priv.term
    · rw [if_pos hnew, ← acceptLeader_smLog n lid (n.rclusterId lid) (asI32 pkt.param1)]
      split
      · exact .inr ⟨_, _, rfl⟩
      · exact .inl rfl
    · rw [if_neg hnew]
      split
      · exact .inr ⟨_, _, rfl⟩
      · exact .inl rfl
  · have hlog : n.logAtCommit lid pkt = (n.smLog.handleAppend n.priv pkt (n.rclusterId lid)).1 :=
      if_pos hop
    obtain ⟨sent, heq⟩ := n.handleAppendRpc_eq pkt lid (n.rclusterId lid)
    rw [hlog, hidx]
    simp only [followerProcessPkt, hop, hleader, hterm, ne_eq, not_true_eq_false, if_false, gt_iff_lt,
      lt_irrefl, if_true, heq]
    exact .inr ⟨_, _, rfl⟩

theorem fromAppends_act (hkeeps : s.keepsToReceived e) (he : e.isRequest = false)
    (hcommit : ∀ lid pkt, e = .handle lid pkt → ¬s.takesCommit lid pkt (commitOf pkt))
    (hR : ∀ lid pkt, e = .handle lid pkt → pkt.opcodeVal = some .append →
      ∀ j < pkt.count, R (pkt.startIdx + j) (pkt.entries j))
    (h : Act s e n n') (hn : n.sdev.multicastEnable = true ∧ n.smLog.FromAppends R) :
    n'.sdev.multicastEnable = true ∧ n'.smLog.FromAppends R := by
  obtain ⟨hmode, hlog⟩ := hn
  refine ⟨(congrArg (fun c => c.2.2) h.config).trans hmode, ?_⟩
  cases h with
  | quiet h => exact h.smLog ▸ hlog
  | noteVote lid pkt => exact (noteVote_smLog s lid pkt).symm ▸ hlog
  | append _ lid pkt he _ h hsame =>
    subst he
    exact hlog.handleAppend n.priv (s.rclusterId lid) (hsame ▸ hkeeps.1 h) (hR lid pkt rfl h.2.2.1)
  | commit _ lid pkt idx he _ h => exact absurd (h.eq_commitOf ▸ h) (hcommit lid pkt he)
  | request _ chunk idx _ _ _ _ _ _ hasks =>
    cases e with
    | request => cases he
    | oneShot => cases he
    | _ => exact hasks.elim
  | leaderCommit =>
    rw [updateCommitIdx, if_pos hmode]
    exact hlog
  | repairLast =>
    have hlow := hlog.le_lastApplied
    have happlied := hlog.applied_le
    have hstable := hlog.stable_le
    dsimp only
    rw [SmLog.getLastIdxSafe_eq, if_neg (by omega)]
    exact hlog
  | multicast => exact hlog.setIndices _ _
  | _ => exact hlog

theorem fromAppends_step (hmode : n.sdev.multicastEnable = true) (he : e.isRequest = false)
    (hkeeps : n.keepsToReceived e)
    (hR : ∀ lid pkt, e = .handle lid pkt → pkt.opcodeVal = some .append →
      ∀ j < pkt.count, R (pkt.startIdx + j) (pkt.entries j))
    (hlog : n.smLog.FromAppends R) : (n.step e).smLog.FromAppends R := by
  by_cases hcommit : ∃ lid pkt, e = .handle lid pkt ∧ lid < n.numOfTargets ∧
      n.takesCommit lid pkt (commitOf pkt)
  · obtain ⟨lid, pkt, rfl, hlid, htakes⟩ := hcommit
    have hvote : n.noteVote lid pkt = n := noteVote_of_ne (by
      obtain ⟨-, -, ⟨hop, -⟩ | ⟨hop, -⟩⟩ := htakes <;> simp [hop])
    simp only [step, if_pos hlid, hvote, consensusPostPayload, htakes.1, htakes.2.1, ne_eq,
      not_true_eq_false, if_false]
    rcases followerProcessPkt_commits htakes with hsame | ⟨rx, mode, hcommits⟩
    · rw [hsame]
      exact hlog
    · rw [hcommits]
      refine SmLog.FromAppends.commitLog ?_ rx mode (hkeeps.2 htakes)
      unfold logAtCommit
      split
      case isTrue hop =>
        refine hlog.handleAppend n.priv (n.rclusterId lid) (hkeeps.1 ?_) (hR lid pkt rfl hop)
        obtain ⟨hrun, hstate, ⟨halive, -⟩ | ⟨-, hterm, hleader, -⟩⟩ := htakes
        · rw [hop] at halive
          cases halive
        · exact ⟨hrun, .inl hstate, hop, hleader, hterm.le⟩
      case isFalse => exact hlog
  · by_cases hhandle : ∃ lid pkt, e = .handle lid pkt ∧ ¬lid < n.numOfTargets
    · obtain ⟨lid, pkt, rfl, hlid⟩ := hhandle
      simp only [step, if_neg hlid]
      exact hlog
    · refine (n.step_preserves e (fun _ _ => fromAppends_act hkeeps he ?_ hR) ⟨hmode, hlog⟩).2
      intro lid pkt heq htakes
      refine hcommit ⟨lid, pkt, heq, ?_, htakes⟩
      by_contra hlid
      exact hhandle ⟨lid, pkt, heq, hlid⟩

theorem fromAppends_run (c : Config) (u : Uninit) (hmulticast : c.multicastEnable = true)
    (events : List Event) (hpackets : ∀ e ∈ events, e.isRequest = false)
    (hkeeps : Meets step keepsToReceived (consensusInit c u) events) :
    (run (consensusInit c u) events).smLog.FromAppends (ReceivedIn events) := by
  induction events using List.reverseRecOn with
  | nil => exact SmLog.fromAppends_initLog c u
  | append_singleton events e ih =>
    obtain ⟨hbefore, hlast, -⟩ := (Run.meets_append step).mp hkeeps
    have hlog := ih (fun e he => hpackets e (List.mem_append_left _ he)) hbefore
    have hmode : (run (consensusInit c u) events).sdev.multicastEnable = true :=
      (Run.invariant_run step (I := fun n => n.sdev.multicastEnable = c.multicastEnable)
        (fun n e hn => (multicastEnable_step n e).trans hn) rfl events).trans hmulticast
    rw [run_snoc]
    refine fromAppends_step hmode (hpackets e (by simp)) hlast ?_ (hlog.mono fun i chunk h => h.snoc e)
    rintro lid pkt rfl hop j hj
    exact ⟨lid, pkt, by simp, hop, j, hj, rfl, rfl⟩

/-- **What a multicast replica applies.** As long as no message commits more than is stable, every
command given to user space came with an APPEND of the run, and its slot was valid. -/
theorem applies_received (c : Config) (u : Uninit) (hmulticast : c.multicastEnable = true)
    (events : List Event) (hpackets : ∀ e ∈ events, e.isRequest = false)
    (hkeeps : Meets step keepsToReceived (consensusInit c u) events) (i : Int) (chunk : DataChunk)
    (valid : Bool)
    (happlied : .apply i chunk valid ∈ (run (consensusInit c u) events).smLog.history) :
    valid = true ∧ ReceivedIn events i chunk :=
  (fromAppends_run c u hmulticast events hpackets hkeeps).applied i chunk valid happlied

theorem applies_received_following :
    ReceivedIn following 0 (sampleChunk 7) :=
  (applies_received (multicastConfig 3 [1, 2]) zeroUninit rfl following (by decide) (by decide +kernel)
    0 (sampleChunk 7) true (by decide +kernel)).2

/-- The APPEND with index 0 is lost, and an ALIVE says that index 0 is committed. -/
theorem applies_not_received :
    ¬ ∀ (c : Config) (u : Uninit) (events : List Event), c.multicastEnable = true →
      (∀ e ∈ events, e.isRequest = false) → ∀ i chunk valid,
      .apply i chunk valid ∈ (run (consensusInit c u) events).smLog.history →
      valid = true ∧ ReceivedIn events i chunk := by
  intro h
  have hvalid := (h (multicastConfig 3 [1, 2]) zeroUninit
    (joining ++ [.handle 0 (setLeOpcode .alive 1 0 (-1) 0)]) rfl (by decide) 0 DataChunk.zero false
    (by decide +kernel)).1
  cases hvalid

end Node

end XlaneLkm
