import XlaneLkm.Proof.Election
import XlaneLkm.Proof.CommitOrder

/-!
# Up-to-date candidates

A nomination reports `stable_idx` as last log index, and as last log term that of `last_applied`, or
the candidate's own term if nothing is applied. The voter compares both with the end of its own log,
the index as an unsigned number: the -1 of a candidate without stable entries is the largest index
there is. What the voter learns is true of the candidate where the index is one and the term is that of
its entry.
-/

namespace XlaneLkm

open MachineInt

namespace Node

/-- The record of a candidature. -/
def nomination (n : Node) : ConRecord :=
  setLeOpcode .nomi n.priv.term n.priv.nodeId n.smLog.stableIdx n.lastLogTerm

theorem setupLeBroadcastMsg_nomi (n : Node) : n.setupLeBroadcastMsg .nomi =
    (List.range n.numOfTargets).foldl (fun m i => m.send (.target i) (some n.nomination)) n := rfl

/-- `check_handle_nomination` grants the vote to the sender of a nomination. -/
def grants (voter : Node) (nomi : ConRecord) (rclusterId : Int) : Prop :=
  (voter.checkHandleNomination nomi.param1.toNat nomi.param3.toNat nomi.param4.toNat rclusterId).2 =
    true

/-- The log of the candidate reaches the end of the voter's, and the entries they compare are of one
term. -/
def atLeastAsUpToDate (candidate voter : Node) : Prop :=
  voter.smLog.lastIdx ≤ candidate.smLog.stableIdx ∧
    (candidate.smLog.entry candidate.smLog.stableIdx).term =
      (voter.smLog.entry voter.smLog.lastIdx).term

/-- What a nomination reports is an index, and the term of the entry there. -/
def reportsItsLog (candidate : Node) : Prop :=
  0 ≤ candidate.smLog.stableIdx ∧
    (candidate.smLog.entry candidate.smLog.stableIdx).term = u32 candidate.lastLogTerm

instance (voter : Node) (nomi : ConRecord) (rclusterId : Int) :
    Decidable (voter.grants nomi rclusterId) :=
  inferInstanceAs (Decidable (_ = _))

instance (candidate voter : Node) : Decidable (candidate.atLeastAsUpToDate voter) :=
  inferInstanceAs (Decidable (_ ∧ _))

instance (candidate : Node) : Decidable candidate.reportsItsLog :=
  inferInstanceAs (Decidable (_ ∧ _))

theorem end_of_grants {voter : Node} {nomi : ConRecord} {rclusterId : Int}
    (h : voter.grants nomi rclusterId) (hlog : voter.smLog.lastIdx ≠ -1) :
    nomi.param1.toNat ≠ 0 ∧ u32 voter.smLog.lastIdx ≤ nomi.param3.toNat ∧
      (voter.smLog.entry voter.smLog.lastIdx).term = nomi.param4.toNat := by
  simp only [grants, checkHandleNomination, catchUpTerm] at h
  split at h
  · simp [grantsVote, setTerm] at h
  case isFalse =>
  unfold grantsVote at h
  split_ifs at h with hterm
  obtain ⟨hindex, hlastTerm⟩ := of_decide_eq_true h
  exact ⟨by omega, hindex, hlastTerm⟩

/-- A node of the given log end that has neither voted nor heard of a leader. -/
def openVoter (lastIdx : Int) (term : Nat) : Node :=
  let n := consensusInit (smallConfig 3 [1, 2]) zeroUninit
  { n with
    priv.voted := 0
    smLog.lastIdx := lastIdx
    smLog.entries := fun _ => ⟨true, term, DataChunk.zero⟩ }

theorem openVoter_grants {nomi : ConRecord} {lastIdx : Int} (hterm : nomi.param1.toNat ≠ 0)
    (hlog : lastIdx ≠ -1) (hindex : u32 lastIdx ≤ nomi.param3.toNat) :
    (openVoter lastIdx nomi.param4.toNat).grants nomi 0 := by
  generalize hvoter : openVoter lastIdx nomi.param4.toNat = voter
  have hcatch : voter.catchUpTerm nomi.param1.toNat 0 = voter := by
    refine if_neg fun h => absurd h.1 ?_
    rw [← hvoter]
    exact Nat.not_lt_zero 3
  have hnew : u32 voter.priv.term < nomi.param1.toNat := by
    rw [← hvoter]
    exact Nat.pos_of_ne_zero hterm
  have hvoted : voter.priv.voted ≠ nomi.param1.toNat := by
    rw [← hvoter]
    exact hterm.symm
  have hleader : voter.sdev.curLeaderLid = -1 := by rw [← hvoter]; rfl
  have hlast : voter.smLog.lastIdx = lastIdx := by rw [← hvoter]; rfl
  have hentry : (voter.smLog.entry lastIdx).term = nomi.param4.toNat := by rw [← hvoter]; rfl
  simp only [grants, checkHandleNomination, hcatch, grantsVote, if_pos hnew, if_neg hvoted, hleader,
    hlast, if_neg hlog, hentry]
  rw [if_neg (by omega)]
  exact decide_eq_true ⟨hindex, trivial⟩

/-- **The votes of all voters with entries go to up-to-date candidates exactly when a candidate reports
an index and the term of its entry there.** Nobody votes in term 0. -/
theorem up_to_date_iff (candidate : Node)
    (hstable : i32 candidate.smLog.stableIdx = candidate.smLog.stableIdx) :
    (∀ (voter : Node) (rclusterId : Int), 0 ≤ voter.smLog.lastIdx →
      voter.smLog.lastIdx ≤ 2147483647 → voter.grants candidate.nomination rclusterId →
      candidate.atLeastAsUpToDate voter) ↔
    (u32 candidate.priv.term ≠ 0 → candidate.reportsItsLog) := by
  have hrange := i32_eq_self_iff.mp hstable
  have hparam1 : candidate.nomination.param1.toNat = u32 candidate.priv.term := toU32_toNat _
  have hparam3 : candidate.nomination.param3.toNat = u32 candidate.smLog.stableIdx := toU32_toNat _
  have hparam4 : candidate.nomination.param4.toNat = u32 candidate.lastLogTerm := toU32_toNat _
  constructor
  · intro h hterm
    have hopen : ∀ lastIdx, 0 ≤ lastIdx → lastIdx ≤ 2147483647 →
        u32 lastIdx ≤ u32 candidate.smLog.stableIdx →
        candidate.atLeastAsUpToDate (openVoter lastIdx candidate.nomination.param4.toNat) :=
      fun lastIdx hlow hhigh hindex => h _ 0 hlow hhigh
        (openVoter_grants (hparam1 ▸ hterm) (by omega) (hparam3 ▸ hindex))
    have hlow : 0 ≤ candidate.smLog.stableIdx := (hopen 0 le_rfl (by omega) (Nat.zero_le _)).1
    exact ⟨hlow, (hopen _ hlow hrange.2 le_rfl).2.trans hparam4⟩
  · intro h voter rclusterId hlow hhigh hgrants
    obtain ⟨hterm, hindex, hlastTerm⟩ := end_of_grants hgrants (by omega)
    obtain ⟨hstable, hentry⟩ := h (hparam1 ▸ hterm)
    rw [hparam3, u32_eq_toNat hlow (by omega), u32_eq_toNat hstable (by omega)] at hindex
    exact ⟨by omega, hentry.trans (hparam4.symm.trans hlastTerm.symm)⟩

/-- The leader of term 1 has committed its first entry, without ever moving its `stable_idx`, and
stands again after a restart. -/
def standsAgain : List Event := firstCommit ++ [.stop, .start, .tick]

theorem up_to_date_iff_standsAgain :
    (∀ (voter : Node) (rclusterId : Int), 0 ≤ voter.smLog.lastIdx →
      voter.smLog.lastIdx ≤ 2147483647 →
      voter.grants (run (consensusInit (smallConfig 1 [2, 3]) zeroUninit) standsAgain).nomination
        rclusterId →
      (run (consensusInit (smallConfig 1 [2, 3]) zeroUninit) standsAgain).atLeastAsUpToDate voter) ↔
    (u32 (run (consensusInit (smallConfig 1 [2, 3]) zeroUninit) standsAgain).priv.term ≠ 0 →
      (run (consensusInit (smallConfig 1 [2, 3]) zeroUninit) standsAgain).reportsItsLog) :=
  up_to_date_iff (run (consensusInit (smallConfig 1 [2, 3]) zeroUninit) standsAgain)
    (by decide +kernel)

/-- It reports -1, and a node with one entry votes for it. -/
theorem vote_for_unstable :
    ¬ ∀ (c c' : Config) (u u' : Uninit) (events events' : List Event) (lid : Nat),
      let candidate := run (consensusInit c u) events
      let voter := run (consensusInit c' u') events'
      candidate.priv.nstate = .candidate → 0 ≤ voter.smLog.lastIdx →
      voter.grants candidate.nomination (voter.rclusterId lid) →
      candidate.atLeastAsUpToDate voter := by
  intro h
  have hlog := h (smallConfig 1 [2, 3]) (smallConfig 3 [1, 2]) zeroUninit zeroUninit standsAgain
    following 0 (by decide +kernel) (by decide +kernel) (by decide +kernel)
  revert hlog
  decide +kernel

end Node

end XlaneLkm
