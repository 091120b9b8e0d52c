import XlaneLkm.Process

/-!
# What the handlers read of a record

A record in a packet is followed by whatever was written there before, and a message of leader election
is shorter than the fixed part of an APPEND. The handlers look at the parameters, and only at an
APPEND's size, commit index and announced entries.
-/

namespace XlaneLkm

open MachineInt

/-- No handler tells the two records apart. -/
structure SameMessage (pkt pkt' : ConRecord) : Prop where
  opcodeVal : pkt.opcodeVal = pkt'.opcodeVal
  param1 : pkt.opcodeVal ≠ some .advertise → pkt.param1 = pkt'.param1
  param2 : pkt.opcodeVal ≠ some .advertise → pkt.param2 = pkt'.param2
  param3 : pkt.opcodeVal ≠ some .advertise → pkt.param3 = pkt'.param3
  param4 : pkt.opcodeVal ≠ some .advertise → pkt.param4 = pkt'.param4
  pktSize : pkt.opcodeVal = some .append → pkt.pktSize = pkt'.pktSize
  leaderCommitIdx : pkt.opcodeVal = some .append → pkt.leaderCommitIdx = pkt'.leaderCommitIdx
  numEntries : pkt.opcodeVal = some .append → pkt.numEntries = pkt'.numEntries
  entries : pkt.opcodeVal = some .append → ∀ k < pkt.numEntries.toNat, pkt.entries k = pkt'.entries k

namespace SmLog

theorem appendLoop_congr (log : SmLog) {pkt pkt' : ConRecord} (term i : Int) {j k : Nat}
    (h : ∀ l < k, pkt.entries (j + l) = pkt'.entries (j + l)) :
    log.appendLoop pkt term i j k = log.appendLoop pkt' term i j k := by
  induction k generalizing log i j with
  | zero => rfl
  | succ k ih =>
    have hfirst : pkt.entries j = pkt'.entries j := h 0 (Nat.succ_pos k)
    simp only [appendLoop, hfirst]
    cases log.appendCommand (pkt'.entries j) term i with
    | error err => rfl
    | ok log =>
      apply ih
      intro l hl
      have hnext := h (l + 1) (by omega)
      rw [← Nat.add_assoc, Nat.add_right_comm] at hnext
      exact hnext

/-- However the sum wraps, the loop of `append_commands` makes at most as many rounds as the field
`num_entries` says. -/
theorem appendRounds_le {start : Int} {num : Nat} (hlow : -2147483648 ≤ start)
    (hhigh : start ≤ 2147483647) (hpos : 0 < num) (hnum : num < 4294967296) :
    (i32 (start + i32 num - 1) - start + 1).toNat ≤ num := by
  obtain ⟨hnum_low, hnum_high, k, hk⟩ := i32_spec (num : Int)
  obtain ⟨hlast_low, hlast_high, l, hl⟩ := i32_spec (start + i32 num - 1)
  omega

theorem appendCommands_congr (log : SmLog) {pkt pkt' : ConRecord} (term pktSize : Int) {start : Int}
    (unstable : Bool) {num : Nat} (hlow : -2147483648 ≤ start) (hhigh : start ≤ 2147483647)
    (hpos : 0 < num) (hnum : num < 4294967296) (h : ∀ l < num, pkt.entries l = pkt'.entries l) :
    log.appendCommands pkt term (i32 num) pktSize start unstable =
      log.appendCommands pkt' term (i32 num) pktSize start unstable := by
  have hrounds := appendRounds_le hlow hhigh hpos hnum
  have hloop : log.appendLoop pkt term start 0 (i32 (start + i32 num - 1) - start + 1).toNat =
      log.appendLoop pkt' term start 0 (i32 (start + i32 num - 1) - start + 1).toNat := by
    apply appendLoop_congr
    intro l hl
    rw [Nat.zero_add]
    exact h l (by omega)
  simp only [appendCommands, hloop]

end SmLog

namespace SameMessage

variable {pkt pkt' : ConRecord} (h : SameMessage pkt pkt')

include h

theorem handleAppend (hop : pkt.opcodeVal = some .append) (log : SmLog) (priv : ConsensusPriv)
    (rclusterId : Int) : log.handleAppend priv pkt rclusterId = log.handleAppend priv pkt' rclusterId := by
  have hne : pkt.opcodeVal ≠ some .advertise := by
    rw [hop]
    simp
  have hidx : pkt'.prevLogIdx = pkt.prevLogIdx := congrArg asI32 (h.param3 hne).symm
  have hterm : pkt'.prevLogTerm = pkt.prevLogTerm := congrArg UInt32.toNat (h.param4 hne).symm
  obtain ⟨hlow, hhigh, -⟩ := i32_spec (pkt.prevLogIdx + 1)
  by_cases hpos : pkt.numEntries.toNat = 0
  · simp only [SmLog.handleAppend, ← h.numEntries hop, if_pos hpos]
  · simp only [SmLog.handleAppend, hidx, hterm, ← h.numEntries hop, ← h.pktSize hop]
    rw [log.appendCommands_congr priv.term _ _ hlow hhigh (by omega) pkt.numEntries.toNat_lt
      (h.entries hop)]

theorem handleAppendRpc (hop : pkt.opcodeVal = some .append) (n : Node) (lid : Nat)
    (rclusterId : Int) : n.handleAppendRpc pkt lid rclusterId = n.handleAppendRpc pkt' lid rclusterId := by
  simp only [Node.handleAppendRpc, h.handleAppend hop]

theorem followerProcessPkt (n : Node) (lid : Nat) (rclusterId : Int) :
    n.followerProcessPkt lid rclusterId pkt = n.followerProcessPkt lid rclusterId pkt' := by
  unfold Node.followerProcessPkt
  rw [← h.opcodeVal]
  cases hop : pkt.opcodeVal with
  | none => rfl
  | some op =>
    cases op with
    | nomi => rw [h.param1 (by simp [hop]), h.param2 (by simp [hop]), h.param3 (by simp [hop]),
        h.param4 (by simp [hop])]
    | alive => rw [h.param1 (by simp [hop]), h.param2 (by simp [hop])]
    | append =>
      simp only [h.param1 (by simp [hop]), h.leaderCommitIdx hop, h.handleAppendRpc hop]
    | _ => rfl

theorem candidateProcessPkt (n : Node) (lid : Nat) (rclusterId : Int) :
    n.candidateProcessPkt lid rclusterId pkt = n.candidateProcessPkt lid rclusterId pkt' := by
  unfold Node.candidateProcessPkt
  rw [← h.opcodeVal]
  cases hop : pkt.opcodeVal with
  | none => rfl
  | some op =>
    cases op with
    | nomi => rw [h.param1 (by simp [hop]), h.param2 (by simp [hop]), h.param3 (by simp [hop]),
        h.param4 (by simp [hop])]
    | alive => rw [h.param1 (by simp [hop])]
    | append => simp only [h.param1 (by simp [hop]), h.handleAppendRpc hop]
    | _ => rfl

theorem leaderProcessPkt (n : Node) (lid : Nat) (rclusterId : Int) :
    n.leaderProcessPkt lid rclusterId pkt = n.leaderProcessPkt lid rclusterId pkt' := by
  unfold Node.leaderProcessPkt
  rw [← h.opcodeVal]
  cases hop : pkt.opcodeVal with
  | none => rfl
  | some op =>
    cases op with
    | appendReply =>
      simp only [Node.leaderProcessAppendReply, h.param2 (by simp [hop]), h.param3 (by simp [hop]),
        h.param4 (by simp [hop])]
    | alive => rw [h.param1 (by simp [hop])]
    | _ => rfl

theorem noteVote (n : Node) (lid : Nat) : n.noteVote lid pkt = n.noteVote lid pkt' := by
  unfold Node.noteVote
  rw [← h.opcodeVal]
  by_cases hop : pkt.opcodeVal = some .vote
  · rw [h.param1 (by simp [hop])]
  · rw [if_neg fun hvote => hop hvote.1, if_neg fun hvote => hop hvote.1]

/-- **No node tells the two records apart.** -/
theorem consensusPostPayload (n : Node) (lid : Nat) (rclusterId : Int) :
    (n.noteVote lid pkt).consensusPostPayload lid rclusterId pkt =
      (n.noteVote lid pkt').consensusPostPayload lid rclusterId pkt' := by
  rw [h.noteVote n lid]
  unfold Node.consensusPostPayload
  rw [h.followerProcessPkt, h.candidateProcessPkt, h.leaderProcessPkt]

end SameMessage

end XlaneLkm
