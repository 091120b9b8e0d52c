import XlaneLkm.Proof.Appending
import Mathlib.Data.Int.LeastGreatest

/-!
# Gaps and retransmission requests

A slot whose command has not arrived is one whose valid flag is cleared, but the search for gaps looks
for NULL pointers. It never finds one, so no request is ever made: an APPEND is answered as the source
means it exactly when it leaves no gap.
-/

namespace XlaneLkm

open MachineInt

namespace SmLog

/-- The index stands between `stable_idx` and `last_idx`, and its command has not been received. -/
def missing (log : SmLog) (i : Int) : Prop :=
  log.stableIdx < i ∧ i < log.lastIdx ∧ (log.entry i).valid = false

variable {log log' : SmLog} {priv : ConsensusPriv} {pkt : ConRecord} {rclusterId : Int}

end SmLog

namespace Node

variable {s : Node} {e : Event} {n n' : Node}

/-- The node that runs `_handle_append_rpc` for a packet of its leader: it accepts a newer term first. -/
def appender (n : Node) (lid : Nat) (pkt : ConRecord) : Node :=
  if n.priv.term < asI32 pkt.param1 then
    n.acceptLeader lid (n.rclusterId lid) (asI32 pkt.param1)
  else n

theorem acceptLeader_smLog (n : Node) (lid : Nat) (clusterId term : Int) :
    (n.acceptLeader lid clusterId term).smLog = n.smLog := by
  rw [acceptLeader_eq]
  obtain ⟨idx, sent, heq⟩ := enterFollower_eq (n.accept lid clusterId term)
  rw [heq]
  rfl

theorem appender_smLog (n : Node) (lid : Nat) (pkt : ConRecord) :
    (n.appender lid pkt).smLog = n.smLog := by
  unfold appender
  split
  · exact n.acceptLeader_smLog lid _ _
  · rfl

/-- An APPEND of the accepted leader: the commands are stored, then a packet of the present term
commits. -/
theorem followerProcessPkt_append {n : Node} {lid : Nat} {pkt : ConRecord}
    (hop : pkt.opcodeVal = some .append) (hleader : n.priv.leaderId = u32 (n.rclusterId lid))
    (hterm : n.priv.term ≤ asI32 pkt.param1) :
    n.followerProcessPkt lid (n.rclusterId lid) pkt =
      if n.priv.term < asI32 pkt.param1 then
        (n.appender lid pkt).handleAppendRpc pkt lid (n.rclusterId lid)
      else ((n.appender lid pkt).handleAppendRpc pkt lid (n.rclusterId lid)).commitLog
        (asI32 pkt.leaderCommitIdx) := by
  by_cases hnew : n.priv.term < asI32 pkt.param1
  · simp only [followerProcessPkt, hop, hleader, ne_eq, not_true_eq_false, if_false, gt_iff_lt, hnew,
      if_true, appender]
  · have heq : asI32 pkt.param1 = n.priv.term := by omega
    simp only [followerProcessPkt, hop, hleader, ne_eq, not_true_eq_false, if_false, gt_iff_lt, heq,
      lt_irrefl, if_true, appender]

/-- A follower that has heard of its leader, and nothing else. -/
def hasLeader : List Event := joining ++ [.handle 0 (setLeOpcode .alive 1 (-1) (-1) 0)]

end Node

end XlaneLkm
