import XlaneLkm.Proof.Replica

/-!
# The order of the four indices

Replicas keep `last_applied`, `commit_idx`, `stable_idx` and `last_idx` in this order. A leader keeps
the first two and the last, but it commits without looking at its `stable_idx`, which only appends of
other leaders ever move.
-/

namespace XlaneLkm

open MachineInt

namespace Node

variable {s n n' : Node} {e : Event} {log log' : SmLog}

theorem LogMove.stableIdx_le (h : LogMove s e log log') : log.stableIdx ≤ log'.stableIdx := by
  cases h with
  | stabilise => exact Int.le_add_one le_rfl
  | leaderCommit lid pkt N =>
    obtain ⟨entries, heq, -⟩ := s.smLog.leaderCommit_eq N
    rw [heq]
  | repair => rw [log.getLastIdxSafe_eq]
  | _ => exact le_rfl

theorem step_stableIdx_le (n : Node) (e : Event) : n.smLog.stableIdx ≤ (n.step e).smLog.stableIdx :=
  n.step_preserves_log (I := fun log => n.smLog.stableIdx ≤ log.stableIdx) e
    (fun _ _ hmove hlog => hlog.trans hmove.stableIdx_le) le_rfl

theorem LogMoves.stableIdx_le (h : LogMoves s e log log') : log.stableIdx ≤ log'.stableIdx :=
  Run.preserved_of_moves (I := fun l => log.stableIdx ≤ l.stableIdx)
    (fun _ _ hmove hl => hl.trans hmove.stableIdx_le) h le_rfl

/-! ### The match indices of the leader -/

/-- Once the node has led, no match index is above the bound for its target. -/
def MatchedUpTo (bound : Nat → Int) (n : Node) : Prop :=
  n.hist.leads ≠ [] → ∀ lid < n.numOfTargets, n.leaderIdx.matchIndex lid ≤ bound lid

theorem matchedUpTo_act {bound : Nat → Int} (hbound : ∀ lid, -1 ≤ bound lid)
    (hreply : ∀ lid pkt, e = .handle lid pkt → s.takesMatch pkt → asI32 pkt.param4 ≤ bound lid)
    (h : Act s e n n') (hn : MatchedUpTo bound n) : MatchedUpTo bound n' := by
  have htargets := numOfTargets_of_config h.config
  have hframe : n'.hist.leads = n.hist.leads → n'.leaderIdx.matchIndex = n.leaderIdx.matchIndex →
      MatchedUpTo bound n' := by
    intro hleads hmatch hled lid hlid
    rw [hmatch]
    exact hn (hleads ▸ hled) lid (htargets ▸ hlid)
  cases h with
  | quiet h => exact hframe (by rw [h.hist]) h.matchIndex
  | noteVote lid pkt =>
    obtain ⟨voters, heq, -⟩ := s.noteVote_eq lid pkt
    exact hframe (by rw [heq]) (by rw [heq])
  | leaderCommit =>
    obtain ⟨log, heq⟩ := n.updateCommitIdx_eq
    exact hframe (by rw [heq]) (by rw [heq])
  | lead lid pkt =>
    intro _ l hl
    have hreset : ((s.noteVote lid pkt).countVote lid).lead.leaderIdx.matchIndex l = -1 :=
      if_pos (htargets ▸ hl)
    rw [hreset]
    exact hbound l
  | matchReply lid pkt he hlid h =>
    intro hled l hl
    by_cases heq : l = lid
    · subst heq
      simp only [recordMatch, Function.update_self]
      exact hreply l pkt he h
    · simp only [recordMatch, Function.update_of_ne heq]
      exact hn hled l hl
  | _ => exact hframe rfl rfl

/-! ### The commit index -/

/-- No success reply that a leader takes reports more than the leader has stable itself. -/
def repliesStable (n : Node) : Event → Prop
  | .handle _ pkt => n.takesMatch pkt → asI32 pkt.param4 ≤ n.smLog.stableIdx
  | _ => True

instance (n : Node) : (e : Event) → Decidable (n.repliesStable e)
  | .handle .. => inferInstanceAs (Decidable (_ → _))
  | .rx .. | .tick | .request .. | .oneShot .. | .work .. | .user .. | .leConfig .. | .pmStart
  | .pmStop | .pmHalt | .pmFail | .start | .stop => isTrue trivial

/-- What a leader in order knows of its targets: nothing beyond its own `stable_idx`. -/
structure MatchedStable (n : Node) : Prop where
  unicast : n.sdev.multicastEnable = false
  indexed : n.smLog.Indexed
  led : n.LedIfLeader
  matched : MatchedUpTo (fun _ => n.smLog.stableIdx) n

theorem repliesStable.param4_le (hcond : s.repliesStable e) {lid : Nat} {pkt : ConRecord}
    (he : e = .handle lid pkt) (htakes : s.takesMatch pkt) :
    asI32 pkt.param4 ≤ s.smLog.stableIdx := by
  subst he
  exact hcond htakes

theorem MatchedStable.step (h : n.MatchedStable) (hcond : n.repliesStable e) :
    (n.step e).MatchedStable where
  unicast := (multicastEnable_step n e).trans h.unicast
  indexed := n.step_preserves_log e (fun _ _ => indexed_move h.unicast) h.indexed
  led := step_ledIfLeader n e h.led
  matched hled lid hlid := by
    have hmatched := n.step_preserves e (fun _ _ hact => matchedUpTo_act (fun _ => h.indexed.le_stable)
      (fun _ _ he htakes => hcond.param4_le he htakes) hact) h.matched
    exact (hmatched hled lid hlid).trans (n.step_stableIdx_le e)

/-- The first command of a client, confirmed by both targets: the leader commits it, and its
`stable_idx` is still -1. -/
def firstCommit : List Event := joining ++
  [.handle 0 (setLeOpcode .vote 1 0 0 0), .handle 1 (setLeOpcode .vote 1 0 0 0),
    .request [sampleChunk 7], .handle 0 (setLeOpcode .appendReply 1 1 0 0),
    .handle 1 (setLeOpcode .appendReply 1 1 0 0)]

end Node

end XlaneLkm
