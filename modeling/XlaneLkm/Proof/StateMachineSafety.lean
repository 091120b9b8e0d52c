import XlaneLkm.Proof.ElectionSafety
import XlaneLkm.Proof.Agreement

/-!
# State machine safety

While votes are counted once, the node with the lowest id is the only one that ever leads. Every other
node agrees with its log, so any two nodes that have committed an index agree on its command.
-/

namespace XlaneLkm

namespace Cluster

variable {ι : Type*} [DecidableEq ι]

/-- Some node is the only one that may have led: the one that did, or any if none did. -/
theorem exists_onlyLeader (c : Cluster ι) (moves : List (Move ι))
    (hcounted : Run.Meets c.step (c.everyNode Node.countsDistinct) c.init moves)
    (hroom : ∀ i, ((c.run moves).node i).smLog.lastIdx < c.maxEntries) (a : ι) :
    ∃ L, c.OnlyLeader L (c.run moves) := by
  by_cases hled : ∃ L, ((c.run moves).node L).hist.leads ≠ []
  · obtain ⟨L, hL⟩ := hled
    refine ⟨L, fun i hne => ?_, hroom L⟩
    by_contra hi
    have hlowest := (electionInv_run moves hcounted i).lowest hi hne.symm
    have hlowest' := (electionInv_run moves hcounted L).lowest hL hne
    exact hne (c.cid_injective (le_antisymm hlowest hlowest'))
  · refine ⟨a, fun i _ => ?_, hroom a⟩
    by_contra hi
    exact hled ⟨i, hi⟩

theorem AgreementInv.committed_eq {c : Cluster ι} {L : ι} {w : World ι} (h : AgreementInv c L w)
    (hroom : (w.node L).smLog.lastIdx < c.maxEntries) (a : ι) {i : Int} (hlow : 0 ≤ i)
    (hcommit : i ≤ (w.node a).smLog.commitIdx) :
    ((w.node a).smLog.entry i).dataChunk = ((w.node L).smLog.entry i).dataChunk := by
  by_cases ha : a = L
  · rw [ha]
  · have hfollower := h.follower a ha
    have hstable := hcommit.trans hfollower.commit_le
    have hsize := hfollower.size.trans h.size
    have hhigh : i < (w.node a).smLog.maxEntries := by
      have := hfollower.indexed.stable_le
      have := hfollower.last_le
      omega
    exact (hfollower.chunk i hlow hhigh (.inr hstable)).2

/-- Two nodes never have different commands committed at one index, as long as no candidate counts two
VOTEs of one target in one candidature. -/
theorem state_machine_safety (c : Cluster ι) (hunicast : c.multicastEnable = false)
    (moves : List (Move ι))
    (hmeets : Run.Meets c.step (c.everyNode Node.appendsNext) c.init moves)
    (hroom : ∀ i, ((c.run moves).node i).smLog.lastIdx < c.maxEntries)
    (hcounted : Run.Meets c.step (c.everyNode Node.countsDistinct) c.init moves) :
    ∀ a b i, 0 ≤ i → i ≤ ((c.run moves).node a).smLog.commitIdx →
      i ≤ ((c.run moves).node b).smLog.commitIdx →
      (((c.run moves).node a).smLog.entry i).dataChunk =
        (((c.run moves).node b).smLog.entry i).dataChunk := by
  intro a b i hlow ha hb
  obtain ⟨L, honly⟩ := exists_onlyLeader c moves hcounted hroom a
  have h := agreementInv_run hunicast moves hmeets honly
  exact (h.committed_eq honly.2 a hlow ha).trans (h.committed_eq honly.2 b hlow hb).symm

theorem state_machine_safety_twoCommands :
    (((threeNodes.run twoCommands).node 0).smLog.entry 1).dataChunk =
      (((threeNodes.run twoCommands).node 1).smLog.entry 1).dataChunk :=
  state_machine_safety threeNodes rfl twoCommands (by decide +kernel) (by decide +kernel)
    (by decide +kernel) 0 1 1 (by decide) (by decide +kernel) (by decide +kernel)

/-- Node 0 leads term 1. Node 1 gets its first command, misses its heartbeats and nominates itself for
term 2; node 2 votes, and only then hears of node 0. It gets and commits two commands, since node 0
takes node 1 for dead. Node 1 counts the VOTE of node 2 twice, leads, and puts a command of its own at
index 1, where node 0 still takes it: the `stable_idx` of a leader stays behind. -/
def twoCommits : List (Move (Fin 3)) :=
  oneElection ++
  [.deliver 1 0 1, .act 0 (.request [sampleChunk 7]), .act 0 (.work 0), .deliver 1 0 0, .deliver 0 1 0,
    .act 0 (.request [sampleChunk 8]), .act 0 (.work 0)] ++
  List.replicate 13 (.act 1 .tick) ++ [.deliver 2 1 0, .deliver 2 0 2, .deliver 2 0 0] ++
  List.replicate 13 (.act 0 .tick) ++ [.deliver 0 2 0, .act 0 .tick, .deliver 2 0 0] ++
  [.deliver 1 2 3, .deliver 1 2 3, .arrive 1 0 1 2, .act 1 (.request [sampleChunk 9]),
    .act 1 (.work 0), .deliver 0 1 2, .deliver 0 1 0]

theorem two_commands_committed :
    ¬ ∀ (ι : Type) [DecidableEq ι] (c : Cluster ι), c.multicastEnable = false →
      ∀ moves, Run.Meets c.step (c.everyNode Node.appendsNext) c.init moves →
      (∀ i, ((c.run moves).node i).smLog.lastIdx < c.maxEntries) →
      ∀ a b i, 0 ≤ i → i ≤ ((c.run moves).node a).smLog.commitIdx →
        i ≤ ((c.run moves).node b).smLog.commitIdx →
        (((c.run moves).node a).smLog.entry i).dataChunk =
          (((c.run moves).node b).smLog.entry i).dataChunk := by
  intro h
  have hsame := h (Fin 3) threeNodes rfl twoCommits (by decide +kernel) (by decide +kernel) 0 2 1
    (by decide) (by decide +kernel) (by decide +kernel)
  have h0 : (((threeNodes.run twoCommits).node 0).smLog.entry 1).dataChunk = sampleChunk 9 := by
    decide +kernel
  have h2 : (((threeNodes.run twoCommits).node 2).smLog.entry 1).dataChunk = sampleChunk 8 := by
    decide +kernel
  rw [h0, h2] at hsame
  exact absurd hsame (by decide)

end Cluster

end XlaneLkm
