import XlaneLkm.Proof.Election
import XlaneLkm.Cluster

/-!
# Who can lead

A node grants no nomination of a higher id than its own: it has caught up with that nomination's term
just before it compares the terms. A node that counts one VOTE of every target therefore has the
lowest id of all, and as long as votes are counted once there is one such node, whatever the terms.
-/

namespace XlaneLkm

open MachineInt

namespace Node

variable {s : Node} {e : Event} {n n' : Node}

/-- Every VOTE a node has sent went to a target whose id is not above its own. -/
def VotesDownward (n : Node) : Prop :=
  ∀ dest pkt, (dest, some pkt) ∈ n.sent → pkt.opcodeVal = some .vote →
    ∃ lid, dest = .target lid ∧ u32 (n.rclusterId lid) ≤ n.sdev.clusterId

theorem votesDownward_act (h : Act s e n n') (hsame : n.sdev.config = s.sdev.config)
    (hn : VotesDownward n) : VotesDownward n' := by
  have hframe : n'.sent = n.sent → VotesDownward n' := by
    intro hsent dest pkt hmem hop
    obtain ⟨lid, hdest, hle⟩ := hn dest pkt (hsent ▸ hmem) hop
    have hconfig := h.config
    exact ⟨lid, hdest, by
      rwa [rclusterId_of_config hconfig, show n'.sdev.clusterId = n.sdev.clusterId from
        congrArg Prod.fst hconfig]⟩
  cases h with
  | quiet h => exact hframe h.sent
  | emit _ dest record h =>
    intro dest' pkt hmem hop
    rcases List.mem_cons.mp hmem with heq | hold
    · cases heq
      exact absurd hop h.opcodeVal_ne_vote
    · exact hn dest' pkt hold hop
  | noteVote lid pkt =>
    obtain ⟨voters, heq, -⟩ := s.noteVote_eq lid pkt
    exact hframe (by rw [heq])
  | leaderCommit =>
    obtain ⟨log, heq⟩ := n.updateCommitIdx_eq
    exact hframe (by rw [heq])
  | grant _ lid pkt he hlid hnomi hgrant hvoted hgiven hconfig =>
    intro dest' pkt' hmem hop
    rcases List.mem_cons.mp hmem with heq | hold
    · cases heq
      refine ⟨lid, rfl, ?_⟩
      have hle := (electable_of_grants hgrant).1.1
      rwa [← rclusterId_of_config hsame, ← show n.sdev.clusterId = s.sdev.clusterId from
        congrArg Prod.fst hsame] at hle
    · exact hn dest' pkt' hold hop
  | multicast _ num pkt hmulticast hleader hmsg =>
    intro dest' pkt' hmem hop'
    rcases List.mem_cons.mp hmem with heq | hold
    · cases heq
      rw [hmsg.opcodeVal] at hop'
      cases hop'
    · exact hn dest' pkt' hold hop'
  | _ => exact hframe rfl

theorem step_votesDownward (n : Node) (e : Event) (hn : VotesDownward n) :
    VotesDownward (n.step e) := by
  have h := n.step_preserves (I := fun m => m.sdev.config = n.sdev.config ∧ VotesDownward m) e
    (fun _ _ hact hm => ⟨hact.config.trans hm.1, votesDownward_act hact hm.1 hm.2⟩) ⟨rfl, hn⟩
  exact h.2

/-- Only targets of one kind have been counted, and a node that has led has no others. -/
structure CountsOnly (good : Nat → Prop) (n : Node) : Prop where
  count : CountInv n
  counted : ∀ lid ∈ n.hist.counted, good lid
  leads : n.hist.leads ≠ [] → ∀ lid < n.numOfTargets, good lid

theorem countsOnly_act {good : Nat → Prop} (hdistinct : s.countsDistinct e)
    (hgood : ∀ lid pkt, e = .handle lid pkt → pkt.opcodeVal = some .vote → good lid)
    (h : Act s e n n') (hn : CountsOnly good n) : CountsOnly good n' := by
  refine ⟨countInv_act hdistinct h hn.count, ?_, ?_⟩
  · cases h with
    | quiet h => rw [h.hist]; exact hn.counted
    | resetVotes => exact fun lid hlid => absurd hlid List.not_mem_nil
    | follow => exact fun lid hlid => absurd hlid List.not_mem_nil
    | lead => exact fun lid hlid => absurd hlid List.not_mem_nil
    | accept => exact fun lid hlid => absurd hlid List.not_mem_nil
    | noteVote lid pkt => rw [noteVote_counted]; exact hn.counted
    | countVote lid pkt he hlid hvote =>
      intro l hl
      rcases List.mem_cons.mp hl with rfl | hl
      · exact hgood l pkt he hvote.2.2
      · exact hn.counted l hl
    | leaderCommit =>
      obtain ⟨log, heq⟩ := n.updateCommitIdx_eq
      rw [heq]
      exact hn.counted
    | _ => exact hn.counted
  · cases h with
    | quiet h => rw [h.hist, numOfTargets_of_config h.config]; exact hn.leads
    | noteVote lid pkt =>
      obtain ⟨voters, heq, -⟩ := s.noteVote_eq lid pkt
      rw [heq]
      exact hn.leads
    | lead lid pkt he hlid hvote hall =>
      intro _ l hl
      refine hn.counted l (hn.count.all_counted hvote hall ?_)
      simpa [Node.lead, Node.countVote, Node.resetVotes, recordLead, numOfTargets] using hl
    | leaderCommit =>
      obtain ⟨log, heq⟩ := n.updateCommitIdx_eq
      rw [heq]
      exact hn.leads
    | _ => exact hn.leads

end Node

namespace Cluster

variable {ι : Type*}

/-- The local ids of peers whose id is not below that of `i`. -/
def isAbove (c : Cluster ι) (i : ι) (lid : Nat) : Prop :=
  ∀ j, (c.peers i)[lid]? = some j → c.cid i ≤ c.cid j

structure ElectionInv (c : Cluster ι) (i : ι) (n : Node) : Prop where
  configured : c.IsConfigured i n
  votes : n.VotesDownward
  counts : n.CountsOnly (c.isAbove i)

theorem electionInv_init (c : Cluster ι) (i : ι) : ElectionInv c i (c.init.node i) where
  configured := init_isConfigured i
  votes _ _ h := absurd h List.not_mem_nil
  counts := ⟨⟨fun h => NodeState.noConfusion h, List.nodup_nil, fun _ h => absurd h List.not_mem_nil⟩,
    fun _ h => absurd h List.not_mem_nil, fun h => absurd rfl h⟩

variable [DecidableEq ι] {c : Cluster ι} {w : World ι}

theorem electionInv_step {move : Move ι} (hw : ∀ i, ElectionInv c i (w.node i))
    (hmove : c.everyNode Node.countsDistinct w move) (i : ι) :
    ElectionInv c i ((c.step w move).node i) := by
  refine forall_node_step hw (fun i e hevent => ?_) i
  have hgood : ∀ lid pkt, e = .handle lid pkt → pkt.opcodeVal = some .vote → c.isAbove i lid := by
    rintro lid pkt rfl hop j hj
    obtain ⟨src, dest, hne, rfl, hsent, hreaches⟩ := event_handle hevent
    obtain ⟨l, rfl, hle⟩ := (hw src).votes dest pkt hsent hop
    rw [(hw src).configured.rclusterId (c.reaches_target.mp hreaches),
      (hw src).configured.clusterId, u32_i32, u32_natCast (c.cid_lt i)] at hle
    rw [peers_lid hne] at hj
    cases hj
    exact hle
  have hcounts := (w.node i).step_preserves e
    (fun _ _ => Node.countsOnly_act (hmove (i, e) hevent) hgood) (hw i).counts
  exact ⟨((w.node i).step_config e).trans (hw i).configured, (w.node i).step_votesDownward e (hw i).votes,
    hcounts⟩

theorem electionInv_run (moves : List (Move ι))
    (hmeets : Run.Meets c.step (c.everyNode Node.countsDistinct) c.init moves) (i : ι) :
    ElectionInv c i ((c.run moves).node i) :=
  Run.invariant c.step (I := fun w => ∀ i, ElectionInv c i (w.node i))
    (fun _ _ hw hmove => electionInv_step hw hmove) (electionInv_init c) hmeets i

theorem ElectionInv.lowest {i j : ι} {n : Node} (h : ElectionInv c i n) (hlead : n.hist.leads ≠ [])
    (hne : j ≠ i) : c.cid i ≤ c.cid j := by
  have hlt : c.lid i j < (c.peers i).length :=
    List.idxOf_lt_length_iff.mpr ((c.mem_peers i j).mpr hne)
  exact h.counts.leads hlead _ (h.configured.numOfTargets ▸ hlt) j (peers_lid hne)

/-- Two nodes never enter LEADER in one term, as long as no candidate counts two VOTEs of one target
in one candidature. -/
theorem election_safety (c : Cluster ι) (moves : List (Move ι))
    (hmeets : Run.Meets c.step (c.everyNode Node.countsDistinct) c.init moves) :
    ∀ i j, i ≠ j → ∀ li ∈ ((c.run moves).node i).hist.leads, ∀ lj ∈ ((c.run moves).node j).hist.leads,
      li.1 ≠ lj.1 := by
  intro i j hne li hli lj hlj _
  have hi := (electionInv_run moves hmeets i).lowest (List.ne_nil_of_mem hli) hne.symm
  have hj := (electionInv_run moves hmeets j).lowest (List.ne_nil_of_mem hlj) hne
  exact hne (c.cid_injective (le_antisymm hi hj))

theorem election_safety_elected :
    (1, [1, 0]) ∈ ((threeNodes.run oneElection).node 0).hist.leads ∧
      ∀ j, 0 ≠ j → ∀ lj ∈ ((threeNodes.run oneElection).node j).hist.leads, 1 ≠ lj.1 :=
  have hlead : (1, [1, 0]) ∈ ((threeNodes.run oneElection).node 0).hist.leads := by decide
  ⟨hlead, fun j hne => election_safety threeNodes oneElection (by decide) 0 j hne _ hlead⟩

/-- Node 0 counts the VOTE of node 1 twice. Node 1 then takes node 0 for dead, nominates itself for
the same term, and counts the VOTE of node 2 twice. -/
def twoElections : List (Move (Fin 3)) :=
  threeJoining ++ [.deliver 1 0 1, .deliver 0 1 0, .deliver 0 1 0] ++
    List.replicate 13 (.act 1 .tick) ++ [.deliver 2 1 0, .deliver 1 2 0, .deliver 1 2 0]

set_option maxRecDepth 10000 in
theorem two_leaders_in_one_term :
    ¬ ∀ (ι : Type) [DecidableEq ι] (c : Cluster ι) (moves : List (Move ι)),
      ∀ i j, i ≠ j → ∀ li ∈ ((c.run moves).node i).hist.leads,
        ∀ lj ∈ ((c.run moves).node j).hist.leads, li.1 ≠ lj.1 := by
  intro h
  have h0 : (1, [0, 0]) ∈ ((threeNodes.run twoElections).node 0).hist.leads := by decide
  have h1 : (1, [1, 1]) ∈ ((threeNodes.run twoElections).node 1).hist.leads := by decide
  exact h (Fin 3) threeNodes twoElections 0 1 (by decide) _ h0 _ h1 rfl

end Cluster

end XlaneLkm
