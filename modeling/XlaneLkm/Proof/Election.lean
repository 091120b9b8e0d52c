import XlaneLkm.Proof.StepActions
import XlaneLkm.Library.Quorum

/-!
# Votes given and votes counted

`priv->voted` remembers the last term voted for and `priv->votes` counts VOTE packets, whoever sent
them and for whatever term. Both are sound only under conditions that the code does not check: that
nominations are granted in ascending order of their terms, and that the packets counted in one
candidature come from different targets and carry its term.
-/

namespace XlaneLkm

open MachineInt

namespace Node

variable {s : Node} {e : Event} {n n' : Node}

/-! ### The counter and the targets it stands for -/

/-- No target's VOTE is counted twice in one candidature. -/
def countsDistinct (n : Node) : Event → Prop
  | .handle lid pkt => n.takesVote pkt → lid ∉ n.hist.counted
  | _ => True

/-- While a node is a candidate, its counter counts distinct targets. -/
structure CountInv (n : Node) : Prop where
  votes : n.priv.nstate = .candidate → n.priv.votes = n.hist.counted.length
  nodup : n.hist.counted.Nodup
  targets : ∀ lid ∈ n.hist.counted, lid < n.numOfTargets

theorem CountInv.of_eq (hn : CountInv n) (hstate : n'.priv.nstate = n.priv.nstate)
    (hvotes : n'.priv.votes = n.priv.votes) (hcounted : n'.hist.counted = n.hist.counted)
    (htargets : n'.numOfTargets = n.numOfTargets) : CountInv n' where
  votes h := by rw [hvotes, hcounted]; exact hn.votes (hstate ▸ h)
  nodup := hcounted ▸ hn.nodup
  targets := by rw [hcounted, htargets]; exact hn.targets

theorem countInv_of_reset (hvotes : n.priv.votes = 0) (hcounted : n.hist.counted = []) :
    CountInv n where
  votes _ := by rw [hvotes, hcounted]; rfl
  nodup := by rw [hcounted]; exact List.nodup_nil
  targets := by rw [hcounted]; exact fun lid h => absurd h List.not_mem_nil

theorem countInv_act (hcond : s.countsDistinct e) (h : Act s e n n') (hn : CountInv n) :
    CountInv n' := by
  cases h with
  | quiet h =>
    exact hn.of_eq h.nstate h.votes (by rw [h.hist])
      (numOfTargets_of_config h.config)
  | resetVotes => exact countInv_of_reset rfl rfl
  | follow => exact countInv_of_reset rfl rfl
  | lead => exact countInv_of_reset rfl rfl
  | accept => exact countInv_of_reset rfl rfl
  | stand _ _ hvotes hcounted => exact countInv_of_reset hvotes hcounted
  | noteVote lid pkt => exact hn.of_eq (by simp) (by simp) (by simp) (by simp [numOfTargets])
  | countVote lid pkt he hlid hvote =>
    subst he
    refine ⟨fun _ => ?_, ?_, ?_⟩
    · have hvotes := hn.votes (by simpa using hvote.2.1)
      simp only [Node.countVote, List.length_cons]
      omega
    · exact List.nodup_cons.mpr ⟨by simpa using hcond hvote, hn.nodup⟩
    · intro l hl
      rcases List.mem_cons.mp hl with rfl | hl
      · simpa [Node.countVote, numOfTargets] using hlid
      · exact hn.targets l hl
  | leaderCommit =>
    obtain ⟨log, heq⟩ := n.updateCommitIdx_eq
    exact heq ▸ hn.of_eq rfl rfl rfl rfl
  | enterLeader => exact ⟨fun h => NodeState.noConfusion h, hn.nodup, hn.targets⟩
  | _ => exact hn.of_eq rfl rfl rfl rfl

theorem CountInv.all_counted {lid : Nat} {pkt : ConRecord} (hn : CountInv ((s.noteVote lid pkt).countVote lid))
    (hvote : s.takesVote pkt) (hall : s.priv.votes + 1 = s.numOfTargets) {l : Nat}
    (hl : l < s.numOfTargets) : l ∈ ((s.noteVote lid pkt).countVote lid).hist.counted := by
  have hvotes := hn.votes (by simpa [Node.countVote] using hvote.2.1)
  refine Quorum.mem_of_nodup_of_length (k := s.numOfTargets) hn.nodup ?_ ?_ hl
  · simpa [Node.countVote, numOfTargets] using hn.targets
  · have : ((s.noteVote lid pkt).countVote lid).priv.votes = s.priv.votes + 1 := by
      simp [Node.countVote]
    omega

/-! ### A leader's quorum -/

/-- The VOTEs counted are for the present term, which a candidate does not change by catching up
with another election once it has counted votes. -/
def countsOwnTerm (n : Node) : Event → Prop
  | .handle lid pkt =>
    (n.takesVote pkt → pkt.param1.toNat = u32 n.priv.term) ∧
      (n.takesNomination pkt → n.priv.nstate = .candidate → n.hist.counted ≠ [] →
        n.sdev.clusterId < u32 (n.rclusterId lid) → pkt.param1.toNat ≤ u32 n.priv.term)
  | _ => True

structure QuorumInv (n : Node) : Prop where
  count : CountInv n
  counted : n.priv.nstate = .candidate → ∀ lid ∈ n.hist.counted, lid ∈ n.hist.voters
  leads : ∀ lead ∈ n.hist.leads, ∀ lid < n.numOfTargets, lid ∈ lead.2

/-- Every counted vote has been noted as one of a voter of the present candidature. -/
theorem QuorumInv.counted_act (hn : QuorumInv n) (hterm : s.countsOwnTerm e)
    (h : Act s e n n') :
    n'.priv.nstate = .candidate → ∀ lid ∈ n'.hist.counted, lid ∈ n'.hist.voters := by
  cases h with
  | quiet h => rw [h.nstate, h.hist]; exact hn.counted
  | resetVotes => exact fun _ lid hlid => absurd hlid List.not_mem_nil
  | follow => exact fun _ lid hlid => absurd hlid List.not_mem_nil
  | lead => exact fun _ lid hlid => absurd hlid List.not_mem_nil
  | accept => exact fun _ lid hlid => absurd hlid List.not_mem_nil
  | stand _ _ hvotes hcounted =>
    intro _ lid hlid
    have : lid ∈ n.hist.counted := hlid
    rw [hcounted] at this
    exact absurd this List.not_mem_nil
  | noteVote lid pkt =>
    obtain ⟨voters, heq, hsub⟩ := s.noteVote_eq lid pkt
    rw [heq]
    exact fun hstate l hl => hsub l (hn.counted hstate l hl)
  | countVote lid pkt he hlid hvote =>
    subst he
    intro hstate l hl
    rcases List.mem_cons.mp hl with rfl | hl
    · exact mem_voters_noteVote hvote.2.2 (hterm.1 hvote)
    · exact hn.counted hstate l hl
  | catchUp lid pkt he hlid hnomi hid hnew =>
    subst he
    intro hstate l hl
    have hle := hterm.2 hnomi hstate (List.ne_nil_of_mem hl) hid
    omega
  | leaderCommit =>
    obtain ⟨log, heq⟩ := n.updateCommitIdx_eq
    rw [heq]
    exact hn.counted
  | enterLeader => exact fun hstate => NodeState.noConfusion hstate
  | _ => exact hn.counted

theorem QuorumInv.leads_act (hn : QuorumInv n) (h : Act s e n n') :
    ∀ lead ∈ n'.hist.leads, ∀ lid < n'.numOfTargets, lid ∈ lead.2 := by
  cases h with
  | quiet h => rw [h.hist, numOfTargets_of_config h.config]; exact hn.leads
  | noteVote lid pkt =>
    obtain ⟨voters, heq, -⟩ := s.noteVote_eq lid pkt
    rw [heq]
    exact hn.leads
  | lead lid pkt he hlid hvote hall =>
    intro lead hlead l hl
    rcases List.mem_cons.mp hlead with rfl | hold
    · refine hn.counted ?_ l (hn.count.all_counted hvote hall ?_)
      · simpa [Node.countVote] using hvote.2.1
      · simpa [Node.lead, Node.countVote, Node.resetVotes, recordLead, numOfTargets] using hl
    · exact hn.leads lead hold l hl
  | leaderCommit =>
    obtain ⟨log, heq⟩ := n.updateCommitIdx_eq
    rw [heq]
    exact hn.leads
  | _ => exact hn.leads

theorem quorumInv_act (hdistinct : s.countsDistinct e) (hterm : s.countsOwnTerm e)
    (h : Act s e n n') (hn : QuorumInv n) : QuorumInv n' :=
  ⟨countInv_act hdistinct h hn.count, hn.counted_act hterm h, hn.leads_act h⟩

theorem quorumInv_init (c : Config) (u : Uninit) : QuorumInv (consensusInit c u) where
  count := ⟨fun h => NodeState.noConfusion h, List.nodup_nil, fun _ h => absurd h List.not_mem_nil⟩
  counted h := NodeState.noConfusion h
  leads _ h := absurd h List.not_mem_nil

/-- A node enters LEADER with the VOTEs of all its targets for its term, as long as it counts
distinct targets and VOTEs of its term only. -/
theorem leader_has_quorum (c : Config) (u : Uninit) (events : List Event)
    (hmeets : Run.Meets step (fun n e => n.countsDistinct e ∧ n.countsOwnTerm e)
      (consensusInit c u) events) :
    ∀ lead ∈ (run (consensusInit c u) events).hist.leads, ∀ lid < c.targets.length, lid ∈ lead.2 := by
  have hinv : QuorumInv (run (consensusInit c u) events) ∧
      (run (consensusInit c u) events).numOfTargets = c.targets.length := by
    refine Run.invariant step (I := fun n => QuorumInv n ∧ n.numOfTargets = c.targets.length)
      (fun n e hn hcond => ?_) ⟨quorumInv_init c u, consensusInit_numOfTargets c u⟩ hmeets
    exact ⟨n.step_preserves e (fun _ _ => quorumInv_act hcond.1 hcond.2) hn.1,
      (step_numOfTargets n e).trans hn.2⟩
  exact hinv.2 ▸ hinv.1.leads

instance (n : Node) : (e : Event) → Decidable (n.countsDistinct e)
  | .handle .. => inferInstanceAs (Decidable (_ → _))
  | .rx .. | .tick | .request .. | .oneShot .. | .work .. | .user .. | .leConfig .. | .pmStart
  | .pmStop | .pmHalt | .pmFail | .start | .stop => isTrue trivial

instance (n : Node) : (e : Event) → Decidable (n.countsOwnTerm e)
  | .handle .. => inferInstanceAs (Decidable (_ ∧ _))
  | .rx .. | .tick | .request .. | .oneShot .. | .work .. | .user .. | .leConfig .. | .pmStart
  | .pmStop | .pmHalt | .pmFail | .start | .stop => isTrue trivial

theorem leader_has_quorum_elected :
    (1, [1, 0]) ∈ (run (consensusInit (smallConfig 1 [2, 3]) zeroUninit) (joining ++
        [.handle 0 (setLeOpcode .vote 1 0 0 0), .handle 1 (setLeOpcode .vote 1 0 0 0)])).hist.leads ∧
      ∀ lid < 2, lid ∈ [1, 0] :=
  have hlead : (1, [1, 0]) ∈ (run (consensusInit (smallConfig 1 [2, 3]) zeroUninit) (joining ++
      [.handle 0 (setLeOpcode .vote 1 0 0 0),
        .handle 1 (setLeOpcode .vote 1 0 0 0)])).hist.leads := by decide
  ⟨hlead, leader_has_quorum _ _ _ (by decide) _ hlead⟩

/-- The first target's VOTE arrives twice, and the node enters LEADER without the second one's. -/
theorem leader_without_quorum :
    ¬ ∀ (c : Config) (u : Uninit) (events : List Event),
      ∀ lead ∈ (run (consensusInit c u) events).hist.leads,
        ∀ lid < c.targets.length, lid ∈ lead.2 := by
  intro h
  have := h (smallConfig 1 [2, 3]) zeroUninit (joining ++
    [.handle 0 (setLeOpcode .vote 1 0 0 0), .handle 0 (setLeOpcode .vote 1 0 0 0)])
  revert this
  decide

/-! ### Votes given -/

/-- Of the nominations that `voted` alone could stop, none is for a term below the last one voted
for, nor for the term that `voted` holds as long as it holds none. -/
def votesAscending (n : Node) : Event → Prop
  | .handle lid pkt => n.takesNomination pkt → n.electable lid pkt →
      pkt.param1.toNat ≠ u32 (-1) ∧ (n.priv.voted = u32 (-1) ∨ n.priv.voted ≤ pkt.param1.toNat)
  | _ => True

instance (n : Node) : (e : Event) → Decidable (n.votesAscending e)
  | .handle .. => inferInstanceAs (Decidable (_ → _ → _ ∧ _))
  | .rx .. | .tick | .request .. | .oneShot .. | .work .. | .user .. | .leConfig .. | .pmStart
  | .pmStop | .pmHalt | .pmFail | .start | .stop => isTrue trivial

theorem electable_of_grants {lid : Nat} {pkt : ConRecord} (h : n.grantsNomination lid pkt) :
    n.electable lid pkt ∧ n.priv.voted ≠ pkt.param1.toNat := by
  simp only [grantsNomination, checkHandleNomination, catchUpTerm] at h
  split at h
  · simp [grantsVote, setTerm] at h
  case isFalse hid =>
  unfold grantsVote at h
  split_ifs at h with hterm hvoted hleader hempty
  · exact ⟨⟨by omega, hterm, hleader, .inl hempty⟩, hvoted⟩
  · exact ⟨⟨by omega, hterm, hleader, .inr (by simpa using h)⟩, hvoted⟩

/-- The votes given are for descending terms, newest first, and `voted` is the newest. -/
structure VotedInv (n : Node) : Prop where
  descending : (n.hist.votesGiven.map Prod.snd).Pairwise (· > ·)
  le_voted : ∀ vote ∈ n.hist.votesGiven, vote.2 ≤ n.priv.voted
  fresh : n.priv.voted = u32 (-1) → n.hist.votesGiven = []

theorem votedInv_act (hcond : s.votesAscending e) (h : Act s e n n') (hn : VotedInv n) :
    VotedInv n' := by
  have hframe : n'.priv.voted = n.priv.voted → n'.hist.votesGiven = n.hist.votesGiven →
      VotedInv n' := by
    intro hvoted hgiven
    constructor
    · rw [hgiven]; exact hn.descending
    · rw [hgiven, hvoted]; exact hn.le_voted
    · rw [hgiven, hvoted]; exact hn.fresh
  cases h with
  | quiet h => exact hframe h.voted (by rw [h.hist])
  | noteVote lid pkt =>
    obtain ⟨voters, heq, -⟩ := s.noteVote_eq lid pkt
    exact hframe (by rw [heq]) (by rw [heq])
  | leaderCommit =>
    obtain ⟨log, heq⟩ := n.updateCommitIdx_eq
    exact hframe (by rw [heq]) (by rw [heq])
  | grant _ lid pkt he hlid hnomi hgrant hvoted hgiven hconfig =>
    subst he
    obtain ⟨helect, hother⟩ := electable_of_grants hgrant
    obtain ⟨hnever, hasc⟩ := hcond hnomi helect
    have hterm : u32 (asI32 pkt.param1) = pkt.param1.toNat := u32_asI32 _
    have hlt : ∀ vote ∈ n.hist.votesGiven, vote.2 < pkt.param1.toNat := by
      intro vote hvote
      have hle := hn.le_voted vote hvote
      rcases hasc with hfresh | hasc
      · rw [hn.fresh (hvoted.trans hfresh)] at hvote
        exact absurd hvote List.not_mem_nil
      · omega
    constructor
    · simp only [replyVote, setupLeMsg, send, hterm, List.map_cons, List.pairwise_cons]
      refine ⟨fun t ht => ?_, hn.descending⟩
      obtain ⟨vote, hvote, rfl⟩ := List.mem_map.mp ht
      exact hlt vote hvote
    · simp only [replyVote, setupLeMsg, send, hterm, List.mem_cons]
      rintro vote (rfl | hvote)
      · exact le_rfl
      · exact (hlt vote hvote).le
    · simp only [replyVote, setupLeMsg, send, hterm]
      exact fun h => absurd h hnever
  | _ => exact hframe rfl rfl

theorem votedInv_init (c : Config) (u : Uninit) : VotedInv (consensusInit c u) where
  descending := List.Pairwise.nil
  le_voted _ h := absurd h List.not_mem_nil
  fresh _ := rfl

/-- A node votes for at most one candidate in a term, as long as the nominations it could grant come
for ascending terms. -/
theorem votes_once_per_term (c : Config) (u : Uninit) (events : List Event)
    (hmeets : Run.Meets step votesAscending (consensusInit c u) events) :
    ∀ a b T, (a, T) ∈ (run (consensusInit c u) events).hist.votesGiven →
      (b, T) ∈ (run (consensusInit c u) events).hist.votesGiven → a = b := by
  have hinv : VotedInv (run (consensusInit c u) events) :=
    Run.invariant step (fun n e hn hcond => n.step_preserves e (fun _ _ => votedInv_act hcond) hn)
      (votedInv_init c u) hmeets
  intro a b T ha hb
  have hnodup : ((run (consensusInit c u) events).hist.votesGiven.map Prod.snd).Nodup :=
    hinv.descending.imp fun h => ne_of_gt h
  exact congrArg Prod.fst (List.inj_on_of_nodup_map hnodup ha hb rfl)

theorem votes_once_per_term_given :
    (1, 1) ∈ (run (consensusInit (smallConfig 3 [1, 2]) zeroUninit) (joining ++
        [.handle 0 (setLeOpcode .nomi 1 0 (-1) 0),
          .handle 1 (setLeOpcode .nomi 2 0 (-1) 0)])).hist.votesGiven ∧
      ∀ b, (b, 1) ∈ (run (consensusInit (smallConfig 3 [1, 2]) zeroUninit) (joining ++
        [.handle 0 (setLeOpcode .nomi 1 0 (-1) 0),
          .handle 1 (setLeOpcode .nomi 2 0 (-1) 0)])).hist.votesGiven → 1 = b :=
  have hgiven : (1, 1) ∈ (run (consensusInit (smallConfig 3 [1, 2]) zeroUninit) (joining ++
      [.handle 0 (setLeOpcode .nomi 1 0 (-1) 0),
        .handle 1 (setLeOpcode .nomi 2 0 (-1) 0)])).hist.votesGiven := by decide
  ⟨hgiven, fun b => votes_once_per_term _ _ _ (by decide) 1 b 1 hgiven⟩

/-- A vote for term 2 makes the node forget its vote for term 1. -/
theorem votes_twice_per_term :
    ¬ ∀ (c : Config) (u : Uninit) (events : List Event),
      ∀ a b T, (a, T) ∈ (run (consensusInit c u) events).hist.votesGiven →
        (b, T) ∈ (run (consensusInit c u) events).hist.votesGiven → a = b := by
  intro h
  have := h (smallConfig 3 [1, 2]) zeroUninit (joining ++
    [.handle 0 (setLeOpcode .nomi 1 0 (-1) 0), .handle 0 (setLeOpcode .nomi 2 0 (-1) 0),
      .handle 1 (setLeOpcode .nomi 1 0 (-1) 0)]) 1 2 1 (by decide) (by decide)
  revert this
  decide

end Node

end XlaneLkm
