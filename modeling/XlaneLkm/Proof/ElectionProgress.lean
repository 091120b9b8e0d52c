import XlaneLkm.Proof.Posts
import XlaneLkm.Proof.Election
import XlaneLkm.Proof.ElectionSafety
import XlaneLkm.Proof.CmdLogMemory

/-!
# Elections end

A candidate has nominated itself, and every other node is ready to vote for it. From there on its
nomination, the votes for it and its first heartbeats may be delivered in any order: as long as it does
not lead, or a node does not follow it, there is something left to deliver, and it comes to an end.
-/

namespace XlaneLkm

open MachineInt

namespace Node

variable {n : Node} {lid : Nat} {pkt : ConRecord} {T : Int}

/-! ### What the three deliveries do -/

theorem grants_of_electable (h : n.electable lid pkt) (hvoted : n.priv.voted ≠ pkt.param1.toNat) :
    n.checkHandleNomination pkt.param1.toNat pkt.param3.toNat pkt.param4.toNat (n.rclusterId lid) =
      (n, true) := by
  obtain ⟨hid, hterm, hleader, hlog⟩ := h
  have hcatch : n.catchUpTerm pkt.param1.toNat (n.rclusterId lid) = n :=
    if_neg fun hcatch => absurd hcatch.1 (Nat.not_lt.mpr hid)
  have hgrants : n.grantsVote pkt.param1.toNat pkt.param3.toNat pkt.param4.toNat (n.rclusterId lid) =
      true := by
    unfold grantsVote
    rw [if_pos hterm, if_neg hvoted, if_neg hleader]
    split
    · rfl
    case isFalse hlast => exact decide_eq_true (hlog.resolve_left hlast)
  unfold checkHandleNomination
  dsimp only
  rw [hcatch, hgrants]

/-- The node has voted for the sender of the nomination. -/
structure HasVoted (n : Node) (lid : Nat) (T : Int) : Prop where
  state : n.priv.state = .running
  nstate : n.priv.nstate = .follower
  nonneg : 0 ≤ n.priv.term
  term_lt : n.priv.term < T
  voted : n.priv.voted = u32 T
  vote : ∃ vote, (Dest.target lid, some vote) ∈ n.sent ∧ vote.opcodeVal = some .vote ∧
    vote.param1 = toU32 T

/-- The node is ready to vote for the sender of the nomination. -/
structure Elector (n : Node) (lid : Nat) (nomi : ConRecord) (T : Int) : Prop where
  takes : n.takesNomination nomi
  electable : n.electable lid nomi
  voted : n.priv.voted ≠ u32 T
  nonneg : 0 ≤ n.priv.term
  term_lt : n.priv.term < T

theorem Elector.votes (h : n.Elector lid pkt T) (hlid : lid < n.numOfTargets)
    (hpkt : pkt.param1 = toU32 T) : (n.step (.handle lid pkt)).HasVoted lid T := by
  obtain ⟨hrun, hrole, hop⟩ := h.takes
  have hterm : u32 (asI32 pkt.param1) = u32 T := by rw [hpkt, asI32_toU32, u32_i32]
  have hcheck := grants_of_electable h.electable fun heq => h.voted
    (heq.trans (by rw [hpkt, toU32_toNat]))
  have hnote : n.noteVote lid pkt = n := noteVote_of_ne (by simp [hop])
  have hword : toU32 (asI32 pkt.param1) = toU32 T := UInt32.toNat_inj.mp (by
    rw [toU32_toNat, hterm, toU32_toNat])
  have hvote : ∀ m : Node, ∃ vote, (Dest.target lid, some vote) ∈
      (m.replyVote lid (n.rclusterId lid) (asI32 pkt.param1) (asI32 pkt.param2)).sent ∧
        vote.opcodeVal = some .vote ∧ vote.param1 = toU32 T := fun m =>
    ⟨_, List.mem_cons_self, setLeOpcode_opcodeVal .., hword⟩
  have hstep : n.step (.handle lid pkt) = n.consensusPostPayload lid (n.rclusterId lid) pkt := by
    simp only [step, if_pos hlid, hnote]
  rw [hstep, consensusPostPayload, if_neg (not_not.mpr hrun)]
  rcases hrole with hfollower | hcandidate
  · simp only [hfollower, followerProcessPkt, hop, hcheck]
    exact ⟨hrun, hfollower, h.nonneg, h.term_lt, hterm, hvote n⟩
  · simp only [hcandidate, candidateProcessPkt, hop, hcheck]
    obtain ⟨idx, sent, heq⟩ := enterFollower_eq n.resetVotes
    rw [nodeTransition_follower, heq]
    exact ⟨hrun, rfl, h.nonneg, h.term_lt, hterm, hvote _⟩

/-- The node stands for election in its term. -/
structure Standing (n : Node) (T : Int) : Prop where
  state : n.priv.state = .running
  nstate : n.priv.nstate = .candidate
  term : n.priv.term = T
  isLeader : n.sdev.isLeader = false
  warm : n.sdev.warmupState ≠ .warmingUp
  votes : n.priv.votes = n.hist.counted.length
  nodup : n.hist.counted.Nodup
  counted : ∀ l ∈ n.hist.counted, l < n.numOfTargets
  missing : n.hist.counted.length < n.numOfTargets

/-- The node leads, and every target has been sent an ALIVE. -/
structure Leads (n : Node) (T : Int) : Prop where
  state : n.priv.state = .running
  nstate : n.priv.nstate = .leader
  term : n.priv.term = T
  isLeader : n.sdev.isLeader = true
  alive : ∀ l < n.numOfTargets, ∃ alive, (Dest.target l, some alive) ∈ n.sent ∧
    alive.opcodeVal = some .alive ∧ alive.param1 = toU32 T

theorem startLeader_alive (n : Node) (hwarm : n.sdev.warmupState ≠ .warmingUp) {l : Nat}
    (hl : l < n.numOfTargets) : ∃ alive, (Dest.target l, some alive) ∈ n.startLeader.sent ∧
      alive.opcodeVal = some .alive ∧ alive.param1 = toU32 n.priv.term := by
  obtain ⟨sent, hinit⟩ := preHbSetups_eq (List.range n.recordLead.numOfTargets)
    { n.recordLead with leaderIdx := n.recordLead.resetIndices n.recordLead.numOfTargets }
  let m : Node := { n.recordLead with
    leaderIdx := n.recordLead.resetIndices n.recordLead.numOfTargets
    sent := sent
    sdev.isLeader := true
    priv.candidateCounter := 0 }
  have hstart : n.startLeader =
      checkPendingLogRep ((List.range m.numOfTargets).foldl preHbSetup m) := by
    unfold startLeader
    rw [initializeIndices_eq, hinit]
  have hrecord : m.hbRecord = some m.setupAliveMsg := (if_neg hwarm).trans rfl
  have hmem : (Dest.target l, some m.setupAliveMsg) ∈
      ((List.range m.numOfTargets).foldl preHbSetup m).sent := by
    refine mem_sent_foldl (P := fun k => k.hbRecord = some m.setupAliveMsg) preHbSetup_posts
      (fun k i hk => ?_) (List.mem_range.mpr hl) hrecord
    rw [preHbSetup, hk]
    exact ⟨hk, List.mem_cons_self⟩
  rw [hstart]
  exact ⟨_, mem_of_posts (checkPendingLogRep_posts _) hmem, setLeOpcode_opcodeVal .., rfl⟩

theorem Standing.acceptVote (h : n.Standing T) (hlid : lid < n.numOfTargets)
    (hnew : lid ∉ n.hist.counted) (htargets : (n.acceptVote lid).numOfTargets = n.numOfTargets) :
    ((n.acceptVote lid).Standing T ∧ (n.acceptVote lid).hist.counted = lid :: n.hist.counted) ∨
      (n.acceptVote lid).Leads T ∧ n.hist.counted.length + 1 = n.numOfTargets := by
  have hvotes := h.votes
  have hmissing := h.missing
  rw [acceptVote_eq lid h.nstate] at htargets ⊢
  by_cases hall : n.priv.votes + 1 = n.numOfTargets
  case pos =>
    rw [if_pos hall] at htargets ⊢
    refine .inr ⟨?_, by omega⟩
    obtain ⟨hroles, -⟩ := startLeader_roles (n.countVote lid).resetVotes h.isLeader
    have halive : ∀ l < n.numOfTargets, _ := fun l hl =>
      startLeader_alive (n.countVote lid).resetVotes h.warm hl
    generalize (n.countVote lid).resetVotes.startLeader = m at hroles halive htargets ⊢
    constructor
    · exact (congrArg Roles.state hroles).trans h.state
    · rfl
    · exact (congrArg Roles.term hroles).trans h.term
    · exact congrArg Roles.isLeader hroles
    · intro l hl
      obtain ⟨alive, hmem, halive, hterm⟩ := halive l (htargets ▸ hl)
      exact ⟨alive, hmem, halive, hterm.trans (congrArg toU32 h.term)⟩
  case neg =>
    rw [if_neg hall]
    refine .inl ⟨⟨h.state, h.nstate, h.term, h.isLeader, h.warm, ?_, ?_, ?_, ?_⟩, rfl⟩
    · change n.priv.votes + 1 = ((lid :: n.hist.counted).length : Nat)
      rw [List.length_cons]
      omega
    · exact List.nodup_cons.mpr ⟨hnew, h.nodup⟩
    · intro l hl
      rcases List.mem_cons.mp hl with rfl | hold
      · exact hlid
      · exact h.counted l hold
    · change (lid :: n.hist.counted).length < n.numOfTargets
      rw [List.length_cons]
      omega

/-- A vote is counted, and the last one makes the node lead. -/
theorem Standing.takesVote (h : n.Standing T) (hlid : lid < n.numOfTargets)
    (hop : pkt.opcodeVal = some .vote) (hnew : lid ∉ n.hist.counted) :
    ((n.step (.handle lid pkt)).Standing T ∧
        (n.step (.handle lid pkt)).hist.counted = lid :: n.hist.counted) ∨
      (n.step (.handle lid pkt)).Leads T ∧ n.hist.counted.length + 1 = n.numOfTargets := by
  have hstep : n.step (.handle lid pkt) = (n.noteVote lid pkt).acceptVote lid := by
    have hpriv := n.noteVote_priv lid pkt
    simp only [step, if_pos hlid, consensusPostPayload, hpriv, h.state, h.nstate, ne_eq,
      not_true_eq_false, if_false, candidateProcessPkt, hop]
  have htargets := numOfTargets_of_config (n.step_config (.handle lid pkt))
  obtain ⟨voters, hnote, -⟩ := n.noteVote_eq lid pkt
  rw [hstep, hnote] at htargets ⊢
  have hnoted : ({ n with hist.voters := voters } : Node).Standing T :=
    ⟨h.state, h.nstate, h.term, h.isLeader, h.warm, h.votes, h.nodup, h.counted, h.missing⟩
  exact hnoted.acceptVote hlid hnew htargets

/-- The node follows the leader with this cluster id. -/
structure Obeys (n : Node) (leaderId : Nat) (T : Int) : Prop where
  state : n.priv.state = .running
  nstate : n.priv.nstate = .follower
  term : n.priv.term = T
  leaderId : n.priv.leaderId = leaderId

/-- An ALIVE of a later term is obeyed. -/
theorem obeys_of_alive (hrun : n.priv.state = .running)
    (hrole : n.priv.nstate = .follower ∨ n.priv.nstate = .candidate) (hterm : n.priv.term < T)
    (hlid : lid < n.numOfTargets) (hop : pkt.opcodeVal = some .alive) (hpkt : asI32 pkt.param1 = T) :
    (n.step (.handle lid pkt)).Obeys (u32 (n.rclusterId lid)) T ∧
      (n.step (.handle lid pkt)).priv.voted = n.priv.voted := by
  have hnote : n.noteVote lid pkt = n := noteVote_of_ne (by simp [hop])
  have hstep : n.step (.handle lid pkt) = n.consensusPostPayload lid (n.rclusterId lid) pkt := by
    simp only [step, if_pos hlid, hnote]
  have haccept : (n.acceptLeader lid (n.rclusterId lid) T).Obeys (u32 (n.rclusterId lid)) T ∧
      (n.acceptLeader lid (n.rclusterId lid) T).priv.voted = n.priv.voted := by
    obtain ⟨idx, sent, heq⟩ := enterFollower_eq (n.accept lid (n.rclusterId lid) T)
    rw [acceptLeader_eq, heq]
    exact ⟨⟨hrun, rfl, rfl, rfl⟩, rfl⟩
  rw [hstep, consensusPostPayload, if_neg (not_not.mpr hrun)]
  rcases hrole with hfollower | hcandidate
  · simp only [hfollower, followerProcessPkt, hop, hpkt, if_pos hterm, gt_iff_lt]
    split
    · exact ⟨⟨haccept.1.state, haccept.1.nstate, haccept.1.term, haccept.1.leaderId⟩, haccept.2⟩
    · exact haccept
  · simp only [hcandidate, candidateProcessPkt, hop, hpkt, ge_iff_le, if_pos hterm.le]
    exact haccept

end Node

namespace Cluster

variable {ι : Type*} [DecidableEq ι] {c : Cluster ι} {i : ι} {nomi : ConRecord} {T : Int}
  {w : World ι} {move : Move ι}

/-- `i` has nominated itself for the term `T`, and all others are ready to vote for it. -/
structure Nominated (c : Cluster ι) (i : ι) (nomi : ConRecord) (T : Int) (w : World ι) : Prop where
  wraps : i32 T = T
  param1 : nomi.param1 = toU32 T
  configured : ∀ j, c.IsConfigured j (w.node j)
  standing : (w.node i).Standing T
  sent : ∀ j, j ≠ i → (Dest.target (c.lid i j), some nomi) ∈ (w.node i).sent
  electors : ∀ j, j ≠ i → (w.node j).Elector (c.lid j i) nomi T

/-- The move delivers something that the election of `i` still needs. -/
inductive Electing (c : Cluster ι) (i : ι) (nomi : ConRecord) (T : Int) (w : World ι) (move : Move ι) :
    Prop where
  | nominate (j : ι) (hj : j ≠ i) (hstate : (w.node i).priv.nstate = .candidate)
      (hevent : c.event w move = some (j, .handle (c.lid j i) nomi))
      (hvoted : (w.node j).priv.voted ≠ u32 T)
  | vote (j : ι) (hj : j ≠ i) (hstate : (w.node i).priv.nstate = .candidate) (pkt : ConRecord)
      (hevent : c.event w move = some (i, .handle (c.lid i j) pkt))
      (hop : pkt.opcodeVal = some .vote) (hterm : pkt.param1 = toU32 T)
      (hnew : c.lid i j ∉ (w.node i).hist.counted)
  | alive (j : ι) (hj : j ≠ i) (hstate : (w.node i).priv.nstate = .leader) (pkt : ConRecord)
      (hevent : c.event w move = some (j, .handle (c.lid j i) pkt))
      (hop : pkt.opcodeVal = some .alive) (hterm : pkt.param1 = toU32 T)
      (hnew : (w.node j).priv.term ≠ T)

/-- Where the election stands. -/
structure Ballot (c : Cluster ι) (i : ι) (nomi : ConRecord) (T : Int) (w : World ι) : Prop where
  configured : ∀ j, c.IsConfigured j (w.node j)
  sent : ∀ j, j ≠ i → (Dest.target (c.lid i j), some nomi) ∈ (w.node i).sent
  others : ∀ j, j ≠ i → (w.node j).Elector (c.lid j i) nomi T ∨ (w.node j).HasVoted (c.lid j i) T ∨
    (w.node i).priv.nstate = .leader ∧ (w.node j).Obeys (c.cid i) T
  candidate : (w.node i).Standing T ∨ (w.node i).Leads T

/-- What has been delivered of what the election needs. -/
def delivered (c : Cluster ι) (i : ι) (T : Int) (w : World ι) : Nat :=
  (c.peers i).countP (fun j => (w.node j).priv.voted = u32 T) +
    (if (w.node i).priv.nstate = .candidate then (w.node i).hist.counted.length
      else (c.peers i).length) +
    (c.peers i).countP fun j => (w.node j).priv.term = T

theorem Nominated.ballot (h : c.Nominated i nomi T w) : c.Ballot i nomi T w :=
  ⟨h.configured, h.sent, fun j hj => .inl (h.electors j hj), .inl h.standing⟩

theorem Ballot.lid_lt (h : c.Ballot i nomi T w) {a b : ι} (hne : b ≠ a) :
    c.lid a b < (w.node a).numOfTargets := by
  rw [(h.configured a).numOfTargets]
  exact List.idxOf_lt_length_iff.mpr ((c.mem_peers a b).mpr hne)

theorem Ballot.numOfTargets (h : c.Ballot i nomi T w) : (w.node i).numOfTargets = (c.peers i).length :=
  (h.configured i).numOfTargets

theorem Ballot.rclusterId (h : c.Ballot i nomi T w) {j : ι} (hj : j ≠ i) :
    u32 ((w.node j).rclusterId (c.lid j i)) = c.cid i := by
  rw [(h.configured j).rclusterId (peers_lid hj.symm), u32_i32, u32_natCast (c.cid_lt i)]

/-- The node of a move keeps its part of the ballot, all others theirs. -/
theorem Ballot.act (h : c.Ballot i nomi T w) {a : ι} {e : Event}
    (hleader : (w.node i).priv.nstate = .leader → ((w.act a e).node i).priv.nstate = .leader)
    (hother : ∀ j, j = a → j ≠ i → ((w.node j).step e).Elector (c.lid j i) nomi T ∨
      ((w.node j).step e).HasVoted (c.lid j i) T ∨
        ((w.act a e).node i).priv.nstate = .leader ∧ ((w.node j).step e).Obeys (c.cid i) T)
    (hcandidate : a = i → ((w.node i).step e).Standing T ∨ ((w.node i).step e).Leads T) :
    c.Ballot i nomi T (w.act a e) := by
  constructor
  · exact World.forall_act (I := fun j n => c.IsConfigured j n) (fun j _ => h.configured j)
      ((Node.step_config _ e).trans (h.configured a))
  · intro j hj
    by_cases ha : i = a
    · subst ha
      obtain ⟨fresh, hsent⟩ := (w.node i).step_sent e
      rw [World.act_self, hsent]
      exact List.mem_append_right fresh (h.sent j hj)
    · rw [World.act_of_ne w e ha]
      exact h.sent j hj
  · intro j hj
    by_cases ha : j = a
    · subst ha
      have hnew := hother j rfl hj
      rw [World.act_self]
      exact hnew
    · rw [World.act_of_ne w e ha]
      rcases h.others j hj with helector | hvoted | ⟨hleads, hobeys⟩
      · exact .inl helector
      · exact .inr (.inl hvoted)
      · exact .inr (.inr ⟨hleader hleads, hobeys⟩)
  · by_cases ha : i = a
    · subst ha
      rw [World.act_self]
      exact hcandidate rfl
    · rw [World.act_of_ne w e ha]
      exact h.candidate

/-! ### One delivery -/

theorem delivered_voted {a : ι} {e : Event} (ha : a ≠ i) (hbefore : (w.node a).priv.voted ≠ u32 T)
    (hafter : ((w.node a).step e).priv.voted = u32 T) (hterm : (w.node a).priv.term ≠ T)
    (hterm' : ((w.node a).step e).priv.term ≠ T) :
    c.delivered i T (w.act a e) = c.delivered i T w + 1 := by
  have hvoted := Quorum.countP_turned (p := fun j => decide ((w.node j).priv.voted = u32 T))
    (q := fun j => decide (((w.act a e).node j).priv.voted = u32 T)) (c.nodup_peers i)
    ((c.mem_peers i a).mpr ha) (decide_eq_false hbefore)
    (by rw [World.act_self]; exact decide_eq_true hafter)
    fun b _ hb => by rw [World.act_of_ne w e hb]
  have hterms : (c.peers i).countP (fun j => decide (((w.act a e).node j).priv.term = T)) =
      (c.peers i).countP fun j => decide ((w.node j).priv.term = T) := by
    refine List.countP_congr fun b _ => ?_
    by_cases hb : b = a
    · subst hb
      rw [World.act_self, decide_eq_false hterm, decide_eq_false hterm']
    · rw [World.act_of_ne w e hb]
  unfold delivered
  rw [hvoted, hterms, World.act_of_ne w e ha.symm]
  omega

theorem delivered_obeyed {a : ι} {e : Event} (ha : a ≠ i) (hbefore : (w.node a).priv.term ≠ T)
    (hafter : ((w.node a).step e).priv.term = T)
    (hvoted : ((w.node a).step e).priv.voted = (w.node a).priv.voted) :
    c.delivered i T (w.act a e) = c.delivered i T w + 1 := by
  have hterms := Quorum.countP_turned (p := fun j => decide ((w.node j).priv.term = T))
    (q := fun j => decide (((w.act a e).node j).priv.term = T)) (c.nodup_peers i)
    ((c.mem_peers i a).mpr ha) (decide_eq_false hbefore)
    (by rw [World.act_self]; exact decide_eq_true hafter)
    fun b _ hb => by rw [World.act_of_ne w e hb]
  have hvotes : (c.peers i).countP (fun j => decide (((w.act a e).node j).priv.voted = u32 T)) =
      (c.peers i).countP fun j => decide ((w.node j).priv.voted = u32 T) := by
    refine List.countP_congr fun b _ => ?_
    by_cases hb : b = a
    · subst hb
      rw [World.act_self, hvoted]
    · rw [World.act_of_ne w e hb]
  unfold delivered
  rw [hvotes, hterms, World.act_of_ne w e ha.symm]
  omega

/-- What the candidate itself does leaves the others' part of the count alone. -/
theorem delivered_counted {e : Event}
    (hcount : (if ((w.node i).step e).priv.nstate = .candidate then
        ((w.node i).step e).hist.counted.length else (c.peers i).length) =
      (if (w.node i).priv.nstate = .candidate then (w.node i).hist.counted.length
        else (c.peers i).length) + 1) :
    c.delivered i T (w.act i e) = c.delivered i T w + 1 := by
  have hother : ∀ b ∈ c.peers i, (w.act i e).node b = w.node b := fun b hb =>
    World.act_of_ne w e ((c.mem_peers i b).mp hb)
  have hvotes : (c.peers i).countP (fun j => decide (((w.act i e).node j).priv.voted = u32 T)) =
      (c.peers i).countP fun j => decide ((w.node j).priv.voted = u32 T) :=
    List.countP_congr fun b hb => by rw [hother b hb]
  have hterms : (c.peers i).countP (fun j => decide (((w.act i e).node j).priv.term = T)) =
      (c.peers i).countP fun j => decide ((w.node j).priv.term = T) :=
    List.countP_congr fun b hb => by rw [hother b hb]
  unfold delivered
  rw [hvotes, hterms, World.act_self, hcount]
  omega

/-- **Step lemma.** A delivery the election needs takes it one step further. -/
theorem Ballot.step (h : c.Ballot i nomi T w) (hparam1 : nomi.param1 = toU32 T) (hwraps : i32 T = T)
    (hmove : c.Electing i nomi T w move) :
    c.Ballot i nomi T (c.step w move) ∧ c.delivered i T (c.step w move) = c.delivered i T w + 1 := by
  cases hmove with
  | nominate j hj hstate hevent hvoted =>
    have helector : (w.node j).Elector (c.lid j i) nomi T := by
      rcases h.others j hj with helector | hdone | ⟨hleads, -⟩
      · exact helector
      · exact absurd hdone.voted hvoted
      · rw [hstate] at hleads
        cases hleads
    have hdone := helector.votes (h.lid_lt hj.symm) hparam1
    rw [step_of_event hevent]
    constructor
    · refine h.act ?_ (fun k hk _ => ?_) fun heq => absurd heq hj
      · rw [World.act_of_ne w _ hj.symm]
        exact id
      · subst hk
        exact .inr (.inl hdone)
    · exact delivered_voted hj hvoted hdone.voted helector.term_lt.ne hdone.term_lt.ne
  | vote j hj hstate pkt hevent hop _ hnew =>
    have hstanding : (w.node i).Standing T := h.candidate.resolve_right fun hleads => by
      have hleader := hleads.nstate
      rw [hstate] at hleader
      cases hleader
    have htakes := hstanding.takesVote (h.lid_lt hj) hop hnew
    rw [step_of_event hevent]
    constructor
    · refine h.act (fun hleads => ?_) (fun k hk hne => absurd hk hne) fun _ => ?_
      · rw [hstate] at hleads
        cases hleads
      · exact htakes.imp And.left And.left
    · refine delivered_counted ?_
      rw [if_pos hstate]
      rcases htakes with ⟨hstill, hcounted⟩ | ⟨hleads, hlength⟩
      · rw [if_pos hstill.nstate, hcounted, List.length_cons]
      · rw [if_neg (by simp [hleads.nstate]), ← h.numOfTargets, hlength]
  | alive j hj hstate pkt hevent hop hterm hnew =>
    have hready : (w.node j).priv.state = .running ∧
        ((w.node j).priv.nstate = .follower ∨ (w.node j).priv.nstate = .candidate) ∧
          (w.node j).priv.term < T := by
      rcases h.others j hj with helector | hdone | ⟨-, hobeys⟩
      · exact ⟨helector.takes.1, helector.takes.2.1, helector.term_lt⟩
      · exact ⟨hdone.state, .inl hdone.nstate, hdone.term_lt⟩
      · exact absurd hobeys.term hnew
    have hword : asI32 pkt.param1 = T := by rw [hterm, asI32_toU32, hwraps]
    obtain ⟨hobeys, hvoted⟩ :=
      Node.obeys_of_alive hready.1 hready.2.1 hready.2.2 (h.lid_lt hj.symm) hop hword
    rw [h.rclusterId hj] at hobeys
    rw [step_of_event hevent]
    constructor
    · refine h.act ?_ (fun k hk _ => ?_) fun heq => absurd heq hj
      · rw [World.act_of_ne w _ hj.symm]
        exact id
      · subst hk
        exact .inr (.inr ⟨by rw [World.act_of_ne w _ hj.symm]; exact hstate, hobeys⟩)
    · exact delivered_obeyed hj hnew hobeys.term hvoted

/-- **Run lemma.** Each delivery counts. -/
theorem Ballot.run (hparam1 : nomi.param1 = toU32 T) (hwraps : i32 T = T) {moves : List (Move ι)}
    (h : c.Ballot i nomi T w) (hmoves : Run.Meets c.step (c.Electing i nomi T) w moves) :
    c.Ballot i nomi T (Run.run c.step w moves) ∧
      c.delivered i T (Run.run c.step w moves) = c.delivered i T w + moves.length := by
  induction moves generalizing w with
  | nil => exact ⟨h, rfl⟩
  | cons move moves ih =>
    obtain ⟨hnext, hone⟩ := h.step hparam1 hwraps hmoves.1
    obtain ⟨hend, hall⟩ := ih hnext hmoves.2
    refine ⟨hend, ?_⟩
    rw [Run.run_cons, hall, hone, List.length_cons]
    omega

theorem Ballot.delivered_le (h : c.Ballot i nomi T w) :
    c.delivered i T w ≤ 3 * (c.peers i).length := by
  have hvotes := List.countP_le_length (l := c.peers i)
    (p := fun j => decide ((w.node j).priv.voted = u32 T))
  have hterms := List.countP_le_length (l := c.peers i)
    (p := fun j => decide ((w.node j).priv.term = T))
  have hcounted : (if (w.node i).priv.nstate = .candidate then (w.node i).hist.counted.length
      else (c.peers i).length) ≤ (c.peers i).length := by
    rcases h.candidate with hstanding | hleads
    · rw [if_pos hstanding.nstate, ← h.numOfTargets]
      exact hstanding.missing.le
    · rw [if_neg (by simp [hleads.nstate])]
  unfold delivered
  omega

/-! ### Something is left to deliver until all follow -/

theorem exists_deliver {src dst : ι} {pkt : ConRecord} (hne : dst ≠ src)
    (hsent : (Dest.target (c.lid src dst), some pkt) ∈ (w.node src).sent) :
    ∃ move, c.event w move = some (dst, .handle (c.lid dst src) pkt) := by
  obtain ⟨k, hk⟩ := List.getElem?_of_mem hsent
  refine ⟨.deliver dst src k, ?_⟩
  simp only [event, hk, c.reaches_target.mpr (peers_lid hne), if_true]

theorem Ballot.progress (h : c.Ballot i nomi T w) (helected : ∀ move, ¬c.Electing i nomi T w move) :
    (w.node i).Leads T ∧ ∀ j, j ≠ i → (w.node j).Obeys (c.cid i) T := by
  have hleads : (w.node i).Leads T := by
    refine h.candidate.resolve_left fun hstanding => ?_
    obtain ⟨l, hl, hmissing⟩ : ∃ l < (w.node i).numOfTargets, l ∉ (w.node i).hist.counted := by
      by_contra hnone
      push Not at hnone
      have hsubset : List.range (w.node i).numOfTargets ⊆ (w.node i).hist.counted := fun l hl =>
        hnone l (List.mem_range.mp hl)
      have hlength := (List.nodup_range.subperm hsubset).length_le
      rw [List.length_range] at hlength
      exact absurd hstanding.missing (Nat.not_lt.mpr hlength)
    rw [h.numOfTargets] at hl
    obtain ⟨j, hj⟩ : ∃ j, (c.peers i)[l]? = some j := ⟨_, List.getElem?_eq_getElem hl⟩
    have hne : j ≠ i := (c.mem_peers i j).mp (List.mem_of_getElem? hj)
    have hlid : c.lid i j = l := by
      obtain ⟨-, rfl⟩ := List.getElem?_eq_some_iff.mp hj
      exact (c.nodup_peers i).idxOf_getElem l hl
    rcases h.others j hne with helector | hdone | ⟨hleader, -⟩
    · obtain ⟨move, hevent⟩ := exists_deliver hne (h.sent j hne)
      exact helected move (.nominate j hne hstanding.nstate hevent helector.voted)
    · obtain ⟨vote, hvote, hop, hterm⟩ := hdone.vote
      obtain ⟨move, hevent⟩ := exists_deliver hne.symm hvote
      exact helected move (.vote j hne hstanding.nstate vote hevent hop hterm (hlid ▸ hmissing))
    · rw [hstanding.nstate] at hleader
      cases hleader
  refine ⟨hleads, fun j hj => ?_⟩
  have hlater : ¬(w.node j).priv.term ≠ T := fun hnew => by
    obtain ⟨alive, halive, hop, hterm⟩ := hleads.alive _ (h.lid_lt hj)
    obtain ⟨move, hevent⟩ := exists_deliver hj halive
    exact helected move (.alive j hj hleads.nstate alive hevent hop hterm hnew)
  rcases h.others j hj with helector | hdone | ⟨-, hobeys⟩
  · exact absurd helector.term_lt.ne hlater
  · exact absurd hdone.term_lt.ne hlater
  · exact hobeys

/-- **Elections end.** A candidate that all others are ready to vote for, and nothing but what its
election needs being delivered, in any order: at most three deliveries for each of its targets bring
it to lead and all others to follow it, and until then there is always one left. The new leader sets up
its tables, which have to have a slot for every target. -/
theorem election_completes (h : c.Nominated i nomi T w) (hfew : (c.peers i).length ≤ clusterSize)
    {moves : List (Move ι)} (hmoves : Run.Meets c.step (c.Electing i nomi T) w moves) :
    moves.length ≤ 3 * (c.peers i).length ∧
      ((∃ move, c.Electing i nomi T (Run.run c.step w moves) move) ∨
        ((Run.run c.step w moves).node i).Leads T ∧
          ∀ j, j ≠ i → ((Run.run c.step w moves).node j).Obeys (c.cid i) T) ∧
      ∀ lk, CmdLogMemory.TablesApart lk ((Run.run c.step w moves).node i) := by
  obtain ⟨hend, hlength⟩ := h.ballot.run h.param1 h.wraps hmoves
  have hbound := hend.delivered_le
  have htargets := (hend.configured i).numOfTargets.trans_le hfew
  refine ⟨by omega, or_iff_not_imp_left.mpr fun hstuck => ?_,
    fun lk => CmdLogMemory.tablesApart_of_few lk htargets⟩
  exact hend.progress fun move hmove => hstuck ⟨move, hmove⟩

/-- The nomination of node 0. -/
def firstNomination : ConRecord := setLeOpcode .nomi 1 0 (-1) 1

/-- Node 1 votes and node 2 does, both votes are counted, and both hear of the leader. -/
def firstElection : List (Move (Fin 3)) :=
  [.deliver 1 0 1, .deliver 0 1 0, .deliver 2 0 0, .deliver 0 2 0, .deliver 1 0 1, .deliver 2 0 0]

set_option maxRecDepth 10000 in
theorem nominated_threeJoining :
    threeNodes.Nominated 0 firstNomination 1 (threeNodes.run threeJoining) := by
  refine ⟨rfl, rfl, fun j => ?_, ?_, fun j hj => ?_, fun j hj => ?_⟩
  · exact Run.invariant_run threeNodes.step
      (fun w move h => forall_node_step h fun i e _ => (Node.step_config _ e).trans (h i))
      (I := fun w => ∀ j, threeNodes.IsConfigured j (w.node j)) init_isConfigured threeJoining j
  · constructor <;> decide +kernel
  · match j, hj with
    | 0, hj => exact absurd rfl hj
    | 1, _ => exact List.mem_of_getElem? (i := 1) rfl
    | 2, _ => exact List.mem_of_getElem? (i := 0) rfl
  · match j, hj with
    | 0, hj => exact absurd rfl hj
    | 1, _ => constructor <;> decide +kernel
    | 2, _ => constructor <;> decide +kernel

set_option maxRecDepth 10000 in
/-- Six deliveries, and then nothing is left. -/
theorem election_completes_firstElection :
    firstElection.length ≤ 3 * (threeNodes.peers 0).length ∧
      ((∃ move, threeNodes.Electing 0 firstNomination 1
          (Run.run threeNodes.step (threeNodes.run threeJoining) firstElection) move) ∨
        ((Run.run threeNodes.step (threeNodes.run threeJoining) firstElection).node 0).Leads 1 ∧
          ∀ j, j ≠ 0 →
            ((Run.run threeNodes.step (threeNodes.run threeJoining) firstElection).node j).Obeys
              (threeNodes.cid 0) 1) ∧
      ∀ lk, CmdLogMemory.TablesApart lk
        ((Run.run threeNodes.step (threeNodes.run threeJoining) firstElection).node 0) := by
  refine election_completes nominated_threeJoining (by decide) ⟨?_, ?_, ?_, ?_, ?_, ?_, trivial⟩
  · exact .nominate 1 (by decide) (by decide +kernel) (by rfl) (by decide +kernel)
  · exact .vote 1 (by decide) (by decide +kernel) _ rfl (by decide +kernel) (by decide +kernel)
      (by decide +kernel)
  · exact .nominate 2 (by decide) (by decide +kernel) (by rfl) (by decide +kernel)
  · exact .vote 2 (by decide) (by decide +kernel) _ rfl (by decide +kernel) (by decide +kernel)
      (by decide +kernel)
  · exact .alive 1 (by decide) (by decide +kernel) _ rfl (by decide +kernel) (by decide +kernel)
      (by decide +kernel)
  · exact .alive 2 (by decide) (by decide +kernel) _ rfl (by decide +kernel) (by decide +kernel)
      (by decide +kernel)

end Cluster

end XlaneLkm
