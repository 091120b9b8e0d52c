import XlaneLkm.Node

/-!
# What a step of a node can do

Every step of a node is a sequence of the actions below, each with the guard under which the code
takes it. Invariants are proved once per action; the functions of the source are taken apart into
actions once, in the next module. `s` is the state before the step and `e` its event: guards that
depend on the packet speak about them, since a step changes several parts of the state in turn.

An action groups what has to change together: votes are counted, reset and turned into a leadership
without a moment in between at which counter and history disagree.
-/

namespace XlaneLkm

open MachineInt

namespace Node

/-- The packet gets to `_handle_append_rpc`: sender and term are those of the accepted leader. -/
def takesAppend (n : Node) (lid : Nat) (pkt : ConRecord) : Prop :=
  n.priv.state = .running ∧ (n.priv.nstate = .follower ∨ n.priv.nstate = .candidate) ∧
    pkt.opcodeVal = some .append ∧ n.priv.leaderId = u32 (n.rclusterId lid) ∧
    n.priv.term ≤ asI32 pkt.param1

/-- The term under which the entries of an APPEND are stored: a follower has accepted its sender in
the packet's term, a candidate keeps its own. -/
def appendTerm (n : Node) (pkt : ConRecord) : Int :=
  if n.priv.nstate = .follower then asI32 pkt.param1 else n.priv.term

/-- The packet gets to `check_handle_nomination`. -/
def takesNomination (n : Node) (pkt : ConRecord) : Prop :=
  n.priv.state = .running ∧ (n.priv.nstate = .follower ∨ n.priv.nstate = .candidate) ∧
    pkt.opcodeVal = some .nomi

/-- The packet gets to `accept_vote`. -/
def takesVote (n : Node) (pkt : ConRecord) : Prop :=
  n.priv.state = .running ∧ n.priv.nstate = .candidate ∧ pkt.opcodeVal = some .vote

/-- The packet makes the node call `accept_leader` with its first parameter as term. -/
def takesLeader (n : Node) (lid : Nat) (pkt : ConRecord) : Prop :=
  n.priv.state = .running ∧
    ((n.priv.nstate = .follower ∧ n.priv.term < asI32 pkt.param1 ∧
        (pkt.opcodeVal = some .alive ∨
          pkt.opcodeVal = some .append ∧ n.priv.leaderId = u32 (n.rclusterId lid))) ∨
      (n.priv.nstate = .candidate ∧ n.priv.term ≤ asI32 pkt.param1 ∧ pkt.opcodeVal = some .alive) ∨
      (n.priv.nstate = .leader ∧ n.priv.term < asI32 pkt.param1 ∧ pkt.opcodeVal = some .alive))

/-- The packet makes a follower call `commit_log` with the given index. -/
def takesCommit (n : Node) (lid : Nat) (pkt : ConRecord) (idx : Int) : Prop :=
  n.priv.state = .running ∧ n.priv.nstate = .follower ∧
    (pkt.opcodeVal = some .alive ∧ n.priv.term ≤ asI32 pkt.param1 ∧ idx = asI32 pkt.param2 ∨
      pkt.opcodeVal = some .append ∧ n.priv.term = asI32 pkt.param1 ∧
        n.priv.leaderId = u32 (n.rclusterId lid) ∧ idx = asI32 pkt.leaderCommitIdx)

/-- The packet is a successful APPEND_REPLY that a leader does not ignore. -/
def takesMatch (n : Node) (pkt : ConRecord) : Prop :=
  n.priv.state = .running ∧ n.priv.nstate = .leader ∧ pkt.opcodeVal = some .appendReply ∧
    asI32 pkt.param2 = 1 ∧ asI32 pkt.param4 ≤ n.smLog.lastIdx

def grantsNomination (n : Node) (lid : Nat) (pkt : ConRecord) : Prop :=
  (n.checkHandleNomination pkt.param1.toNat pkt.param3.toNat pkt.param4.toNat
    (n.rclusterId lid)).2 = true

/-- What `check_handle_nomination` asks for besides `voted`: the sender's id is not above the own
one, its term is newer, no better leader is alive, and its log is as long as the own one. -/
def electable (n : Node) (lid : Nat) (pkt : ConRecord) : Prop :=
  u32 (n.rclusterId lid) ≤ n.sdev.clusterId ∧ u32 n.priv.term < pkt.param1.toNat ∧
    ¬((0 ≤ n.sdev.curLeaderLid ∧ n.sdev.curLeaderLid < n.numOfTargets) ∧
      n.sdev.alive n.sdev.curLeaderLid.toNat ∧ n.priv.leaderId < u32 (n.rclusterId lid)) ∧
    (n.smLog.lastIdx = -1 ∨ pkt.param3.toNat ≥ u32 n.smLog.lastIdx ∧
      (n.smLog.entry n.smLog.lastIdx).term = pkt.param4.toNat)

instance (n : Node) (lid : Nat) (pkt : ConRecord) : Decidable (n.takesAppend lid pkt) :=
  inferInstanceAs (Decidable (_ ∧ _ ∧ _))

instance (n : Node) (pkt : ConRecord) : Decidable (n.takesNomination pkt) :=
  inferInstanceAs (Decidable (_ ∧ _ ∧ _))

instance (n : Node) (pkt : ConRecord) : Decidable (n.takesVote pkt) :=
  inferInstanceAs (Decidable (_ ∧ _ ∧ _))

instance (n : Node) (lid : Nat) (pkt : ConRecord) : Decidable (n.takesLeader lid pkt) :=
  inferInstanceAs (Decidable (_ ∧ (_ ∨ _ ∨ _)))

instance (n : Node) (pkt : ConRecord) : Decidable (n.takesMatch pkt) :=
  inferInstanceAs (Decidable (_ ∧ _ ∧ _))

instance (n : Node) (lid : Nat) (pkt : ConRecord) : Decidable (n.electable lid pkt) :=
  inferInstanceAs (Decidable (_ ∧ _ ∧ _))

/-- A success reply is on record. -/
def recordMatch (n : Node) (lid : Nat) (matchIdx : Int) : Node :=
  { n with leaderIdx.matchIndex := Function.update n.leaderIdx.matchIndex lid matchIdx }

/-- `leaderIdx` after `k` rounds of `initialize_indices`. -/
def resetIndices (n : Node) (k : Nat) : LeaderIndices where
  nextIndex i := if i < k then i32 (n.smLog.stableIdx + 1) else n.leaderIdx.nextIndex i
  matchIndex i := if i < k then -1 else n.leaderIdx.matchIndex i
  retransHead i := if i < k then [] else n.leaderIdx.retransHead i
  retransEntries i := if i < k then 0 else n.leaderIdx.retransEntries i
  numRetransmissions i := if i < k then 0 else n.leaderIdx.numRetransmissions i

/-- `accept_leader` up to the reset of the votes in `node_transition`. -/
def accept (n : Node) (lid : Nat) (clusterId : Int) (term : Int) : Node :=
  resetVotes { n.setTerm term with
    priv.leaderId := u32 clusterId
    sdev.curLeaderLid := lid
    hist.accepted := (clusterId, term) :: n.hist.accepted }

/-- The first change of `accept_vote`. -/
def countVote (n : Node) (lid : Nat) : Node :=
  { n with priv.votes := n.priv.votes + 1, hist.counted := lid :: n.hist.counted }

/-- From the last vote to the initialised indices. -/
def lead (n : Node) : Node := { n.resetVotes.recordLead with leaderIdx := n.resetIndices n.numOfTargets }

/-- `start_candidate` up to the new term. -/
def stand (n : Node) : Node :=
  setTerm { n with priv.nstate := .candidate, sdev.isLeader := false } (i32 (n.priv.term + 1))

def follow (n : Node) : Node :=
  resetVotes { n with priv.nstate := .follower, sdev.isLeader := false }

/-- How many of the commands of a client event the loop over them reaches. -/
def requestCount (n : Node) : Event → Nat
  | .request chunks =>
    let startIdx := i32 (n.smLog.lastIdx + 1)
    (chunks.take (i32 (startIdx + chunks.length) - startIdx).toNat).length
  | .oneShot chunks => (chunks.take maxConsensusLog.toNat).length
  | _ => 0

/-- The event asks a leader to append at the index. -/
def asksFor (n : Node) (e : Event) (idx : Int) : Prop :=
  match e with
  | .request _ => idx < i32 (n.smLog.lastIdx + 1) + n.requestCount e
  | .oneShot _ => idx < n.requestCount e
  | _ => False

/-- What a log replication message consists of: at least one entry, all within the log. -/
structure IsAppendMsg (n : Node) (pkt : ConRecord) : Prop where
  exists_range : ∃ (pktSize : UInt16) (first num prevLogTerm : Int),
    0 ≤ first ∧ 0 < num ∧ first + num - 1 ≤ n.smLog.lastIdx ∧ 0 ≤ prevLogTerm ∧
    pkt = setAeData pktSize n.priv.term n.priv.nodeId first prevLogTerm n.smLog.commitIdx n.smLog num

/-- `setup_append_multicast_msg` after a message of `num` entries. -/
def advanceMulticast (n : Node) (num : Int) : Node :=
  { n with
    sdev.multicastNextIdx := i32 (n.sdev.multicastNextIdx + num)
    smLog.commitIdx := i32 (n.smLog.commitIdx + (num - 1)) }

/-- A multicast message of `num` entries, all within the log. -/
structure IsMulticastMsg (n : Node) (num : Int) (pkt : ConRecord) : Prop where
  opcodeVal : pkt.opcodeVal = some .append
  term : pkt.param1 = toU32 n.priv.term
  pos : 0 < num
  le_lastIdx : n.sdev.multicastNextIdx + num - 1 ≤ n.smLog.lastIdx

/-- The records a node emits, votes apart. -/
inductive Emits (n : Node) : Option ConRecord → Prop where
  | heartbeat : Emits n none
  | noop (p1 p2 p3 p4 : Int) : Emits n (some (setLeOpcode .noop p1 p2 p3 p4))
  | advertise (clusterId : Nat) (ip : UInt32) (mac : Vector UInt8 6) :
      Emits n (some (setLeOpcodeAd .advertise clusterId ip mac))
  | nomi (h : n.priv.nstate = .candidate) :
      Emits n (some (setLeOpcode .nomi n.priv.term n.priv.nodeId n.smLog.stableIdx n.lastLogTerm))
  | alive (h : n.sdev.isLeader = true) : Emits n (some n.setupAliveMsg)
  | append (pkt : ConRecord) (hleader : n.sdev.isLeader = true) (hstate : n.priv.nstate = .leader)
      (h : n.IsAppendMsg pkt) : Emits n (some pkt)
  | appendReply (success loggedIdx : Int) :
      Emits n (some (setLeOpcode .appendReply n.priv.term success loggedIdx n.smLog.stableIdx))

/-- Nothing that the protocol's invariants speak about changes. -/
structure Quiet (n n' : Node) : Prop where
  nstate : n'.priv.nstate = n.priv.nstate
  leaderId : n'.priv.leaderId = n.priv.leaderId
  nodeId : n'.priv.nodeId = n.priv.nodeId
  term : n'.priv.term = n.priv.term
  voted : n'.priv.voted = n.priv.voted
  votes : n'.priv.votes = n.priv.votes
  smLog : n'.smLog = n.smLog
  rxbuf : n'.rxbuf = n.rxbuf
  nextIndex : n'.leaderIdx.nextIndex = n.leaderIdx.nextIndex
  matchIndex : n'.leaderIdx.matchIndex = n.leaderIdx.matchIndex
  config : n'.sdev.config = n.sdev.config
  isLeader : n'.sdev.isLeader = n.sdev.isLeader
  multicastNextIdx : n'.sdev.multicastNextIdx = n.sdev.multicastNextIdx
  sent : n'.sent = n.sent
  hist : n'.hist = n.hist

inductive Act (s : Node) (e : Event) : Node → Node → Prop where
  | quiet {n n' : Node} (h : Quiet n n') : Act s e n n'
  | emit (n : Node) (dest : Dest) (record : Option ConRecord) (h : n.Emits record) :
      Act s e n (n.send dest record)
  | user (n : Node) (rxbuf : AsgRingBuf) : Act s e n { n with rxbuf := rxbuf }
  -- elections
  | resetVotes (n : Node) : Act s e n n.resetVotes
  | dropLeader (n : Node) : Act s e n { n with sdev.isLeader := false }
  | follow (n : Node) : Act s e n n.follow
  | stand (n : Node) (he : e.isHandle = false) (hvotes : n.priv.votes = 0)
      (hcounted : n.hist.counted = []) : Act s e n n.stand
  | noteVote (lid : Nat) (pkt : ConRecord) (he : e = .handle lid pkt) (hlid : lid < s.numOfTargets) :
      Act s e s (s.noteVote lid pkt)
  | countVote (lid : Nat) (pkt : ConRecord) (he : e = .handle lid pkt) (hlid : lid < s.numOfTargets)
      (hvote : s.takesVote pkt) : Act s e (s.noteVote lid pkt) ((s.noteVote lid pkt).countVote lid)
  | lead (lid : Nat) (pkt : ConRecord) (he : e = .handle lid pkt) (hlid : lid < s.numOfTargets)
      (hvote : s.takesVote pkt) (hall : s.priv.votes + 1 = s.numOfTargets) :
      Act s e ((s.noteVote lid pkt).countVote lid) ((s.noteVote lid pkt).countVote lid).lead
  | raiseLeader (n : Node) (hlead : n.hist.leads ≠ []) :
      Act s e n { n with sdev.isLeader := true }
  | enterLeader (n : Node) (hlead : n.hist.leads ≠ []) :
      Act s e n { n with priv.nstate := .leader }
  | accept (lid : Nat) (pkt : ConRecord) (he : e = .handle lid pkt) (hlid : lid < s.numOfTargets)
      (h : s.takesLeader lid pkt) : Act s e s (s.accept lid (s.rclusterId lid) (asI32 pkt.param1))
  | catchUp (lid : Nat) (pkt : ConRecord) (he : e = .handle lid pkt) (hlid : lid < s.numOfTargets)
      (hnomi : s.takesNomination pkt) (hid : s.sdev.clusterId < u32 (s.rclusterId lid))
      (hterm : u32 s.priv.term < pkt.param1.toNat) : Act s e s (s.setTerm (asI32 pkt.param1))
  | grant (n : Node) (lid : Nat) (pkt : ConRecord) (he : e = .handle lid pkt)
      (hlid : lid < s.numOfTargets) (hnomi : s.takesNomination pkt)
      (hgrant : s.grantsNomination lid pkt) (hvoted : n.priv.voted = s.priv.voted)
      (hgiven : n.hist.votesGiven = s.hist.votesGiven) (hconfig : n.sdev.config = s.sdev.config) :
      Act s e n (n.replyVote lid (s.rclusterId lid) (asI32 pkt.param1) (asI32 pkt.param2))
  -- the log of a replica
  | append (n : Node) (lid : Nat) (pkt : ConRecord) (he : e = .handle lid pkt)
      (hlid : lid < s.numOfTargets) (h : s.takesAppend lid pkt) (hlog : n.smLog = s.smLog)
      (hleader : n.priv.leaderId = s.priv.leaderId)
      (hterm : n.priv.term = s.appendTerm pkt) :
      Act s e n { n with smLog := (n.smLog.handleAppend n.priv pkt (s.rclusterId lid)).1 }
  | commit (n : Node) (lid : Nat) (pkt : ConRecord) (idx : Int) (he : e = .handle lid pkt)
      (hlid : lid < s.numOfTargets) (h : s.takesCommit lid pkt idx) : Act s e n (n.commitLog idx)
  -- the log of a leader
  | request (n : Node) (chunk : DataChunk) (idx : Int) (hrole : s.priv.nstate = .leader)
      (hterm : n.priv.term = s.priv.term) (hguard : n.smLog.commitIdx ≤ idx) (hle : idx ≤ 2147483647)
      (hnext : e.isOneShot = false → i32 s.smLog.lastIdx = s.smLog.lastIdx →
        -1 ≤ n.smLog.commitIdx → idx = n.smLog.lastIdx + 1)
      (hshot : ∀ chunks, e = .oneShot chunks →
        n.smLog.commitIdx ≤ 0 ∧ 0 ≤ idx ∧ chunks[idx.toNat]? = some chunk)
      (hasks : s.asksFor e idx) (hlast : n.smLog.lastIdx ≤ max s.smLog.lastIdx (idx - 1)) :
      Act s e n { n with smLog := n.smLog.store chunk n.priv.term idx }
  | matchReply (lid : Nat) (pkt : ConRecord) (he : e = .handle lid pkt) (hlid : lid < s.numOfTargets)
      (h : s.takesMatch pkt) : Act s e s (s.recordMatch lid (asI32 pkt.param4))
  | leaderCommit (n : Node) (lid : Nat) (pkt : ConRecord) (he : e = .handle lid pkt)
      (hlid : lid < s.numOfTargets) (h : s.takesMatch pkt)
      (hn : n = s.recordMatch lid (asI32 pkt.param4)) : Act s e n n.updateCommitIdx
  | failReply (lid : Nat) (pkt : ConRecord) (nextIndex : Nat → Int) (he : e = .handle lid pkt)
      (hstate : s.priv.nstate = .leader) : Act s e s { s with leaderIdx.nextIndex := nextIndex }
  -- log replication messages
  | repairLast (n : Node) : Act s e n { n with smLog := n.smLog.getLastIdxSafe }
  | advance (n : Node) (nextIndex : Nat → Int) (hstate : n.priv.nstate = .leader) :
      Act s e n { n with leaderIdx.nextIndex := nextIndex }
  | multicast (n : Node) (num : Int) (pkt : ConRecord) (h : n.sdev.multicastEnable = true)
      (hleader : n.sdev.isLeader = true) (hmsg : n.IsMulticastMsg num pkt) :
      Act s e n ((n.advanceMulticast num).send .multicast (some pkt))

/-- The part of a step done so far. -/
abbrev Acts (s : Node) (e : Event) : Node → Node → Prop := Relation.ReflTransGen (Act s e)

theorem IsAppendMsg.opcodeVal {n : Node} {pkt : ConRecord} (h : n.IsAppendMsg pkt) :
    pkt.opcodeVal = some .append := by
  obtain ⟨_, _, _, _, -, -, -, -, rfl⟩ := h.exists_range
  simp

theorem Emits.opcodeVal_ne_vote {n : Node} {pkt : ConRecord} (h : n.Emits (some pkt)) :
    pkt.opcodeVal ≠ some .vote := by
  cases h with
  | append _ _ _ h => simp [h.opcodeVal]
  | _ => simp [setupAliveMsg]

/-! ### Frames of the updates that branch -/

theorem noteVote_eq (n : Node) (lid : Nat) (pkt : ConRecord) :
    ∃ voters, n.noteVote lid pkt = { n with hist.voters := voters } ∧
      ∀ l ∈ n.hist.voters, l ∈ voters := by
  unfold Node.noteVote
  split
  · exact ⟨_, rfl, fun l hl => List.mem_cons_of_mem lid hl⟩
  · exact ⟨n.hist.voters, rfl, fun l hl => hl⟩

@[simp]
theorem noteVote_priv (n : Node) (lid : Nat) (pkt : ConRecord) :
    (n.noteVote lid pkt).priv = n.priv := by
  obtain ⟨voters, heq, -⟩ := n.noteVote_eq lid pkt
  rw [heq]

@[simp]
theorem noteVote_sdev (n : Node) (lid : Nat) (pkt : ConRecord) :
    (n.noteVote lid pkt).sdev = n.sdev := by
  obtain ⟨voters, heq, -⟩ := n.noteVote_eq lid pkt
  rw [heq]

@[simp]
theorem noteVote_smLog (n : Node) (lid : Nat) (pkt : ConRecord) :
    (n.noteVote lid pkt).smLog = n.smLog := by
  obtain ⟨voters, heq, -⟩ := n.noteVote_eq lid pkt
  rw [heq]

@[simp]
theorem noteVote_counted (n : Node) (lid : Nat) (pkt : ConRecord) :
    (n.noteVote lid pkt).hist.counted = n.hist.counted := by
  obtain ⟨voters, heq, -⟩ := n.noteVote_eq lid pkt
  rw [heq]

theorem mem_voters_noteVote {n : Node} {lid : Nat} {pkt : ConRecord}
    (hop : pkt.opcodeVal = some .vote) (hterm : pkt.param1.toNat = u32 n.priv.term) :
    lid ∈ (n.noteVote lid pkt).hist.voters := by
  simp only [Node.noteVote, hop, hterm, and_self, ↓reduceIte]
  exact List.mem_cons_self

theorem updateCommitIdx_eq (n : Node) : ∃ log, n.updateCommitIdx = { n with smLog := log } := by
  unfold updateCommitIdx
  split
  · exact ⟨n.smLog, rfl⟩
  · split
    · exact ⟨n.smLog, rfl⟩
    · exact ⟨_, rfl⟩

end Node

end XlaneLkm
