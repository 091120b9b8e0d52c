import XlaneLkm.Proof.Commits

/-!
# The terms of replicated entries

An APPEND carries one term, that of its sender, and commands without any. `append_commands` stores
every command under the term of the receiver, which has just been made that of the sender. An entry
the sender itself holds from an earlier term is replicated with a later one.
-/

namespace XlaneLkm

open MachineInt

namespace SmLog

variable {log : SmLog} {pkt : ConRecord}

theorem received_term (hpasses : log.passesAppend pkt) (hnum : pkt.numEntries.toNat ≠ 0)
    (priv : ConsensusPriv) (rclusterId : Int) {i : Int} (hi : pkt.covers i) :
    ((log.handleAppend priv pkt rclusterId).1.entry i).term = u32 priv.term := by
  have hreceives := log.receives priv pkt rclusterId
  have hslot : ∃ j < pkt.count, log.slot i = log.slot (pkt.startIdx + j) := by
    obtain ⟨hlow, hhigh⟩ := hi
    exact ⟨(i - pkt.startIdx).toNat, by omega, congrArg log.slot (by omega)⟩
  rw [handleAppend_of_passes priv rclusterId hnum hpasses, hreceives.entry]
  exact (log.storeRange_entry pkt.entries priv.term pkt.startIdx pkt.count hslot).2

theorem commitLog_term (log : SmLog) (rx : AsgRingBuf) (multicastEnable : Bool) (commitIdx i : Int) :
    ((log.commitLog rx multicastEnable commitIdx).1.entry i).term = (log.entry i).term := by
  refine commitLog_preserves (I := fun l => (l.entry i).term = (log.entry i).term) multicastEnable
    (fun _ _ _ => rfl) (fun l _ hl => ?_) rx commitIdx rfl
  have hone := (l.invalidate_sameCommands (l.lastApplied + 1) (l.slot i)).2
  exact hone.trans hl

end SmLog

namespace Node

variable {n : Node} {lid : Nat} {pkt : ConRecord}

theorem appender_term (h : n.priv.term ≤ asI32 pkt.param1) :
    (n.appender lid pkt).priv.term = asI32 pkt.param1 := by
  unfold appender
  split
  · exact (n.acceptLeader_priv lid _ _).2.2
  · omega

/-- A follower that takes an APPEND holds every index of it under the term of the packet. -/
theorem step_term (hlid : lid < n.numOfTargets) (hrole : n.priv.nstate = .follower)
    (htakes : n.takesAppend lid pkt) (hnum : pkt.numEntries.toNat ≠ 0)
    (hpasses : n.smLog.passesAppend pkt) {i : Int} (hi : pkt.covers i) :
    ((n.step (.handle lid pkt)).smLog.entry i).term = pkt.param1.toNat := by
  obtain ⟨hrun, -, hop, hleader, hterm⟩ := htakes
  have hstep : n.step (.handle lid pkt) = n.followerProcessPkt lid (n.rclusterId lid) pkt := by
    have hvote : pkt.opcodeVal ≠ some .vote := by
      rw [hop]
      decide
    simp only [step, if_pos hlid, noteVote_of_ne hvote, consensusPostPayload, hrun, ne_eq,
      not_true_eq_false, if_false, hrole]
  obtain ⟨sent, hrpc⟩ := (n.appender lid pkt).handleAppendRpc_eq pkt lid (n.rclusterId lid)
  have hstored := SmLog.received_term hpasses hnum (n.appender lid pkt).priv (n.rclusterId lid) hi
  rw [appender_term hterm, u32_asI32, ← n.appender_smLog lid pkt] at hstored
  rw [hstep, followerProcessPkt_append hop hleader hterm, hrpc]
  split
  · exact hstored
  · exact (SmLog.commitLog_term _ _ _ _ i).trans hstored

theorem setupAppendMsg_term {leader : Node} {targetId : Nat} {nextIndex : Int} {retrans : Bool}
    (hpkt : (leader.setupAppendMsg targetId nextIndex retrans).2.2 = some pkt) :
    pkt.param1.toNat = u32 leader.priv.term := by
  obtain ⟨_, _, _, _, -, -, -, -, rfl⟩ := ((appendMsgAt_spec leader.repairLast _ _ _).2 pkt hpkt).exists_range
  exact toU32_toNat leader.priv.term

/-- **Entry terms are replicated faithfully exactly for entries of the sender's present term.** -/
theorem terms_replicated_iff (leader : Node) (targetId : Nat) (nextIndex : Int) (retrans : Bool)
    (pkt : ConRecord) (hpkt : (leader.setupAppendMsg targetId nextIndex retrans).2.2 = some pkt)
    (n : Node) (lid : Nat) (hlid : lid < n.numOfTargets) (hrole : n.priv.nstate = .follower)
    (htakes : n.takesAppend lid pkt) (hnum : pkt.numEntries.toNat ≠ 0)
    (hpasses : n.smLog.passesAppend pkt) :
    (∀ i, pkt.covers i →
      ((n.step (.handle lid pkt)).smLog.entry i).term = (leader.smLog.entry i).term) ↔
    ∀ i, pkt.covers i → (leader.smLog.entry i).term = u32 leader.priv.term := by
  have hterm : ∀ {i}, pkt.covers i →
      ((n.step (.handle lid pkt)).smLog.entry i).term = u32 leader.priv.term := fun hi =>
    (step_term hlid hrole htakes hnum hpasses hi).trans (setupAppendMsg_term hpkt)
  constructor
  · exact fun h i hi => (h i hi).symm.trans (hterm hi)
  · exact fun h i hi => (hterm hi).trans (h i hi).symm

/-- Node 1 is elected in term 1, takes a request, follows node 2 in term 2, and is elected again. -/
def reelected : List Event := joining ++
  [.handle 0 (setLeOpcode .vote 1 0 0 0), .handle 1 (setLeOpcode .vote 1 0 0 0),
    .request [sampleChunk 7], .handle 0 (setLeOpcode .alive 2 (-1) (-1) 0)] ++
  List.replicate 14 .tick ++
  [.handle 0 (setLeOpcode .vote 3 0 0 0), .handle 1 (setLeOpcode .vote 3 0 0 0)]

def reelectedLeader : Node := run (consensusInit (smallConfig 1 [2, 3]) zeroUninit) reelected

theorem reelectedLeader_sends : (reelectedLeader.setupAppendMsg 1 0 false).2.2.isSome := by
  decide +kernel

/-- What it sends to node 3 then: its first entry. -/
def reelectedAppend : ConRecord :=
  (reelectedLeader.setupAppendMsg 1 0 false).2.2.get reelectedLeader_sends

theorem reelectedAppend_eq :
    (reelectedLeader.setupAppendMsg 1 0 false).2.2 = some reelectedAppend := by
  rw [reelectedAppend, Option.some_get]

/-- Node 3 has heard of the leader of term 3. -/
def inThirdTerm : List Event := joining ++ [.handle 0 (setLeOpcode .alive 3 (-1) (-1) 0)]

theorem terms_replicated_iff_reelected :
    (∀ i, reelectedAppend.covers i →
      (((run (consensusInit (smallConfig 3 [1, 2]) zeroUninit) inThirdTerm).step
        (.handle 0 reelectedAppend)).smLog.entry i).term = (reelectedLeader.smLog.entry i).term) ↔
    ∀ i, reelectedAppend.covers i →
      (reelectedLeader.smLog.entry i).term = u32 reelectedLeader.priv.term :=
  terms_replicated_iff reelectedLeader 1 0 false reelectedAppend
    reelectedAppend_eq
    (run (consensusInit (smallConfig 3 [1, 2]) zeroUninit) inThirdTerm) 0 (by decide +kernel)
    (by decide +kernel) (by decide +kernel) (by decide +kernel) (by decide +kernel)

/-- The entry of term 1 is replicated as one of term 3. -/
theorem entry_term_replaced :
    ¬ ∀ (c c' : Config) (u u' : Uninit) (events events' : List Event) (targetId : Nat)
      (nextIndex : Int) (retrans : Bool) (pkt : ConRecord) (lid : Nat),
      let leader := run (consensusInit c u) events
      let n := run (consensusInit c' u') events'
      leader.priv.nstate = .leader →
      (leader.setupAppendMsg targetId nextIndex retrans).2.2 = some pkt →
      lid < n.numOfTargets → n.priv.nstate = .follower → n.takesAppend lid pkt →
      pkt.numEntries.toNat ≠ 0 → n.smLog.passesAppend pkt →
      ∀ i, pkt.covers i →
        ((n.step (.handle lid pkt)).smLog.entry i).term = (leader.smLog.entry i).term := by
  intro h
  have hsends := reelectedAppend_eq
  unfold reelectedLeader at hsends
  have hterm := h (smallConfig 1 [2, 3]) (smallConfig 3 [1, 2]) zeroUninit zeroUninit reelected
    inThirdTerm 1 0 false reelectedAppend 0 (by decide +kernel) hsends (by decide +kernel)
    (by decide +kernel) (by decide +kernel) (by decide +kernel) (by decide +kernel) 0 (by decide +kernel)
  revert hterm
  decide +kernel

end Node

end XlaneLkm
