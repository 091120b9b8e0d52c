import XlaneLkm.Proof.Progress

/-!
# The commit index of a multicast leader

A multicast leader commits what it sends: a packet announces the index of its last entry. `commit_idx`
moves by one less than the number of entries though, so it falls back by one with every packet.
-/

namespace XlaneLkm

open MachineInt
open Run (Meets)

namespace Node

variable {n : Node}

/-! ### One packet -/

/-- `setup_append_multicast_msg` has entries to send, and a term to send in front of them. -/
def canSend (n : Node) : Prop :=
  n.sdev.multicastNextIdx ≠ -1 ∧
    0 ≤ n.smLog.getPrevLogTerm n.priv.term (n.sdev.multicastNextIdx - 1) ∧
    n.sdev.multicastNextIdx ≤ n.smLog.lastIdx ∧ 0 < (n.entriesToSend n.sdev.multicastNextIdx).1

instance canSend.decidable (n : Node) : Decidable n.canSend :=
  inferInstanceAs (Decidable (_ ∧ _))

theorem asgardReserveProto_of_le {num : Int} (hlow : 0 ≤ num) (hhigh : num ≤ maxAeEntriesPerPkt) :
    ∃ pktSize, asgardReserveProto (asgardProtoConAeBaseSz + num * aeEntrySize) = some pktSize := by
  have hhigh : num ≤ 100 := hhigh
  have hsize : (UInt16.ofNat (u32 (asgardProtoConAeBaseSz + num * aeEntrySize))).toNat ≤
      maxAsgardPayloadBytes := by
    rw [asgardProtoConAeBaseSz, aeEntrySize, maxAsgardPayloadBytes, UInt16.toNat_ofNat',
      u32_eq_toNat (by omega) (by omega)]
    omega
  exact ⟨_, if_neg (not_lt.mpr hsize)⟩

theorem setupAppendMulticastMsg_of_canSend (hmax : n.priv.maxEntriesPerPkt ≤ maxAeEntriesPerPkt)
    (h : n.repairLast.canSend) : ∃ ret pkt,
    n.setupAppendMulticastMsg =
        (n.repairLast.advanceMulticast
          (n.repairLast.entriesToSend n.sdev.multicastNextIdx).1, ret, some pkt) ∧
      pkt.leaderCommitIdx = toU32 (i32 (n.sdev.multicastNextIdx +
        (n.repairLast.entriesToSend n.sdev.multicastNextIdx).1 - 1)) := by
  obtain ⟨hone, hprev, hlast, hpos⟩ := h
  obtain ⟨pktSize, hreserve⟩ := asgardReserveProto_of_le hpos.le
    ((n.repairLast.entriesToSend_le _).trans hmax)
  have hmulticast : n.repairLast.sdev.multicastNextIdx = n.sdev.multicastNextIdx := rfl
  rw [hmulticast] at hone hprev hlast hpos hreserve
  simp only [setupAppendMulticastMsg, hmulticast, if_neg hone, if_neg (not_lt.mpr hprev),
    if_neg (not_lt.mpr hlast), if_neg (not_le.mpr hpos), hreserve]
  exact ⟨_, _, rfl, rfl⟩

theorem setupAppendMulticastMsg_of_not_canSend (h : ¬n.repairLast.canSend) :
    ∃ ret, n.setupAppendMulticastMsg = (n.repairLast, ret, none) := by
  simp only [setupAppendMulticastMsg]
  split
  · exact ⟨_, rfl⟩
  case isFalse hone =>
  split
  · exact ⟨_, rfl⟩
  case isFalse hprev =>
  split
  · exact ⟨_, rfl⟩
  case isFalse hlast =>
  rw [if_pos (not_lt.mp fun hpos => h ⟨hone, not_lt.mp hprev, not_lt.mp hlast, hpos⟩)]
  exact ⟨_, rfl⟩

end Node

/-! ### Runs -/

inductive MulticastOp where
  /-- A client request is appended behind the last entry. -/
  | append (chunk : DataChunk)
  | send

/-- A multicast leader and the packets it has built, newest first. -/
structure MulticastRun where
  node : Node
  packets : List ConRecord

namespace MulticastRun

def step (s : MulticastRun) : MulticastOp → MulticastRun
  | .append chunk =>
    match s.node.smLog.appendCommand chunk s.node.priv.term (i32 (s.node.smLog.lastIdx + 1)) with
    | .ok log => { s with node.smLog := log }
    | .error _ => s
  | .send =>
    match s.node.setupAppendMulticastMsg with
    | (n, _, some pkt) => ⟨n, pkt :: s.packets⟩
    | (n, _, none) => { s with node := n }

/-- The leader has committed what its last packet announced, and what its heartbeats announce. -/
structure Announces (s : MulticastRun) : Prop where
  nextIdx : s.node.smLog.commitIdx = s.node.sdev.multicastNextIdx - 1
  packet : ∀ pkt, s.packets.head? = some pkt → asI32 pkt.leaderCommitIdx = s.node.smLog.commitIdx
  alive : ∀ pkt, s.packets.head? = some pkt → s.node.setupAliveMsg.param2 = pkt.leaderCommitIdx

/-- A call of `setup_append_multicast_msg` finds nothing to send. -/
def sendsNothing (s : MulticastRun) : MulticastOp → Prop
  | .append _ => True
  | .send => ¬s.node.repairLast.canSend

instance sendsNothing.decidable (s : MulticastRun) : (op : MulticastOp) → Decidable (s.sendsNothing op)
  | .append _ => isTrue trivial
  | .send => inferInstanceAs (Decidable (¬_))

variable {s : MulticastRun} {N : Int}

/-- `N` entries have been sent. -/
structure Sent (s : MulticastRun) (N : Int) : Prop where
  nextIdx : s.node.sdev.multicastNextIdx = i32 N
  commitIdx : s.node.smLog.commitIdx = N - 1 - s.packets.length
  le_sent : s.packets.length ≤ N
  sent_le : N ≤ 100 * s.packets.length
  sent_le_lastIdx : N = 0 ∨ N ≤ s.node.smLog.lastIdx + 1
  lastIdx_le : s.node.smLog.lastIdx ≤ 2147483647
  le_maxEntries : 1 ≤ s.node.priv.maxEntriesPerPkt
  maxEntries_le : s.node.priv.maxEntriesPerPkt ≤ maxAeEntriesPerPkt
  announced : ∀ pkt, s.packets.head? = some pkt → pkt.leaderCommitIdx = toU32 (N - 1)

/-- With every packet the leader falls one further behind what it announces. -/
theorem Sent.lag (h : s.Sent N) {pkt : ConRecord} (hpkt : s.packets.head? = some pkt) :
    asI32 pkt.leaderCommitIdx = s.node.smLog.commitIdx + s.packets.length := by
  have hlast := h.sent_le_lastIdx
  have hbound := h.lastIdx_le
  have hcount := h.le_sent
  rw [h.announced pkt hpkt, asI32_toU32, i32_eq_self (by omega) (by omega), h.commitIdx]
  omega

theorem Sent.announces_iff_nil (h : s.Sent N) : s.Announces ↔ s.packets = [] := by
  constructor
  · intro hannounces
    by_contra hne
    obtain ⟨pkt, rest, hpackets⟩ := List.exists_cons_of_ne_nil hne
    have hhead : s.packets.head? = some pkt := by rw [hpackets, List.head?_cons]
    have hlag := h.lag hhead
    have hsame := hannounces.packet pkt hhead
    rw [hpackets, List.length_cons] at hlag
    omega
  · intro hnone
    have hcommit := h.commitIdx
    have hnext := h.nextIdx
    have hlow := h.le_sent
    have hhigh := h.sent_le
    rw [hnone, List.length_nil] at hcommit hlow hhigh
    obtain rfl : N = 0 := by omega
    rw [i32_eq_self (by decide) (by decide)] at hnext
    refine ⟨by omega, fun pkt hpkt => ?_, fun pkt hpkt => ?_⟩
    · rw [hnone] at hpkt
      cases hpkt
    · rw [hnone] at hpkt
      cases hpkt

theorem Sent.append (h : s.Sent N) (chunk : DataChunk) :
    (s.step (.append chunk)).Sent N ∧ (s.step (.append chunk)).packets = s.packets := by
  have hcommit := h.commitIdx
  have hcount := h.le_sent
  simp only [step, SmLog.appendCommand]
  by_cases hguard : s.node.smLog.commitIdx > i32 (s.node.smLog.lastIdx + 1)
  · simp only [if_pos hguard]
    exact ⟨h, trivial⟩
  · simp only [if_neg hguard, and_true]
    have hidx := i32_le (s.node.smLog.lastIdx + 1)
    have hlast : (s.node.smLog.store chunk s.node.priv.term
        (i32 (s.node.smLog.lastIdx + 1))).lastIdx =
          if s.node.smLog.lastIdx < i32 (s.node.smLog.lastIdx + 1) then
            i32 (s.node.smLog.lastIdx + 1) else s.node.smLog.lastIdx := rfl
    have hbound := h.lastIdx_le
    have hsent := h.sent_le_lastIdx
    refine ⟨h.nextIdx, hcommit, hcount, h.sent_le, ?_, ?_, h.le_maxEntries, h.maxEntries_le,
      h.announced⟩
    · dsimp only
      rw [hlast]
      split
      · omega
      · omega
    · dsimp only
      rw [hlast]
      split
      · exact hidx
      · exact hbound

/-- Having sent nothing yet, `N` is 0. -/
theorem Sent.repairLast (h : s.Sent N) : ({ s with node := s.node.repairLast } : MulticastRun).Sent N := by
  have hlast : s.node.repairLast.smLog.lastIdx =
      if s.node.smLog.lastIdx < -1 then -1 else s.node.smLog.lastIdx := by
    rw [Node.repairLast, SmLog.getLastIdxSafe_eq]
  have hcommit : s.node.repairLast.smLog.commitIdx = s.node.smLog.commitIdx := by
    rw [Node.repairLast, SmLog.getLastIdxSafe_eq]
  have hbound := h.lastIdx_le
  have hsent := h.sent_le_lastIdx
  refine ⟨h.nextIdx, hcommit.trans h.commitIdx, h.le_sent, h.sent_le, ?_, ?_, h.le_maxEntries,
    h.maxEntries_le, h.announced⟩
  · dsimp only
    rw [hlast]
    split
    · omega
    · omega
  · dsimp only
    rw [hlast]
    split
    · omega
    · exact hbound

theorem Sent.send (h : s.Sent N) : (∃ N', (s.step .send).Sent N') ∧
    ((s.step .send).packets = [] ↔ s.packets = [] ∧ s.sendsNothing .send) := by
  have hrepaired := h.repairLast
  by_cases hsend : s.node.repairLast.canSend
  · obtain ⟨ret, pkt, heq, hannounced⟩ :=
      Node.setupAppendMulticastMsg_of_canSend h.maxEntries_le hsend
    have hle := s.node.repairLast.entriesToSend_le s.node.sdev.multicastNextIdx
    have hcanSend := hsend
    obtain ⟨hone, hprev, hlast, hpos⟩ := hsend
    have hwithin := s.node.repairLast.entriesToSend_bound _ hlast hpos
    have hmulticast : s.node.repairLast.sdev.multicastNextIdx = s.node.sdev.multicastNextIdx := rfl
    rw [hmulticast] at hlast hpos hwithin
    generalize (s.node.repairLast.entriesToSend s.node.sdev.multicastNextIdx).1 = num at *
    have hmax : num ≤ 100 := hle.trans h.maxEntries_le
    have hnonneg := Node.getPrevLogTerm_of_nonneg hprev
    rw [hmulticast] at hnonneg
    have hcount := h.le_sent
    have hfew := h.sent_le
    have hcommit := hrepaired.commitIdx
    have hsent := h.sent_le_lastIdx
    have hbound := h.lastIdx_le
    have hbound' : s.node.repairLast.smLog.lastIdx ≤ 2147483647 := hrepaired.lastIdx_le
    have hnext : s.node.sdev.multicastNextIdx = N := by
      rw [h.nextIdx] at hnonneg ⊢
      obtain ⟨_, _, k, hk⟩ := i32_spec N
      omega
    have hlength : (pkt :: s.packets).length = s.packets.length + 1 := List.length_cons
    rw [hnext] at hwithin hannounced
    simp only [step, heq]
    refine ⟨⟨N + num, ?_, ?_, ?_, ?_, ?_, hbound', h.le_maxEntries, h.maxEntries_le, ?_⟩, ?_⟩
    · exact congrArg (fun idx => i32 (idx + num)) hnext
    · dsimp only at hcommit
      simp only [Node.advanceMulticast, hcommit]
      rw [i32_eq_self (by omega) (by omega)]
      omega
    · dsimp only
      rw [hlength]
      omega
    · dsimp only
      rw [hlength]
      omega
    · right
      change N + num ≤ s.node.repairLast.smLog.lastIdx + 1
      omega
    · intro pkt' hpkt'
      obtain rfl := Option.some.inj hpkt'
      rw [hannounced, i32_eq_self (by omega) (by omega)]
    · exact iff_of_false (List.cons_ne_nil _ _) fun hnothing => hnothing.2 hcanSend
  · obtain ⟨ret, heq⟩ := Node.setupAppendMulticastMsg_of_not_canSend hsend
    simp only [step, heq]
    exact ⟨⟨N, hrepaired⟩, (and_iff_left hsend).symm⟩

theorem Sent.run (h : s.Sent N) (ops : List MulticastOp) :
    (∃ N', (Run.run step s ops).Sent N') ∧
      ((Run.run step s ops).packets = [] ↔ s.packets = [] ∧ Meets step sendsNothing s ops) := by
  induction ops generalizing s N with
  | nil => exact ⟨⟨N, h⟩, (and_iff_left trivial).symm⟩
  | cons op ops ih =>
    cases op with
    | append chunk =>
      obtain ⟨hnext, hpackets⟩ := h.append chunk
      obtain ⟨hrun, hnone⟩ := ih hnext
      rw [hpackets] at hnone
      exact ⟨hrun, hnone.trans (and_congr_right fun _ => (and_iff_right trivial).symm)⟩
    | send =>
      obtain ⟨⟨N', hnext⟩, hpackets⟩ := h.send
      obtain ⟨hrun, hnone⟩ := ih hnext
      rw [hpackets, and_assoc] at hnone
      exact ⟨hrun, hnone⟩

/-- **A multicast leader has committed what it announces until it sends something, and never again.** -/
theorem announces_iff (n : Node) (hnext : n.sdev.multicastNextIdx = 0) (hcommit : n.smLog.commitIdx = -1)
    (hlast : n.smLog.lastIdx ≤ 2147483647) (hlow : 1 ≤ n.priv.maxEntriesPerPkt)
    (hhigh : n.priv.maxEntriesPerPkt ≤ maxAeEntriesPerPkt) (ops : List MulticastOp) :
    (Run.run step ⟨n, []⟩ ops).Announces ↔ Meets step sendsNothing ⟨n, []⟩ ops := by
  have hstart : Sent ⟨n, []⟩ 0 :=
    ⟨hnext, hcommit, le_rfl, le_rfl, .inl rfl, hlast, hlow, hhigh, fun _ hpkt => by cases hpkt⟩
  obtain ⟨⟨N, hrun⟩, hnone⟩ := hstart.run ops
  rw [hrun.announces_iff_nil, hnone]
  exact and_iff_right rfl

/-- A multicast leader in its first term, elected with an empty log. -/
def elected : Node := Node.run (consensusInit (Node.multicastConfig 1 [2, 3]) zeroUninit) (joining ++
  [.handle 0 (setLeOpcode .vote 1 0 0 0), .handle 1 (setLeOpcode .vote 1 0 0 0)])

theorem announces_before_sending :
    (Run.run step ⟨elected, []⟩ [.send, .append (sampleChunk 7)]).Announces :=
  (announces_iff elected (by decide +kernel) (by decide +kernel) (by decide +kernel)
    (by decide +kernel) (by decide +kernel) [.send, .append (sampleChunk 7)]).mpr (by decide +kernel)

/-- One packet with one entry announces index 0, and `commit_idx` is still -1. -/
theorem announced_not_committed :
    ¬(Run.run step ⟨elected, []⟩ [.append (sampleChunk 7), .send]).Announces ∧
      (Run.run step ⟨elected, []⟩ [.append (sampleChunk 7), .send]).packets.map
        (fun pkt => asI32 pkt.leaderCommitIdx) = [0] ∧
      (Run.run step ⟨elected, []⟩ [.append (sampleChunk 7), .send]).node.smLog.commitIdx = -1 := by
  refine ⟨fun hannounces => ?_, by decide +kernel, by decide +kernel⟩
  have hnext := hannounces.nextIdx
  revert hnext
  decide +kernel

end MulticastRun

end XlaneLkm
