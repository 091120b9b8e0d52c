import XlaneLkm.Proof.LogMoves
import XlaneLkm.Proof.Ring

/-!
# What one call of `setup_append_msg` does

With entries to send and a previous term that is not negative, the message carries as many of them as
it may, from the next index on; and only if it is no retransmission, `next_index` moves behind them.
-/

namespace XlaneLkm

open MachineInt

theorem setAeData_range (size : UInt16) (term leaderId prevLogTerm commitIdx : Int) (log : SmLog)
    {next num : Int} (hnext : 0 ≤ next) (hnum : 1 ≤ num) (hwithin : next + num - 1 ≤ log.lastIdx)
    (hlast : log.lastIdx < 2147483647) :
    let pkt := setAeData size term leaderId next prevLogTerm commitIdx log num
    pkt.prevLogIdx = next - 1 ∧ pkt.startIdx = next ∧ (pkt.numEntries.toNat : Int) = num ∧
      ∀ k : Nat, k < num → pkt.entries k = (log.entry (next + k)).dataChunk := by
  have hincluded := includedEntries_eq hnext hnum hwithin (by omega)
  have hcopied := copiedEntries_eq hnext hnum hwithin hlast
  have hprevIdx : (setAeData size term leaderId next prevLogTerm commitIdx log num).prevLogIdx =
      next - 1 := by
    simp only [setAeData, ConRecord.prevLogIdx, asI32_toU32]
    exact i32_eq_self (by omega) (by omega)
  refine ⟨hprevIdx, ?_, ?_, fun k hk => ?_⟩
  · rw [ConRecord.startIdx, hprevIdx, i32_eq_self (by omega) (by omega), Int.sub_add_cancel]
  · simp only [setAeData, hincluded, toU32_toNat]
    rw [u32_eq_toNat (by omega) (by omega), Int.toNat_of_nonneg (by omega)]
  · simp only [setAeData, hcopied]
    exact if_pos (by omega)

theorem asgardReserveProto_eq {num : Int} (hlow : 1 ≤ num) (hhigh : num ≤ maxAeEntriesPerPkt) :
    ∃ size, asgardReserveProto (asgardProtoConAeBaseSz + num * aeEntrySize) = some size ∧
      (size.toNat : Int) = asgardProtoConAeBaseSz + num * aeEntrySize := by
  simp only [maxAeEntriesPerPkt, asgardProtoConAeBaseSz, aeEntrySize, asgardReserveProto,
    maxAsgardPayloadBytes] at hhigh ⊢
  have hbytes : u32 (20 + num * 8) = (20 + num * 8).toNat := u32_eq_toNat (by omega) (by omega)
  have hsize : (UInt16.ofNat (u32 (20 + num * 8))).toNat = (20 + num * 8).toNat := by
    rw [hbytes, UInt16.toNat_ofNat']
    omega
  refine ⟨UInt16.ofNat (u32 (20 + num * 8)), if_neg ?_, ?_⟩
  · rw [hsize]
    omega
  · rw [hsize]
    omega

namespace SmLog

variable {log : SmLog}

/-- The term before an index of the log is found, unless it is negative itself. -/
theorem getPrevLogTerm_nonneg (hsized : log.Sized)
    (hsmall : log.maxEntries ≤ maxConsensusLog ∨ log.lastIdx ≤ maxConsensusLog)
    {term i : Int} (hterm : 0 ≤ term) (hlow : -1 ≤ i) (hi : i ≤ log.lastIdx)
    (hlast : log.lastIdx ≤ 2147483647) (hentry : 0 ≤ i → 0 ≤ i32 (log.entry i).term) :
    0 ≤ log.getPrevLogTerm term i := by
  by_cases hfirst : i = -1
  · rw [getPrevLogTerm, if_pos hfirst]
    exact hterm
  · have hpos := hsized.1
    have hslot := hsized.slot_eq (i := i) (by omega) (by omega)
    have hle := Nat.mod_le i.toNat log.maxEntries.toNat
    have hlt := Nat.mod_lt i.toNat (y := log.maxEntries.toNat) (by omega)
    rw [getPrevLogTerm, if_neg hfirst, if_neg (by omega), if_neg (by omega), if_neg (by omega)]
    exact hentry (by omega)

end SmLog

namespace Node

variable {n : Node}

@[simp]
theorem repairLast_of_le (h : -1 ≤ n.smLog.lastIdx) : n.repairLast = n := by
  rw [repairLast, SmLog.getLastIdxSafe, if_neg (by omega)]

theorem getNextIdx_eq {targetId : Nat} (htarget : targetId ≤ n.numOfTargets) :
    n.getNextIdx targetId =
      if n.leaderIdx.nextIndex targetId > n.smLog.lastIdx then -2
      else n.leaderIdx.nextIndex targetId :=
  if_pos (decide_eq_true htarget)

/-- With entries left for its target, a call sends from the next index on, whatever it is given. -/
theorem setupAppendMsg_next {targetId : Nat} (hlast : -1 ≤ n.smLog.lastIdx)
    (htarget : targetId ≤ n.numOfTargets) (hnext : n.leaderIdx.nextIndex targetId ≤ n.smLog.lastIdx)
    (i : Int) : n.setupAppendMsg targetId i false =
      n.appendMsgAt targetId (n.leaderIdx.nextIndex targetId) false := by
  rw [setupAppendMsg, repairLast_of_le hlast, if_neg Bool.false_ne_true, getNextIdx_eq htarget,
    if_neg (not_lt.mpr hnext)]

theorem setupAppendMsg_idle {targetId : Nat} (hlast : -1 ≤ n.smLog.lastIdx)
    (hidle : ¬(targetId ≤ n.numOfTargets ∧ n.leaderIdx.nextIndex targetId ≤ n.smLog.lastIdx))
    (i : Int) : n.setupAppendMsg targetId i false = (n, -2, none) := by
  have hidx : n.getNextIdx targetId = -2 := by
    by_cases htarget : targetId ≤ n.numOfTargets
    · rw [getNextIdx_eq htarget, if_pos (not_le.mp fun hnext => hidle ⟨htarget, hnext⟩)]
    · exact if_neg fun hcheck => htarget (of_decide_eq_true hcheck)
  rw [setupAppendMsg, repairLast_of_le hlast, if_neg Bool.false_ne_true, hidx]
  exact if_pos ⟨rfl, rfl⟩

theorem entriesToSend_eq (n : Node) (next : Int) (hlow : 0 ≤ n.smLog.lastIdx - next + 1)
    (hhigh : n.smLog.lastIdx - next + 1 ≤ 2147483647) :
    n.entriesToSend next = (min n.priv.maxEntriesPerPkt (n.smLog.lastIdx - next + 1),
      if n.priv.maxEntriesPerPkt < n.smLog.lastIdx - next + 1 then 1 else 0) := by
  simp only [entriesToSend, i32_eq_self (x := n.smLog.lastIdx - next + 1) (by omega) hhigh]
  split
  case isTrue h => rw [min_eq_left h.le]
  case isFalse h => rw [min_eq_right (not_lt.mp h)]

theorem entriesToSend_bounds (n : Node) {next : Int} (hmax : 1 ≤ n.priv.maxEntriesPerPkt)
    (hlow : 0 ≤ next) (hnext : next ≤ n.smLog.lastIdx) (hlast : n.smLog.lastIdx ≤ 2147483646) :
    1 ≤ (n.entriesToSend next).1 ∧ (n.entriesToSend next).1 ≤ n.priv.maxEntriesPerPkt ∧
      next + (n.entriesToSend next).1 - 1 ≤ n.smLog.lastIdx := by
  rw [n.entriesToSend_eq next (by omega) (by omega)]
  exact ⟨by dsimp only; omega, by dsimp only; omega, by dsimp only; omega⟩

/-- **A call with something to send** builds the record of the next range. -/
theorem appendMsgAt_eq (n : Node) (targetId : Nat) (next : Int) (retrans : Bool)
    (hmax : 1 ≤ n.priv.maxEntriesPerPkt ∧ n.priv.maxEntriesPerPkt ≤ maxAeEntriesPerPkt)
    (hlow : 0 ≤ next) (hnext : next ≤ n.smLog.lastIdx)
    (hhigh : n.smLog.lastIdx - next + 1 ≤ 2147483647)
    (hprev : 0 ≤ n.smLog.getPrevLogTerm n.priv.term (next - 1)) :
    ∃ size : UInt16,
      (size.toNat : Int) = asgardProtoConAeBaseSz + (n.entriesToSend next).1 * aeEntrySize ∧
      n.appendMsgAt targetId next retrans =
        (if retrans then n else n.advanceNextIndex targetId (n.entriesToSend next).1,
          (n.entriesToSend next).2,
          some (setAeData size n.priv.term n.priv.nodeId next
            (n.smLog.getPrevLogTerm n.priv.term (next - 1)) n.smLog.commitIdx n.smLog
            (n.entriesToSend next).1)) := by
  have hsend := n.entriesToSend_eq next (by omega) hhigh
  have hpos : 1 ≤ (n.entriesToSend next).1 := by
    rw [hsend]
    dsimp only
    omega
  have hle : (n.entriesToSend next).1 ≤ maxAeEntriesPerPkt := by
    rw [hsend]
    dsimp only
    omega
  obtain ⟨size, hreserve, hsize⟩ := asgardReserveProto_eq hpos hle
  refine ⟨size, hsize, ?_⟩
  simp only [appendMsgAt, hreserve]
  rw [if_neg (by omega), if_neg (by omega), if_neg (by omega), if_neg (by omega), if_neg (by omega)]

/-- Nothing is sent, and nothing changes, behind the end of the log, without a previous term, or where
the number of entries is no `int`. -/
theorem appendMsgAt_none (n : Node) (targetId : Nat) {next : Int} (retrans : Bool)
    (h : n.smLog.lastIdx < next ∨ n.smLog.getPrevLogTerm n.priv.term (next - 1) < 0 ∨
      (n.entriesToSend next).1 ≤ 0) :
    ∃ ret : Int, ret < 0 ∧ n.appendMsgAt targetId next retrans = (n, ret, none) := by
  simp only [appendMsgAt]
  split
  · exact ⟨-2, by decide, rfl⟩
  · split
    · exact ⟨-1, by decide, rfl⟩
    · split
      · exact ⟨-1, by decide, rfl⟩
      · rename_i hprev
        replace h := h.imp_right (Or.resolve_left · hprev)
        split
        · exact ⟨-2, by decide, rfl⟩
        · rename_i hlast
          exact ⟨-1, by decide, if_pos (h.resolve_left hlast)⟩

/-- **A retransmission leaves the node as it is.** -/
theorem appendMsgAt_retrans (n : Node) (targetId : Nat) (next : Int) :
    (n.appendMsgAt targetId next true).1 = n := by
  simp only [appendMsgAt, if_true]
  cases asgardReserveProto (asgardProtoConAeBaseSz + (n.entriesToSend next).1 * aeEntrySize) with
  | none => split_ifs <;> rfl
  | some size => split_ifs <;> rfl

end Node

end XlaneLkm
