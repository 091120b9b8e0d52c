import XlaneLkm.Proof.LogMoves
import XlaneLkm.Proof.IndexOrder
import XlaneLkm.Proof.Ring

/-!
# What an APPEND does to the log

The moves of the log say what may happen to it, not what has happened. Here `_handle_append_rpc` is
taken apart exactly: which packets pass its checks, and the log they leave.
-/

namespace XlaneLkm

open MachineInt

/-- The index `append_commands` takes for the last one of a packet. -/
def ConRecord.newLast (pkt : ConRecord) : Int := i32 (pkt.startIdx + i32 pkt.numEntries.toNat - 1)

/-- How many commands the loop of `append_commands` gets through. -/
def ConRecord.count (pkt : ConRecord) : Nat := (pkt.newLast - pkt.startIdx + 1).toNat

/-- The index is in the range of the packet. -/
def ConRecord.covers (pkt : ConRecord) (i : Int) : Prop :=
  pkt.startIdx ≤ i ∧ i < pkt.startIdx + pkt.count

instance (pkt : ConRecord) (i : Int) : Decidable (pkt.covers i) :=
  inferInstanceAs (Decidable (_ ∧ _))

namespace SmLog

variable {log : SmLog} {pkt : ConRecord}

/-! ### Storing -/

/-- The log after `k` commands were stored from index `first` on. -/
def storeRange (log : SmLog) (chunk : Nat → DataChunk) (term first : Int) : Nat → SmLog
  | 0 => log
  | k + 1 => (storeRange log chunk term first k).store (chunk k) term (first + k)

section StoreRange

variable (log : SmLog) (chunk : Nat → DataChunk) (term first : Int) (k : Nat)

@[simp]
theorem storeRange_lastApplied : (log.storeRange chunk term first k).lastApplied = log.lastApplied := by
  induction k with
  | zero => rfl
  | succ k ih => exact ih

@[simp]
theorem storeRange_commitIdx : (log.storeRange chunk term first k).commitIdx = log.commitIdx := by
  induction k with
  | zero => rfl
  | succ k ih => exact ih

@[simp]
theorem storeRange_stableIdx : (log.storeRange chunk term first k).stableIdx = log.stableIdx := by
  induction k with
  | zero => rfl
  | succ k ih => exact ih

@[simp]
theorem storeRange_nextRetransReqIdx :
    (log.storeRange chunk term first k).nextRetransReqIdx = log.nextRetransReqIdx := by
  induction k with
  | zero => rfl
  | succ k ih => exact ih

@[simp]
theorem storeRange_maxEntries : (log.storeRange chunk term first k).maxEntries = log.maxEntries := by
  induction k with
  | zero => rfl
  | succ k ih => exact ih

@[simp]
theorem storeRange_slot (i : Int) : (log.storeRange chunk term first k).slot i = log.slot i := by
  simp only [slot, storeRange_maxEntries]

theorem storeRange_lastIdx :
    (log.storeRange chunk term first k).lastIdx =
      if k = 0 then log.lastIdx else max log.lastIdx (first + k - 1) := by
  induction k with
  | zero => rfl
  | succ k ih =>
    rw [storeRange, store_lastIdx, ih, if_neg (Nat.succ_ne_zero k)]
    split <;> omega

theorem storeRange_entries_of_ne {q : Nat} (h : ∀ j < k, log.slot (first + j) ≠ q) :
    (log.storeRange chunk term first k).entries q = log.entries q := by
  induction k with
  | zero => rfl
  | succ k ih =>
    have hne : q ≠ (log.storeRange chunk term first k).slot (first + k) := by
      rw [storeRange_slot]
      exact (h k (by omega)).symm
    calc (log.storeRange chunk term first (k + 1)).entries q
        = (log.storeRange chunk term first k).entries q := Function.update_of_ne hne _ _
      _ = log.entries q := ih fun j hj => h j (by omega)

theorem storeRange_entry_of_ne {i : Int} (h : ∀ j < k, log.slot i ≠ log.slot (first + j)) :
    (log.storeRange chunk term first k).entry i = log.entry i := by
  rw [entry, storeRange_slot]
  exact log.storeRange_entries_of_ne chunk term first k fun j hj => (h j hj).symm

/-- Every slot of the range ends up valid, with the term of the packet. -/
theorem storeRange_entry {i : Int} (h : ∃ j < k, log.slot i = log.slot (first + j)) :
    ((log.storeRange chunk term first k).entry i).valid = true ∧
      ((log.storeRange chunk term first k).entry i).term = u32 term := by
  induction k with
  | zero =>
    obtain ⟨j, hj, -⟩ := h
    omega
  | succ k ih =>
    by_cases hlast : log.slot i = log.slot (first + k)
    · rw [storeRange, store_entry_self _ _ _ (by simpa using hlast)]
      exact ⟨rfl, rfl⟩
    · rw [storeRange, store_entry_of_ne _ _ _ (by simpa using hlast)]
      obtain ⟨j, hj, hslot⟩ := h
      rcases Nat.lt_succ_iff_lt_or_eq.mp hj with hlt | rfl
      · exact ih ⟨j, hlt, hslot⟩
      · exact absurd hslot hlast

/-- In a range without two indices of one slot, each index gets its own command. -/
theorem storeRange_dataChunk {j : Nat} (hj : j < k)
    (h : ∀ j' < k, log.slot (first + j) = log.slot (first + j') → j' = j) :
    ((log.storeRange chunk term first k).entry (first + j)).dataChunk = chunk j := by
  induction k with
  | zero => omega
  | succ k ih =>
    by_cases hlast : log.slot (first + j) = log.slot (first + k)
    · rw [storeRange, store_entry_self _ _ _ (by simpa using hlast), h k (by omega) hlast]
    · rw [storeRange, store_entry_of_ne _ _ _ (by simpa using hlast)]
      refine ih ?_ fun j' hj' => h j' (by omega)
      by_contra hge
      exact hlast (by rw [show j = k by omega])

variable {log first k}
omit [Nat] in

theorem slot_ne_of_lt (h : log.Sized) {i j : Int} (hi : 0 ≤ i) (hj : 0 ≤ j) (hne : i ≠ j)
    (hi' : i < log.maxEntries) (hj' : j < log.maxEntries) : log.slot i ≠ log.slot j := by
  have := h.2
  exact fun hsame =>
    hne (h.eq_of_slot_eq hi hj (by omega) (by omega) ⟨by omega, by omega⟩ hsame)

theorem storeRange_entry_covered (h : log.Sized) (hfirst : 0 ≤ first)
    (hfits : first + k ≤ log.maxEntries) {i : Int} (hlow : first ≤ i) (hhigh : i < first + k) :
    (log.storeRange chunk term first k).entry i = ⟨true, u32 term, chunk (i - first).toNat⟩ := by
  obtain ⟨j, rfl⟩ : ∃ j : Nat, i = first + j := ⟨(i - first).toNat, by omega⟩
  have hj : j < k := by omega
  have hentry := log.storeRange_entry chunk term first k ⟨j, hj, rfl⟩
  have hchunk := log.storeRange_dataChunk chunk term first k hj fun j' hj' hsame => by
    by_contra hne
    exact slot_ne_of_lt h (by omega) (by omega) (by omega) (by omega) (by omega) hsame
  rw [show (first + j - first).toNat = j by omega, ← hentry.1, ← hentry.2, ← hchunk]

theorem storeRange_entry_other (h : log.Sized) (hfirst : 0 ≤ first)
    (hfits : first + k ≤ log.maxEntries) {i : Int} (hlow : 0 ≤ i) (hhigh : i < log.maxEntries)
    (hother : ¬(first ≤ i ∧ i < first + k)) :
    (log.storeRange chunk term first k).entry i = log.entry i :=
  log.storeRange_entry_of_ne chunk term first k fun j hj =>
    slot_ne_of_lt h hlow (by omega) (fun heq => hother (by omega)) hhigh (by omega)

end StoreRange

theorem appendLoop_eq (log : SmLog) (pkt : ConRecord) (term first : Int) {k : Nat}
    (hcommit : k ≠ 0 → log.commitIdx ≤ first) :
    log.appendLoop pkt term first 0 k = (log.storeRange pkt.entries term first k, none) := by
  have hloop : ∀ k j, (k ≠ 0 → log.commitIdx ≤ first) →
      (log.storeRange pkt.entries term first j).appendLoop pkt term (first + j) j k =
        (log.storeRange pkt.entries term first (j + k), none) := by
    intro k
    induction k with
    | zero => exact fun j _ => rfl
    | succ k ih =>
      intro j hcommit
      have hle := hcommit (Nat.succ_ne_zero k)
      have hguard : ¬(log.storeRange pkt.entries term first j).commitIdx > first + j := by
        rw [storeRange_commitIdx]
        omega
      have hrest := ih (j + 1) fun _ => hle
      rw [Int.natCast_succ, ← Int.add_assoc] at hrest
      rw [appendLoop, appendCommand, if_neg hguard]
      exact hrest.trans (by rw [Nat.add_right_comm, Nat.add_assoc])
  have hall := hloop k 0 hcommit
  rwa [Int.natCast_zero, Int.add_zero, Nat.zero_add] at hall

/-! ### Moving `stable_idx` -/

theorem updateStableLoop_eq (log : SmLog) (k : Nat) : ∃ m ≤ k,
    log.updateStableLoop (log.stableIdx + 1) k = { log with stableIdx := log.stableIdx + m } ∧
      (∀ i, log.stableIdx < i → i ≤ log.stableIdx + m → (log.entry i).valid = true) ∧
      (m = k ∨ (log.entry (log.stableIdx + m + 1)).valid = false) := by
  induction k generalizing log with
  | zero => exact ⟨0, le_rfl, by simp [updateStableLoop], fun i _ _ => by omega, .inl rfl⟩
  | succ k ih =>
    rw [updateStableLoop]
    by_cases hvalid : (log.entry (log.stableIdx + 1)).valid = false
    · refine ⟨0, Nat.zero_le _, ?_, fun i _ _ => by omega, .inr ?_⟩
      · rw [if_pos hvalid, Int.natCast_zero, Int.add_zero]
      · rwa [Int.natCast_zero, Int.add_zero]
    · obtain ⟨m, hm, heq, hbelow, hstop⟩ := ih { log with stableIdx := log.stableIdx + 1 }
      have hm' : log.stableIdx + 1 + m = log.stableIdx + (m + 1 : Nat) := by omega
      rw [if_neg hvalid]
      refine ⟨m + 1, by omega, ?_, ?_, ?_⟩
      · rw [heq, hm']
      · intro i hlow hhigh
        by_cases hi : i = log.stableIdx + 1
        · exact hi ▸ Bool.not_eq_false _ ▸ hvalid
        · exact hbelow i (by dsimp only; omega) (by dsimp only; omega)
      · rcases hstop with rfl | hstop
        · exact .inl rfl
        · exact .inr (hm' ▸ hstop)

/-- `update_stable_idx` goes up to the last index or the first slot that is not valid. -/
theorem updateStableIdx_eq (log : SmLog) : ∃ stable, log.updateStableIdx =
      { log with stableIdx := stable } ∧
    log.stableIdx ≤ stable ∧ (stable = log.stableIdx ∨ stable ≤ log.lastIdx) ∧
    (∀ i, log.stableIdx < i → i ≤ stable → (log.entry i).valid = true) ∧
    (log.lastIdx ≤ stable ∨ (log.entry (stable + 1)).valid = false) := by
  obtain ⟨m, hm, heq, hbelow, hstop⟩ :=
    log.updateStableLoop_eq (log.lastIdx - log.stableIdx).toNat
  refine ⟨log.stableIdx + m, heq, by omega, by omega, hbelow, ?_⟩
  rcases hstop with rfl | hstop
  · exact .inl (by omega)
  · exact .inr hstop

/-! ### Looking for gaps -/

theorem retransLoop_eq (log : SmLog) (maxEntriesPerPkt i curIdx firstReIdx : Int) (fuel : Nat) :
    log.retransLoop maxEntriesPerPkt i curIdx firstReIdx fuel = (curIdx, firstReIdx) := by
  induction fuel generalizing i with
  | zero => rfl
  | succ fuel ih =>
    rw [retransLoop]
    split
    · split
      · exact ih _
      · exact ih _
    · rfl

theorem updateNextRetransmissionRequestIdx_eq (log : SmLog) (maxEntriesPerPkt : Int) :
    log.updateNextRetransmissionRequestIdx maxEntriesPerPkt =
      if log.lastIdx = -1 then log else { log with nextRetransReqIdx := -2 } := by
  rw [updateNextRetransmissionRequestIdx, retransLoop_eq]
  dsimp only
  rw [ite_self]

/-! ### `_handle_append_rpc` -/

/-- The packet passes the checks of `_handle_append_rpc`, `check_prev_log_match` and
`append_commands`. -/
def passesAppend (log : SmLog) (pkt : ConRecord) : Prop :=
  log.stableIdx ≤ pkt.prevLogIdx ∧
    log.checkPrevLogMatch pkt.prevLogTerm (u32 log.stableIdx) = false ∧
    i32 (i32 (i32 pkt.numEntries.toNat * aeEntrySize) + asgardProtoConAeBaseSz) ≤
      pkt.pktSize.toNat ∧
    (pkt.count ≠ 0 → log.commitIdx ≤ pkt.startIdx)

instance (log : SmLog) (pkt : ConRecord) : Decidable (log.passesAppend pkt) :=
  inferInstanceAs (Decidable (_ ∧ _ ∧ _))

/-- The APPEND leaves a gap behind `stable_idx` that its sender answers for. -/
def isUnstable (log : SmLog) (priv : ConsensusPriv) (pkt : ConRecord) (rclusterId : Int) : Bool :=
  pkt.prevLogIdx > log.stableIdx ∧ pkt.prevLogTerm = u32 priv.term ∧ priv.leaderId = u32 rclusterId

/-- The log after the commands of a packet were stored. A last index of INT_MAX is an error then. -/
def received (log : SmLog) (priv : ConsensusPriv) (pkt : ConRecord) (rclusterId : Int) : SmLog :=
  let stored := log.storeRange pkt.entries priv.term pkt.startIdx pkt.count
  if pkt.newLast = 2147483647 then stored
  else
    updateNextRetransmissionRequestIdx
      (if log.isUnstable priv pkt rclusterId then stored else stored.updateStableIdx)
      priv.maxEntriesPerPkt

variable (priv : ConsensusPriv) (rclusterId : Int)

theorem received_entries : (log.received priv pkt rclusterId).entries =
    (log.storeRange pkt.entries priv.term pkt.startIdx pkt.count).entries := by
  have hretrans : ∀ l : SmLog,
      (l.updateNextRetransmissionRequestIdx priv.maxEntriesPerPkt).entries = l.entries := by
    intro l
    rw [updateNextRetransmissionRequestIdx_eq]
    split <;> rfl
  rw [received]
  split
  · rfl
  rw [hretrans]
  split
  · rfl
  · obtain ⟨stable, hstable, -⟩ :=
      (log.storeRange pkt.entries priv.term pkt.startIdx pkt.count).updateStableIdx_eq
    rw [hstable]

theorem handleAppend_of_passes (hnum : pkt.numEntries.toNat ≠ 0) (h : log.passesAppend pkt) :
    log.handleAppend priv pkt rclusterId = (log.received priv pkt rclusterId,
      if pkt.newLast = 2147483647 then .fail log.stableIdx
      else if (log.received priv pkt rclusterId).nextRetransReqIdx ≠ -2 then
        .retransmission (log.received priv pkt rclusterId).nextRetransReqIdx
      else .success (log.received priv pkt rclusterId).stableIdx) := by
  obtain ⟨hprev, hmatch, hsize, hcommit⟩ := h
  have hloop := log.appendLoop_eq pkt priv.term pkt.startIdx hcommit
  have hcommands : ∀ unstable, log.appendCommands pkt priv.term (i32 pkt.numEntries.toNat)
      pkt.pktSize.toNat pkt.startIdx unstable =
        if pkt.newLast = 2147483647 then
          (log.storeRange pkt.entries priv.term pkt.startIdx pkt.count, some .eproto)
        else
          (if unstable then log.storeRange pkt.entries priv.term pkt.startIdx pkt.count
            else (log.storeRange pkt.entries priv.term pkt.startIdx pkt.count).updateStableIdx,
            none) := by
    intro unstable
    rw [ConRecord.count, ConRecord.newLast] at hloop
    simp only [appendCommands, if_neg (not_lt.mpr hsize), hloop]
    rfl
  rw [ConRecord.startIdx] at hcommands
  simp only [handleAppend, if_neg hnum, if_neg (not_lt.mpr hprev), hmatch, Bool.false_eq_true,
    if_false, hcommands, received]
  by_cases hwraps : pkt.newLast = 2147483647
  · simp only [if_pos hwraps, storeRange_stableIdx]
    rfl
  · simp only [if_neg hwraps]
    exact (apply_ite (Prod.mk _) _ _ _).symm

theorem handleAppend_of_not_passes (hnum : pkt.numEntries.toNat ≠ 0) (h : ¬log.passesAppend pkt) :
    log.handleAppend priv pkt rclusterId = (log,
      if pkt.prevLogIdx < log.stableIdx then .nothing else .fail log.stableIdx) := by
  simp only [handleAppend, if_neg hnum]
  split
  · rfl
  case isFalse hprev =>
  split
  · rfl
  case isFalse hmatch =>
  have hrefused : ∃ err, log.appendCommands pkt priv.term (i32 pkt.numEntries.toNat)
      pkt.pktSize.toNat pkt.startIdx (log.isUnstable priv pkt rclusterId) = (log, some err) := by
    unfold appendCommands
    split
    · exact ⟨_, rfl⟩
    case isFalse hsize =>
    by_cases hcommit : pkt.count ≠ 0 → log.commitIdx ≤ pkt.startIdx
    · exact absurd ⟨by omega, Bool.eq_false_iff.mpr hmatch, by omega, hcommit⟩ h
    · obtain ⟨hcount, hlt⟩ := Classical.not_imp.mp hcommit
      rw [ConRecord.count, ConRecord.newLast] at hcount
      obtain ⟨k, hk⟩ := Nat.exists_eq_succ_of_ne_zero hcount
      simp only [hk, appendLoop, appendCommand, if_pos (not_le.mp hlt)]
      exact ⟨_, rfl⟩
  obtain ⟨err, heq⟩ := hrefused
  rw [ConRecord.startIdx, isUnstable] at heq
  simp only [heq]

/-- What a packet that passes leaves: its commands, and `stable_idx` as far up as they let it go. -/
structure Receives (log : SmLog) (priv : ConsensusPriv) (pkt : ConRecord) (rclusterId : Int)
    (log' : SmLog) : Prop where
  maxEntries : log'.maxEntries = log.maxEntries
  lastApplied : log'.lastApplied = log.lastApplied
  commitIdx : log'.commitIdx = log.commitIdx
  lastIdx : log'.lastIdx =
    if pkt.count = 0 then log.lastIdx else max log.lastIdx (pkt.startIdx + pkt.count - 1)
  entry : ∀ i, log'.entry i =
    (log.storeRange pkt.entries priv.term pkt.startIdx pkt.count).entry i
  stable_le : log.stableIdx ≤ log'.stableIdx
  stable_last : log'.stableIdx = log.stableIdx ∨ log'.stableIdx ≤ log'.lastIdx
  below : ∀ i, log.stableIdx < i → i ≤ log'.stableIdx → (log'.entry i).valid = true
  unstable : log.isUnstable priv pkt rclusterId = true → log'.stableIdx = log.stableIdx
  stop : log.isUnstable priv pkt rclusterId = false → pkt.newLast ≠ 2147483647 →
    log'.lastIdx ≤ log'.stableIdx ∨ (log'.entry (log'.stableIdx + 1)).valid = false
  retrans : log.nextRetransReqIdx = -2 → log'.nextRetransReqIdx = -2

theorem receives (log : SmLog) (priv : ConsensusPriv) (pkt : ConRecord) (rclusterId : Int) :
    log.Receives priv pkt rclusterId (log.received priv pkt rclusterId) := by
  have hretrans : ∀ l : SmLog, ∃ idx, l.updateNextRetransmissionRequestIdx priv.maxEntriesPerPkt =
      { l with nextRetransReqIdx := idx } ∧ (l.nextRetransReqIdx = -2 → idx = -2) := by
    intro l
    rw [updateNextRetransmissionRequestIdx_eq]
    split
    · exact ⟨l.nextRetransReqIdx, rfl, id⟩
    · exact ⟨-2, rfl, fun _ => rfl⟩
  have hlast := log.storeRange_lastIdx pkt.entries priv.term pkt.startIdx pkt.count
  have hstored := log.storeRange_stableIdx pkt.entries priv.term pkt.startIdx pkt.count
  have hrequest := log.storeRange_nextRetransReqIdx pkt.entries priv.term pkt.startIdx pkt.count
  have hnone : ∀ i, log.stableIdx < i →
      i ≤ (log.storeRange pkt.entries priv.term pkt.startIdx pkt.count).stableIdx →
      ((log.storeRange pkt.entries priv.term pkt.startIdx pkt.count).entry i).valid = true :=
    fun i hlow hhigh => by omega
  simp only [received]
  by_cases hwraps : pkt.newLast = 2147483647
  · rw [if_pos hwraps]
    exact ⟨log.storeRange_maxEntries .., log.storeRange_lastApplied .., log.storeRange_commitIdx ..,
      hlast, fun _ => rfl, hstored.ge, .inl hstored, hnone, fun _ => hstored,
      fun _ h => absurd hwraps h, fun h => hrequest.trans h⟩
  rw [if_neg hwraps]
  by_cases hunstable : log.isUnstable priv pkt rclusterId = true
  · rw [if_pos hunstable]
    obtain ⟨idx, heq, hidx⟩ :=
      hretrans (log.storeRange pkt.entries priv.term pkt.startIdx pkt.count)
    rw [heq]
    refine ⟨log.storeRange_maxEntries .., log.storeRange_lastApplied .., log.storeRange_commitIdx ..,
      hlast, fun _ => rfl, hstored.ge, .inl hstored, hnone, fun _ => hstored, ?_,
      fun h => hidx (hrequest.trans h)⟩
    intro h
    exact absurd (h.symm.trans hunstable) Bool.false_ne_true
  · rw [if_neg hunstable]
    obtain ⟨stable, hstable, hle, hstableLast, hbelow, hstop⟩ :=
      (log.storeRange pkt.entries priv.term pkt.startIdx pkt.count).updateStableIdx_eq
    rw [hstored] at hle hstableLast hbelow
    obtain ⟨idx, heq, hidx⟩ := hretrans
      { log.storeRange pkt.entries priv.term pkt.startIdx pkt.count with stableIdx := stable }
    rw [hstable, heq]
    exact ⟨log.storeRange_maxEntries .., log.storeRange_lastApplied .., log.storeRange_commitIdx ..,
      hlast, fun _ => rfl, hle, hstableLast, hbelow, fun h => absurd h hunstable, fun _ _ => hstop,
      fun h => hidx (hrequest.trans h)⟩

/-! ### Committing -/

theorem applyLoop_preserves {I : SmLog → Prop}
    (happly : ∀ l : SmLog, l.lastApplied < l.commitIdx → I l → I (l.applied (l.lastApplied + 1)))
    (log : SmLog) (rx : AsgRingBuf) (k : Nat) (hk : log.lastApplied + k ≤ log.commitIdx)
    (hlog : I log) : I (log.applyLoop rx (log.lastApplied + 1) k).1 := by
  induction k generalizing log rx with
  | zero => exact hlog
  | succ k ih =>
    rw [applyLoop]
    split
    · exact hlog
    case h_2 rx' _ =>
      refine ih (log.applied (log.lastApplied + 1)) rx' ?_ (happly log (by omega) hlog)
      simp only [applied, invalidate]
      omega

/-- `commit_log` sets `commit_idx`, in unicast mode to a stable index, and applies one entry after the
other. -/
theorem commitLog_preserves {I : SmLog → Prop} (multicastEnable : Bool)
    (hcommit : ∀ idx, log.commitIdx < idx → (multicastEnable = false → idx ≤ log.stableIdx) →
      I { log with commitIdx := idx })
    (happly : ∀ l : SmLog, l.lastApplied < l.commitIdx → I l → I (l.applied (l.lastApplied + 1)))
    (rx : AsgRingBuf) (commitIdx : Int) (hlog : I log) :
    I (log.commitLog rx multicastEnable commitIdx).1 := by
  rw [commitLog]
  split
  case isFalse => exact hlog
  case isTrue hnew =>
  split
  · exact hlog
  case isFalse hstable =>
    have hlog := hcommit commitIdx hnew fun hunicast => by
      by_contra hlt
      exact hstable ⟨hunicast, by omega⟩
    rw [applyLogToSm]
    by_cases hle : log.lastApplied ≤ commitIdx
    · exact applyLoop_preserves happly { log with commitIdx := commitIdx } rx _
        (by dsimp only; omega) hlog
    · rw [show (commitIdx - log.lastApplied).toNat = 0 by omega]
      exact hlog

end SmLog

namespace Node

theorem handleAppendRpc_eq (n : Node) (pkt : ConRecord) (lid : Nat) (rclusterId : Int) : ∃ sent,
    n.handleAppendRpc pkt lid rclusterId =
      { n with smLog := (n.smLog.handleAppend n.priv pkt rclusterId).1, sent := sent } := by
  simp only [handleAppendRpc]
  split
  · exact ⟨n.sent, rfl⟩
  · exact ⟨_, rfl⟩
  · split
    · exact ⟨n.sent, rfl⟩
    · exact ⟨_, rfl⟩
  · exact ⟨_, rfl⟩

/-- A follower that gets an APPEND of its leader in its term. -/
theorem step_append {n : Node} {lid : Nat} {pkt : ConRecord} (hlid : lid < n.numOfTargets)
    (hstate : n.priv.state = .running) (hrole : n.priv.nstate = .follower)
    (hop : pkt.opcodeVal = some .append) (hleader : n.priv.leaderId = u32 (n.rclusterId lid))
    (hterm : asI32 pkt.param1 = n.priv.term) :
    n.step (.handle lid pkt) =
      (n.handleAppendRpc pkt lid (n.rclusterId lid)).commitLog (asI32 pkt.leaderCommitIdx) := by
  have hnote : n.noteVote lid pkt = n := by
    rw [noteVote, if_neg]
    rintro ⟨hvote, -⟩
    rw [hop] at hvote
    cases hvote
  simp only [step, if_pos hlid, hnote, consensusPostPayload, hstate, ne_eq, not_true_eq_false,
    if_false, hrole, followerProcessPkt, hop, hleader, hterm, gt_iff_lt, lt_irrefl, if_true]

end Node

end XlaneLkm
