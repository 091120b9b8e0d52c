import XlaneLkm.Proof.AppendMsg
import XlaneLkm.Proof.Appending
import XlaneLkm.Proof.LeaderChange

/-!
# Out-of-order reassembly

A log of one term, cut into APPENDs, is whole again at a follower once each of them has arrived,
whatever the order and however often: the ranges of the packets do not overlap, so a range is either
held as a whole or not at all, and `stable_idx` always stands before the first one that is missing.
-/

namespace XlaneLkm

open MachineInt

/-! ### Cutting the log -/

namespace Node

/-- Successive calls of `setup_append_msg` for one target, with the packet size limit and the commit
index that the leader has by then. -/
def appendMsgs (n : Node) (targetId : Nat) : List (Int × Int) → Node × List ConRecord
  | [] => (n, [])
  | (maxEntriesPerPkt, commitIdx) :: calls =>
    let result := setupAppendMsg
      { n with priv.maxEntriesPerPkt := maxEntriesPerPkt, smLog.commitIdx := commitIdx }
      targetId 0 false
    let rest := result.1.appendMsgs targetId calls
    (rest.1, result.2.2.toList ++ rest.2)

/-- A leader whose log holds commands of its present term only and fits into the ring. -/
structure OneTerm (n : Node) : Prop where
  sized : n.smLog.Sized
  term : i32 n.priv.term = n.priv.term
  le_last : -1 ≤ n.smLog.lastIdx
  last_lt : n.smLog.lastIdx < n.smLog.maxEntries
  terms : ∀ i, 0 ≤ i → i ≤ n.smLog.lastIdx → (n.smLog.entry i).term = u32 n.priv.term

/-- The packet carries a range of the leader's log, and says so truly. -/
structure Carries (leader : Node) (pkt : ConRecord) : Prop where
  opcode : pkt.opcodeVal = some .append
  term : asI32 pkt.param1 = leader.priv.term
  numEntries : pkt.numEntries.toNat ≠ 0
  size : i32 (i32 (i32 pkt.numEntries.toNat * aeEntrySize) + asgardProtoConAeBaseSz) ≤
    pkt.pktSize.toNat
  prevLogTerm : pkt.prevLogTerm = u32 leader.priv.term
  prevLogIdx : pkt.prevLogIdx = pkt.startIdx - 1
  start : 0 ≤ pkt.startIdx
  last : pkt.startIdx + pkt.count ≤ leader.smLog.lastIdx + 1
  count : 0 < pkt.count
  entries : ∀ j < pkt.count, pkt.entries j = (leader.smLog.entry (pkt.startIdx + j)).dataChunk

/-- The packets are cut from the log up to an index, without gap or overlap. -/
structure CutTo (leader : Node) (packets : List ConRecord) (next : Int) : Prop where
  carries : ∀ pkt ∈ packets, leader.Carries pkt
  below : ∀ pkt ∈ packets, pkt.startIdx + pkt.count ≤ next
  covered : ∀ i, 0 ≤ i → i < next → ∃ pkt ∈ packets, pkt.covers i
  apart : ∀ pkt ∈ packets, ∀ pkt' ∈ packets, ∀ i, pkt.covers i → pkt'.covers i →
    ∀ k, pkt.covers k → pkt'.covers k

theorem cutTo_nil (leader : Node) : leader.CutTo [] 0 where
  carries _ h := absurd h List.not_mem_nil
  below _ h := absurd h List.not_mem_nil
  covered i hlow hhigh := by omega
  apart _ h := absurd h List.not_mem_nil

theorem CutTo.append {leader : Node} {packets : List ConRecord} {next : Int} {pkt : ConRecord}
    (h : leader.CutTo packets next) (hpkt : leader.Carries pkt) (hstart : pkt.startIdx = next) :
    leader.CutTo (packets ++ [pkt]) (next + pkt.count) := by
  have hmem : ∀ q ∈ packets ++ [pkt], q ∈ packets ∨ q = pkt := fun q hq => by simpa using hq
  refine ⟨?_, ?_, ?_, ?_⟩
  · intro q hq
    rcases hmem q hq with hq | rfl
    · exact h.carries q hq
    · exact hpkt
  · intro q hq
    rcases hmem q hq with hq | rfl
    · have := h.below q hq
      omega
    · omega
  · intro i hlow hhigh
    by_cases hi : i < next
    · obtain ⟨q, hq, hcovers⟩ := h.covered i hlow hi
      exact ⟨q, List.mem_append_left _ hq, hcovers⟩
    · exact ⟨pkt, List.mem_append_right _ (List.mem_singleton_self _), by omega, by omega⟩
  · intro q hq q' hq' i hi hi' k hk
    rcases hmem q hq with hold | rfl
    · rcases hmem q' hq' with hold' | rfl
      · exact h.apart q hold q' hold' i hi hi' k hk
      · have := h.below q hold
        have := hi.2
        have := hi'.1
        omega
    · rcases hmem q' hq' with hold' | rfl
      · have := h.below q' hold'
        have := hi.1
        have := hi'.2
        omega
      · exact hk

/-- The term sent along with a range is the present one, even before the first entry. -/
theorem OneTerm.u32_prevLogTerm {n : Node} (h : n.OneTerm) {i : Int} (hlow : -1 ≤ i)
    (hlast : i ≤ n.smLog.lastIdx) (hterm : 0 ≤ n.smLog.getPrevLogTerm n.priv.term i) :
    u32 (n.smLog.getPrevLogTerm n.priv.term i) = u32 n.priv.term := by
  by_cases hi : i = -1
  · rw [SmLog.getPrevLogTerm, if_pos hi]
  · have hentry : n.smLog.getPrevLogTerm n.priv.term i = i32 (n.smLog.entry i).term := by
      unfold SmLog.getPrevLogTerm at hterm ⊢
      rw [if_neg hi, if_neg (by omega)] at hterm ⊢
      split
      case isTrue hgt => simp [hgt] at hterm
      case isFalse hle =>
      rw [if_neg hle] at hterm
      split
      case isTrue hgt => simp [hgt] at hterm
      case isFalse => rfl
    rw [hentry, u32_i32, h.terms i (by omega) hlast, u32_u32]

theorem carries_setAeData {n : Node} (h : n.OneTerm) {size : UInt16} {next prevLogTerm num : Int}
    (hprev : u32 prevLogTerm = u32 n.priv.term) (hnext : 0 ≤ next) (hlow : 1 ≤ num)
    (hhigh : num ≤ maxAeEntriesPerPkt) (hlast : next + num - 1 ≤ n.smLog.lastIdx)
    (hsize : (size.toNat : Int) = asgardProtoConAeBaseSz + num * aeEntrySize) {pkt : ConRecord}
    (hpkt : pkt = setAeData size n.priv.term n.priv.nodeId next prevLogTerm n.smLog.commitIdx
      n.smLog num) :
    n.Carries pkt ∧ pkt.startIdx = next ∧ (pkt.count : Int) = num := by
  have hsized := h.sized.2
  have hlt := h.last_lt
  simp only [maxAeEntriesPerPkt, asgardProtoConAeBaseSz, aeEntrySize] at hhigh hsize
  obtain ⟨hprevIdx, hstart, hnum, hentries⟩ := setAeData_range size n.priv.term n.priv.nodeId
    prevLogTerm n.smLog.commitIdx n.smLog hnext hlow hlast (by omega)
  rw [← hpkt] at hprevIdx hstart hnum hentries
  have hi32 : i32 pkt.numEntries.toNat = num := by
    rw [hnum, i32_eq_self (by omega) (by omega)]
  have hcount : (pkt.count : Int) = num := by
    rw [ConRecord.count, ConRecord.newLast, hstart, hi32, i32_eq_self (by omega) (by omega)]
    omega
  refine ⟨⟨?_, ?_, by omega, ?_, ?_, by omega, by omega, by omega, by omega, ?_⟩, hstart, hcount⟩
  · rw [hpkt, setAeData_opcodeVal]
  · simp only [hpkt, setAeData, asI32_toU32]
    exact h.term
  · have hpktSize : pkt.pktSize = size := by rw [hpkt, setAeData]
    rw [hi32, hpktSize, hsize, aeEntrySize, asgardProtoConAeBaseSz,
      i32_eq_self (x := num * 8) (by omega) (by omega), i32_eq_self (by omega) (by omega)]
    omega
  · simp only [hpkt, setAeData, ConRecord.prevLogTerm, toU32_toNat]
    exact hprev
  · intro j hj
    rw [hstart]
    exact hentries j (by omega)

/-- A record that a call writes starts at the next index, and `next_index` moves behind it. -/
theorem setupAppendMsg_carries {n : Node} (h : n.OneTerm) (targetId : Nat)
    (hmax : 1 ≤ n.priv.maxEntriesPerPkt ∧ n.priv.maxEntriesPerPkt ≤ maxAeEntriesPerPkt)
    (hnext : 0 ≤ n.leaderIdx.nextIndex targetId) :
    ((n.setupAppendMsg targetId 0 false).2.2 = none ∧
      (n.setupAppendMsg targetId 0 false).1 = n) ∨
    ∃ pkt, (n.setupAppendMsg targetId 0 false).2.2 = some pkt ∧ n.Carries pkt ∧
      pkt.startIdx = n.leaderIdx.nextIndex targetId ∧
      (n.setupAppendMsg targetId 0 false).1 = n.advanceNextIndex targetId pkt.count := by
  have hsized := h.sized.2
  have hle := h.le_last
  have hlt := h.last_lt
  by_cases hpending : targetId ≤ n.numOfTargets ∧ n.leaderIdx.nextIndex targetId ≤ n.smLog.lastIdx
  case neg =>
    left
    rw [setupAppendMsg_idle hle hpending]
    exact ⟨rfl, rfl⟩
  obtain ⟨htarget, hlast⟩ := hpending
  rw [setupAppendMsg_next hle htarget hlast]
  by_cases hterm : n.smLog.getPrevLogTerm n.priv.term (n.leaderIdx.nextIndex targetId - 1) < 0
  · left
    obtain ⟨ret, -, hnone⟩ := n.appendMsgAt_none targetId false (.inr (.inl hterm))
    rw [hnone]
    exact ⟨rfl, rfl⟩
  right
  have hsend := n.entriesToSend_bounds hmax.1 hnext hlast (by omega)
  obtain ⟨size, hsize, hmsg⟩ := n.appendMsgAt_eq targetId _ false hmax hnext hlast (by omega)
    (not_lt.mp hterm)
  have hprev := h.u32_prevLogTerm (by omega) (by omega) (not_lt.mp hterm)
  obtain ⟨hcarries, hstart, hcount⟩ := carries_setAeData h hprev hnext hsend.1
    (hsend.2.1.trans hmax.2) hsend.2.2 hsize rfl
  rw [hmsg]
  refine ⟨_, rfl, hcarries, hstart, ?_⟩
  rw [hcount]
  rfl

theorem setupAppendMsg_isSome {n : Node} (h : n.OneTerm) {targetId : Nat}
    (hmax : 1 ≤ n.priv.maxEntriesPerPkt ∧ n.priv.maxEntriesPerPkt ≤ maxAeEntriesPerPkt)
    (hid : targetId ≤ n.numOfTargets) (hterm : 0 ≤ n.priv.term)
    (hfits : n.smLog.lastIdx ≤ maxConsensusLog) (hnext : 0 ≤ n.leaderIdx.nextIndex targetId)
    (hlast : n.leaderIdx.nextIndex targetId ≤ n.smLog.lastIdx) :
    (n.setupAppendMsg targetId 0 false).2.2 ≠ none := by
  have hsized := h.sized.2
  have hle := h.le_last
  have hlt := h.last_lt
  have hprev : 0 ≤ n.smLog.getPrevLogTerm n.priv.term (n.leaderIdx.nextIndex targetId - 1) := by
    refine SmLog.getPrevLogTerm_nonneg h.sized (.inr hfits) hterm (by omega) (by omega) (by omega)
      fun hpos => ?_
    rw [h.terms _ hpos (by omega), i32_u32, h.term]
    exact hterm
  obtain ⟨size, -, hmsg⟩ := n.appendMsgAt_eq targetId _ false hmax hnext hlast (by omega) hprev
  rw [setupAppendMsg_next hle hid hlast, hmsg]
  exact Option.some_ne_none _

theorem Carries.congr {leader n : Node} {pkt : ConRecord} (h : n.Carries pkt)
    (hterm : n.priv.term = leader.priv.term) (hlast : n.smLog.lastIdx = leader.smLog.lastIdx)
    (hentry : n.smLog.entry = leader.smLog.entry) : leader.Carries pkt where
  opcode := h.opcode
  term := h.term.trans hterm
  numEntries := h.numEntries
  size := h.size
  prevLogTerm := hterm ▸ h.prevLogTerm
  prevLogIdx := h.prevLogIdx
  start := h.start
  last := hlast ▸ h.last
  count := h.count
  entries := hentry ▸ h.entries

/-- A leader between two calls: only its commit index and its indices of targets have changed. -/
structure CutsFrom (leader n : Node) : Prop where
  term : n.priv.term = leader.priv.term
  log : ∃ commitIdx, n.smLog = { leader.smLog with commitIdx := commitIdx }
  targets : n.numOfTargets = leader.numOfTargets

theorem CutsFrom.entry {leader n : Node} (h : CutsFrom leader n) :
    n.smLog.entry = leader.smLog.entry := by
  obtain ⟨commitIdx, hlog⟩ := h.log
  rw [hlog]
  rfl

theorem CutsFrom.lastIdx {leader n : Node} (h : CutsFrom leader n) :
    n.smLog.lastIdx = leader.smLog.lastIdx := by
  obtain ⟨commitIdx, hlog⟩ := h.log
  rw [hlog]

theorem CutsFrom.oneTerm {leader n : Node} (h : CutsFrom leader n) (hleader : leader.OneTerm) :
    n.OneTerm := by
  obtain ⟨commitIdx, hlog⟩ := h.log
  refine ⟨hlog ▸ hleader.sized, h.term ▸ hleader.term, h.lastIdx ▸ hleader.le_last, ?_, ?_⟩
  · rw [hlog]
    exact hleader.last_lt
  · rw [h.entry, h.term, h.lastIdx]
    exact hleader.terms

/-- One call, with what the leader has set by then: nothing is left to send, or the next range is. -/
theorem CutsFrom.call {leader n : Node} (h : CutsFrom leader n) (hleader : leader.OneTerm)
    (targetId : Nat) {maxEntriesPerPkt : Int} (commitIdx : Int)
    (hmax : 1 ≤ maxEntriesPerPkt ∧ maxEntriesPerPkt ≤ maxAeEntriesPerPkt)
    (hnext : 0 ≤ n.leaderIdx.nextIndex targetId) {result : Node × Int × Option ConRecord}
    (hresult : setupAppendMsg
      { n with priv.maxEntriesPerPkt := maxEntriesPerPkt, smLog.commitIdx := commitIdx }
      targetId 0 false = result) :
    CutsFrom leader result.1 ∧
      (result.2.2 = none ∧
        result.1.leaderIdx.nextIndex targetId = n.leaderIdx.nextIndex targetId ∧
        (targetId ≤ leader.numOfTargets → 0 ≤ leader.priv.term →
          leader.smLog.lastIdx ≤ maxConsensusLog →
          leader.smLog.lastIdx < n.leaderIdx.nextIndex targetId) ∨
      ∃ pkt, result.2.2 = some pkt ∧ leader.Carries pkt ∧
        pkt.startIdx = n.leaderIdx.nextIndex targetId ∧
        result.1.leaderIdx.nextIndex targetId = n.leaderIdx.nextIndex targetId + pkt.count) := by
  generalize hm : ({ n with
    priv.maxEntriesPerPkt := maxEntriesPerPkt, smLog.commitIdx := commitIdx } : Node) = m at hresult
  obtain ⟨commitIdx', hlog⟩ := h.log
  have hmlog : m.smLog = { leader.smLog with commitIdx := commitIdx } := by rw [← hm, hlog]
  have hmnext : m.leaderIdx.nextIndex targetId = n.leaderIdx.nextIndex targetId := by rw [← hm]
  have hmcuts : CutsFrom leader m := ⟨hm ▸ h.term, ⟨commitIdx, hmlog⟩, hm ▸ h.targets⟩
  have hone := hmcuts.oneTerm hleader
  rcases m.setupAppendMsg_carries hone targetId (hm ▸ hmax) (hmnext ▸ hnext) with
    ⟨hnone, hsame⟩ | ⟨pkt, hsome, hcarries, hstart, hadvance⟩
  · rw [hresult] at hnone hsame
    refine ⟨hsame ▸ hmcuts, .inl ⟨hnone, hsame ▸ hmnext, fun hid hterm hfits => ?_⟩⟩
    by_contra hle
    refine absurd hnone (hresult ▸ setupAppendMsg_isSome hone (hm ▸ hmax) (hmcuts.targets ▸ hid)
      (hmcuts.term ▸ hterm) (hmcuts.lastIdx ▸ hfits) (hmnext ▸ hnext) ?_)
    rw [hmnext, hmcuts.lastIdx]
    exact not_lt.mp hle
  · rw [hresult] at hsome hadvance
    have hlast := hcarries.last
    have hlt := hone.last_lt
    have hfits := hone.sized.2
    have hafter : CutsFrom leader (m.advanceNextIndex targetId pkt.count) :=
      ⟨hmcuts.term, ⟨commitIdx, hmlog⟩, hmcuts.targets⟩
    refine ⟨hadvance ▸ hafter, .inr ⟨pkt, hsome, ?_, hstart.trans hmnext, ?_⟩⟩
    · exact hcarries.congr hmcuts.term hmcuts.lastIdx hmcuts.entry
    rw [hadvance]
    simp only [advanceNextIndex, Function.update_self]
    rw [i32_eq_self (by omega) (by omega), hmnext]

theorem appendMsgs_cutTo {leader : Node} (hleader : leader.OneTerm) (targetId : Nat)
    (calls : List (Int × Int)) (hcalls : ∀ call ∈ calls, 1 ≤ call.1 ∧ call.1 ≤ maxAeEntriesPerPkt)
    {n : Node} (h : CutsFrom leader n) {packets : List ConRecord}
    (hnext : 0 ≤ n.leaderIdx.nextIndex targetId)
    (hpackets : leader.CutTo packets (n.leaderIdx.nextIndex targetId)) :
    leader.CutTo (packets ++ (n.appendMsgs targetId calls).2)
      ((n.appendMsgs targetId calls).1.leaderIdx.nextIndex targetId) := by
  induction calls generalizing n packets with
  | nil => simpa only [appendMsgs, List.append_nil] using hpackets
  | cons call calls ih =>
    obtain ⟨hcall, hcalls⟩ := List.forall_mem_cons.mp hcalls
    obtain ⟨hcuts, hone⟩ := h.call hleader targetId call.2 hcall hnext rfl
    rw [appendMsgs]
    dsimp only
    rcases hone with ⟨hnone, hsame, -⟩ | ⟨pkt, hsome, hcarries, hstart, hadvance⟩
    · rw [hnone]
      exact ih hcalls hcuts (hsame ▸ hnext) (hsame ▸ hpackets)
    · rw [hsome, Option.toList_some, ← List.append_assoc]
      refine ih hcalls hcuts ?_ (hadvance ▸ hpackets.append hcarries hstart)
      rw [hadvance]
      omega

theorem appendMsgs_complete {leader : Node} (hleader : leader.OneTerm) {targetId : Nat}
    (hid : targetId ≤ leader.numOfTargets) (hterm : 0 ≤ leader.priv.term)
    (hfits : leader.smLog.lastIdx ≤ maxConsensusLog) (calls : List (Int × Int))
    (hcalls : ∀ call ∈ calls, 1 ≤ call.1 ∧ call.1 ≤ maxAeEntriesPerPkt)
    {n : Node} (h : CutsFrom leader n) (hlow : 0 ≤ n.leaderIdx.nextIndex targetId)
    (hhigh : n.leaderIdx.nextIndex targetId ≤ leader.smLog.lastIdx + 1)
    (hlength : leader.smLog.lastIdx + 1 ≤ n.leaderIdx.nextIndex targetId + calls.length) :
    (n.appendMsgs targetId calls).1.leaderIdx.nextIndex targetId = leader.smLog.lastIdx + 1 := by
  induction calls generalizing n with
  | nil =>
    rw [List.length_nil] at hlength
    change n.leaderIdx.nextIndex targetId = leader.smLog.lastIdx + 1
    omega
  | cons call calls ih =>
    obtain ⟨hcall, hcalls⟩ := List.forall_mem_cons.mp hcalls
    obtain ⟨hcuts, hone⟩ := h.call hleader targetId call.2 hcall hlow rfl
    rw [List.length_cons] at hlength
    rw [appendMsgs]
    rcases hone with ⟨-, hsame, hlast⟩ | ⟨pkt, -, hcarries, hstart, hadvance⟩
    · have := hlast hid hterm hfits
      exact ih hcalls hcuts (by omega) (by omega) (by omega)
    · have := hcarries.last
      have := hcarries.count
      exact ih hcalls hcuts (by omega) (by omega) (by omega)

end Node

/-! ### Putting it together again -/

namespace SmLog

/-- The log has received the command of an index, even if it has been applied since. -/
def holds (log : SmLog) (i : Int) : Prop := i ≤ log.stableIdx ∨ (log.entry i).valid = true

/-- The log of a follower that has got the packets of `done`. -/
structure Reassembles (leader : SmLog) (term : Int) (done : List ConRecord) (log : SmLog) : Prop where
  sized : log.Sized
  size : log.maxEntries = leader.maxEntries
  le_applied : -1 ≤ log.lastApplied
  applied_le : log.lastApplied ≤ log.commitIdx
  commit_le : log.commitIdx ≤ log.stableIdx
  le_stable : -1 ≤ log.stableIdx
  stable_le : log.stableIdx ≤ log.lastIdx
  last_le : log.lastIdx ≤ leader.lastIdx
  holds_iff : ∀ i, 0 ≤ i → i ≤ leader.lastIdx → (log.holds i ↔ ∃ pkt ∈ done, pkt.covers i)
  entry : ∀ i, 0 ≤ i → i ≤ leader.lastIdx → log.holds i → i ≤ log.lastIdx ∧
    (log.entry i).term = u32 term ∧ (log.entry i).dataChunk = (leader.entry i).dataChunk
  gap : log.stableIdx < leader.lastIdx → (log.entry (log.stableIdx + 1)).valid = false

theorem reassembles_initLog {leader : SmLog} (hsized : leader.Sized) (hlast : -1 ≤ leader.lastIdx)
    (term : Int) (u : Uninit) : Reassembles leader term [] (initLog u leader.maxEntries) where
  sized := hsized
  size := rfl
  le_applied := le_rfl
  applied_le := le_rfl
  commit_le := le_rfl
  le_stable := le_rfl
  stable_le := le_rfl
  last_le := hlast
  holds_iff i hlow hhigh := by
    constructor
    · rintro (hstable | hvalid)
      · simp only [initLog] at hstable
        omega
      · cases hvalid
    · rintro ⟨pkt, hmem, -⟩
      exact absurd hmem List.not_mem_nil
  entry i hlow hhigh hholds := by
    rcases hholds with hstable | hvalid
    · simp only [initLog] at hstable
      omega
    · cases hvalid
  gap _ := rfl

variable {leader log : SmLog} {term : Int} {done : List ConRecord}

theorem Reassembles.setCommit (h : Reassembles leader term done log) {idx : Int}
    (hnew : log.commitIdx < idx) (hstable : idx ≤ log.stableIdx) :
    Reassembles leader term done { log with commitIdx := idx } :=
  ⟨h.sized, h.size, h.le_applied, h.applied_le.trans hnew.le, hstable, h.le_stable, h.stable_le, h.last_le,
    h.holds_iff, h.entry, h.gap⟩

theorem Reassembles.apply (h : Reassembles leader term done log)
    (hlt : leader.lastIdx < leader.maxEntries) (hcommit : log.lastApplied < log.commitIdx) :
    Reassembles leader term done (log.applied (log.lastApplied + 1)) := by
  have hle := h.le_applied
  have := h.commit_le
  have := h.stable_le
  have := h.last_le
  have hsize := h.size
  have hmax := h.sized.2
  have hentry : ∀ i, log.stableIdx < i → i ≤ leader.lastIdx →
      (log.applied (log.lastApplied + 1)).entry i = log.entry i := by
    intro i hlow hhigh
    refine log.applied_entry_of_ne fun hslot => ?_
    have := h.sized.add_le_of_slot_eq (i := log.lastApplied + 1) (by omega) (by omega) (by omega)
      hslot.symm
    omega
  have hholds : ∀ i, i ≤ leader.lastIdx →
      ((log.applied (log.lastApplied + 1)).holds i ↔ log.holds i) := by
    intro i hhigh
    by_cases hi : i ≤ log.stableIdx
    · exact ⟨fun _ => .inl hi, fun _ => .inl hi⟩
    · rw [holds, holds, hentry i (not_le.mp hi) hhigh]
      rfl
  have hsame := log.invalidate_sameCommands (log.lastApplied + 1)
  refine ⟨h.sized, h.size, hle.trans (Int.le_add_one le_rfl), hcommit, h.commit_le, h.le_stable,
    h.stable_le, h.last_le, ?_, ?_, ?_⟩
  · exact fun i hlow hhigh => (hholds i hhigh).trans (h.holds_iff i hlow hhigh)
  · intro i hlow hhigh hi
    obtain ⟨hlast, hterm, hchunk⟩ := h.entry i hlow hhigh ((hholds i hhigh).mp hi)
    exact ⟨hlast, (hsame (log.slot i)).2.trans hterm, (hsame (log.slot i)).1.trans hchunk⟩
  · intro hmissing
    have hmissing : log.stableIdx < leader.lastIdx := hmissing
    have hgap := hentry (log.stableIdx + 1) (by omega) (by omega)
    exact (congrArg SmLogEntry.valid hgap).trans (h.gap hmissing)

theorem Reassembles.covered (h : Reassembles leader term done log) {pkt : ConRecord}
    (hapart : ∀ q ∈ done, ∀ i, q.covers i → pkt.covers i → ∀ k, pkt.covers k → q.covers k)
    {i : Int} (hlow : 0 ≤ i) (hhigh : i ≤ leader.lastIdx) (hi : pkt.covers i)
    (hholds : log.holds i) : Reassembles leader term (pkt :: done) log := by
  obtain ⟨q, hq, hcovers⟩ := (h.holds_iff i hlow hhigh).mp hholds
  refine ⟨h.sized, h.size, h.le_applied, h.applied_le, h.commit_le, h.le_stable, h.stable_le,
    h.last_le, ?_, h.entry, h.gap⟩
  intro k hk hk'
  rw [h.holds_iff k hk hk']
  constructor
  · rintro ⟨q', hq', hcovers'⟩
    exact ⟨q', List.mem_cons_of_mem _ hq', hcovers'⟩
  · rintro ⟨q', hq', hcovers'⟩
    rcases List.mem_cons.mp hq' with rfl | hq'
    · exact ⟨q, hq, hapart q hq i hcovers hi k hcovers'⟩
    · exact ⟨q', hq', hcovers'⟩

/-- What is held behind the old `stable_idx` and outside of a stored range was held before. -/
theorem holds_extend {pkt : ConRecord} {log' : SmLog} {i : Int}
    (hstable : log.stableIdx ≤ log'.stableIdx)
    (hcovered : pkt.covers i → (log'.entry i).valid = true)
    (hother : ¬pkt.covers i → log'.entry i = log.entry i)
    (hbelow : log.stableIdx < i → i ≤ log'.stableIdx → (log'.entry i).valid = true) :
    log'.holds i ↔ log.holds i ∨ pkt.covers i := by
  by_cases hcovers : pkt.covers i
  · exact ⟨fun _ => .inr hcovers, fun _ => .inr (hcovered hcovers)⟩
  · have hentry := hother hcovers
    constructor
    · intro hi
      left
      by_cases hi' : i ≤ log.stableIdx
      · exact .inl hi'
      · right
        rw [← hentry]
        rcases hi with hle | hvalid
        · exact hbelow (not_le.mp hi') hle
        · exact hvalid
    · rintro ((hle | hvalid) | hcovers')
      · exact .inl (hle.trans hstable)
      · exact .inr (hentry ▸ hvalid)
      · exact absurd hcovers' hcovers

/-- Storing the range of a packet, and moving `stable_idx` over valid entries up to a gap. -/
theorem Reassembles.extend (h : Reassembles leader term done log) {pkt : ConRecord} {log' : SmLog}
    (hsize : log'.maxEntries = log.maxEntries) (happlied : log'.lastApplied = log.lastApplied)
    (hcommit : log'.commitIdx = log.commitIdx)
    (hlast : log'.lastIdx = max log.lastIdx (pkt.startIdx + pkt.count - 1))
    (hrange : pkt.startIdx + pkt.count ≤ leader.lastIdx + 1)
    (hstable : log.stableIdx ≤ log'.stableIdx) (hstableLast : log'.stableIdx ≤ log'.lastIdx)
    (hcovered : ∀ i, pkt.covers i → (log'.entry i).valid = true ∧ (log'.entry i).term = u32 term ∧
      (log'.entry i).dataChunk = (leader.entry i).dataChunk)
    (hother : ∀ i, 0 ≤ i → i ≤ leader.lastIdx → ¬pkt.covers i → log'.entry i = log.entry i)
    (hbelow : ∀ i, log.stableIdx < i → i ≤ log'.stableIdx → (log'.entry i).valid = true)
    (hgap : log'.stableIdx < leader.lastIdx → (log'.entry (log'.stableIdx + 1)).valid = false) :
    Reassembles leader term (pkt :: done) log' := by
  have hholds : ∀ i, 0 ≤ i → i ≤ leader.lastIdx → (log'.holds i ↔ log.holds i ∨ pkt.covers i) :=
    fun i hlow hhigh => holds_extend hstable (fun hi => (hcovered i hi).1) (hother i hlow hhigh)
      (hbelow i)
  refine ⟨?_, hsize.trans h.size, happlied ▸ h.le_applied, ?_, ?_, h.le_stable.trans hstable,
    hstableLast, ?_, ?_, ?_, hgap⟩
  · rw [Sized, hsize]
    exact h.sized
  · rw [happlied, hcommit]
    exact h.applied_le
  · rw [hcommit]
    exact h.commit_le.trans hstable
  · have := h.last_le
    omega
  · intro i hlow hhigh
    rw [hholds i hlow hhigh, h.holds_iff i hlow hhigh, List.exists_mem_cons_iff, or_comm]
  · intro i hlow hhigh hi
    by_cases hcovers : pkt.covers i
    · refine ⟨?_, (hcovered i hcovers).2⟩
      have := hcovers.2
      omega
    · have hold : log.holds i :=
        ((hholds i hlow hhigh).mp hi).resolve_right hcovers
      obtain ⟨hle, hentry⟩ := h.entry i hlow hhigh hold
      rw [hother i hlow hhigh hcovers]
      exact ⟨by omega, hentry⟩

section Receive

variable {node : Node} {pkt : ConRecord} {priv : ConsensusPriv} {rclusterId : Int}

theorem Reassembles.passes (h : Reassembles node.smLog node.priv.term done log) (hnode : node.OneTerm)
    (hpkt : node.Carries pkt) (hprev : log.stableIdx ≤ pkt.prevLogIdx) : log.passesAppend pkt := by
  have hprevIdx := hpkt.prevLogIdx
  have := h.commit_le
  have := h.le_stable
  have hstable := h.stable_le
  have hlast := h.last_le
  refine ⟨hprev, ?_, hpkt.size, fun _ => by omega⟩
  unfold checkPrevLogMatch
  split
  · rfl
  case isFalse hne =>
  have hnonneg : 0 ≤ log.stableIdx := by
    by_contra hlt
    exact hne (by rw [show log.stableIdx = -1 by omega])
  have hslot : log.entry (u32 log.stableIdx) = log.entry log.stableIdx := by
    simp only [SmLog.entry, slot, u32_u32]
  have hheld := h.entry log.stableIdx hnonneg (hstable.trans hlast) (.inl le_rfl)
  rw [if_neg, hslot, hheld.2.1, hpkt.prevLogTerm]
  · simp
  · have hfits := hnode.last_lt
    have hmax := hnode.sized.2
    rw [u32_eq_toNat hnonneg (by omega), u32_eq_toNat (by omega) (by omega)]
    omega

/-- Where `stable_idx` comes to stand, the next index is not held: it has not moved away from the gap
before the range, or it has stopped at an invalid slot, or nothing lies behind the last index. -/
theorem Reassembles.received_gap (h : Reassembles node.smLog node.priv.term done log) {log' : SmLog}
    (hreceives : log.Receives priv pkt rclusterId log') (hstart : pkt.prevLogIdx = pkt.startIdx - 1)
    (hbelow : pkt.newLast ≠ 2147483647)
    (hlast : log'.lastIdx = max log.lastIdx (pkt.startIdx + pkt.count - 1))
    (hother : ∀ i, 0 ≤ i → i ≤ node.smLog.lastIdx → ¬pkt.covers i → log'.entry i = log.entry i)
    (hmissing : log'.stableIdx < node.smLog.lastIdx) :
    (log'.entry (log'.stableIdx + 1)).valid = false := by
  have hle := h.le_stable
  have hle' := hle.trans hreceives.stable_le
  by_cases hunstable : log.isUnstable priv pkt rclusterId = true
  · have hgt : log.stableIdx < pkt.prevLogIdx := (decide_eq_true_iff.mp hunstable).1
    rw [hreceives.unstable hunstable] at hmissing ⊢
    rw [hother _ (by omega) (by omega) fun hi => by
      have := hi.1
      omega]
    exact h.gap hmissing
  · rcases hreceives.stop (Bool.eq_false_iff.mpr hunstable) hbelow with hend | hinvalid
    · rw [hother _ (by omega) (by omega) fun hi => by
        have := hi.2
        omega]
      by_contra hvalid
      have hheld := h.entry (log'.stableIdx + 1) (by omega) (by omega)
        (.inr (Bool.not_eq_false _ ▸ hvalid))
      have := hheld.1
      omega
    · exact hinvalid

/-- An APPEND of the leader adds its range to what is held. -/
theorem Reassembles.receive (h : Reassembles node.smLog node.priv.term done log) (hnode : node.OneTerm)
    (hpkt : node.Carries pkt)
    (hapart : ∀ q ∈ done, ∀ i, q.covers i → pkt.covers i → ∀ k, pkt.covers k → q.covers k)
    (hterm : priv.term = node.priv.term) :
    Reassembles node.smLog node.priv.term (pkt :: done) (log.handleAppend priv pkt rclusterId).1 := by
  have hrange := hpkt.last
  have hcount := hpkt.count
  have hstart := hpkt.start
  have hprevIdx := hpkt.prevLogIdx
  have hlastLt := hnode.last_lt
  have hsize := h.size
  have hstableLe := h.stable_le
  by_cases hprev : pkt.prevLogIdx < log.stableIdx
  · have hunchanged := log.handleAppend_of_not_passes priv rclusterId hpkt.numEntries
      fun hpasses => absurd hprev (not_lt.mpr hpasses.1)
    rw [hunchanged]
    exact h.covered hapart hstart (by omega) ⟨le_rfl, by omega⟩ (.inl (by omega))
  rw [handleAppend_of_passes priv rclusterId hpkt.numEntries (h.passes hnode hpkt (not_lt.mp hprev))]
  have hreceives := log.receives priv pkt rclusterId
  generalize log.received priv pkt rclusterId = log' at hreceives ⊢
  dsimp only
  have hbelow : pkt.newLast ≠ 2147483647 := by
    have hmax := hnode.sized.2
    rw [ConRecord.count] at hrange hcount
    omega
  have hlast := hreceives.lastIdx
  rw [if_neg (by omega)] at hlast
  have hother : ∀ i, 0 ≤ i → i ≤ node.smLog.lastIdx → ¬pkt.covers i →
      log'.entry i = log.entry i := fun i hlow hhigh hi =>
    (hreceives.entry i).trans (storeRange_entry_other pkt.entries priv.term h.sized hstart (by omega)
      hlow (by omega) hi)
  refine h.extend hreceives.maxEntries hreceives.lastApplied hreceives.commitIdx hlast hrange
    hreceives.stable_le ?_ ?_ hother hreceives.below (h.received_gap hreceives hprevIdx hbelow hlast hother)
  · rcases hreceives.stable_last with hsame | hle
    · omega
    · exact hle
  · rintro i ⟨hlow, hhigh⟩
    have hentry := storeRange_entry_covered pkt.entries priv.term h.sized hstart (by omega) hlow hhigh
    have hchunk := hpkt.entries (i - pkt.startIdx).toNat (by omega)
    rw [show pkt.startIdx + ((i - pkt.startIdx).toNat : Int) = i by omega] at hchunk
    rw [hreceives.entry i, hentry, hterm, hchunk]
    exact ⟨rfl, rfl, rfl⟩

end Receive

end SmLog

namespace Node

/-- A follower that has accepted the target in the given term, in unicast mode. -/
structure Follows (n : Node) (lid : Nat) (term : Int) : Prop where
  target : lid < n.numOfTargets
  state : n.priv.state = .running
  role : n.priv.nstate = .follower
  leaderId : n.priv.leaderId = u32 (n.rclusterId lid)
  term : n.priv.term = term
  unicast : n.sdev.multicastEnable = false

variable {leader n : Node} {lid : Nat} {done : List ConRecord} {pkt : ConRecord}

theorem Follows.step (h : n.Follows lid leader.priv.term) (hpkt : leader.Carries pkt) :
    (n.step (.handle lid pkt)).Follows lid leader.priv.term ∧
      (n.step (.handle lid pkt)).smLog = ((n.smLog.handleAppend n.priv pkt (n.rclusterId lid)).1.commitLog
        n.rxbuf false (asI32 pkt.leaderCommitIdx)).1 := by
  rw [step_append h.target h.state h.role hpkt.opcode h.leaderId (hpkt.term.trans h.term.symm)]
  obtain ⟨sent, heq⟩ := n.handleAppendRpc_eq pkt lid (n.rclusterId lid)
  rw [heq]
  refine ⟨⟨h.target, h.state, h.role, h.leaderId, h.term, h.unicast⟩, ?_⟩
  simp only [commitLog, h.unicast]

theorem reassembles_step (hleader : leader.OneTerm) (h : n.Follows lid leader.priv.term)
    (hlog : SmLog.Reassembles leader.smLog leader.priv.term done n.smLog) (hpkt : leader.Carries pkt)
    (hapart : ∀ q ∈ done, ∀ i, q.covers i → pkt.covers i → ∀ k, pkt.covers k → q.covers k) :
    SmLog.Reassembles leader.smLog leader.priv.term (pkt :: done)
      (n.step (.handle lid pkt)).smLog := by
  rw [(h.step hpkt).2]
  have hreceived : SmLog.Reassembles leader.smLog leader.priv.term (pkt :: done)
      (n.smLog.handleAppend n.priv pkt (n.rclusterId lid)).1 :=
    hlog.receive hleader hpkt hapart h.term
  refine SmLog.commitLog_preserves false (fun _ hnew hstable => ?_) (fun _ hcommit hl => ?_) _ _
    hreceived
  · exact hreceived.setCommit hnew (hstable rfl)
  · exact hl.apply hleader.last_lt hcommit

theorem reassembles_run (hleader : leader.OneTerm) {packets : List ConRecord} {next : Int}
    (hpackets : leader.CutTo packets next) (order : List ConRecord)
    (horder : ∀ pkt ∈ order, pkt ∈ packets) (hdone : ∀ pkt ∈ done, pkt ∈ packets)
    (h : n.Follows lid leader.priv.term)
    (hlog : SmLog.Reassembles leader.smLog leader.priv.term done n.smLog) :
    SmLog.Reassembles leader.smLog leader.priv.term (order.reverse ++ done)
      (n.run (order.map (Event.handle lid))).smLog := by
  induction order generalizing n done with
  | nil => exact hlog
  | cons pkt order ih =>
    obtain ⟨hpkt, horder⟩ := List.forall_mem_cons.mp horder
    have hcarries := hpackets.carries pkt hpkt
    have hstep := reassembles_step hleader h hlog hcarries fun q hq i hq' hi k hk =>
      hpackets.apart pkt hpkt q (hdone q hq) i hi hq' k hk
    rw [List.reverse_cons, List.append_assoc]
    exact ih horder (List.forall_mem_cons.mpr ⟨hpkt, hdone⟩) (h.step hcarries).1 hstep

/-- The follower has the whole log once it has got every packet. -/
theorem reassembled (hleader : leader.OneTerm) {packets : List ConRecord}
    (hpackets : leader.CutTo packets (leader.smLog.lastIdx + 1)) (order : List ConRecord)
    (horder : ∀ pkt, pkt ∈ order ↔ pkt ∈ packets) (h : n.Follows lid leader.priv.term) (u : Uninit)
    (hlog : n.smLog = initLog u leader.smLog.maxEntries) :
    (n.run (order.map (Event.handle lid))).smLog.stableIdx = leader.smLog.lastIdx ∧
      (n.run (order.map (Event.handle lid))).smLog.lastIdx = leader.smLog.lastIdx ∧
      ∀ i, 0 ≤ i → i ≤ leader.smLog.lastIdx →
        ((n.run (order.map (Event.handle lid))).smLog.entry i).dataChunk =
          (leader.smLog.entry i).dataChunk := by
  have hempty : SmLog.Reassembles leader.smLog leader.priv.term [] n.smLog :=
    hlog ▸ SmLog.reassembles_initLog hleader.sized hleader.le_last _ u
  have hfinal := reassembles_run hleader hpackets order (fun pkt => (horder pkt).mp)
    (fun _ hmem => absurd hmem List.not_mem_nil) h hempty
  have hholds : ∀ i, 0 ≤ i → i ≤ leader.smLog.lastIdx →
      (n.run (order.map (Event.handle lid))).smLog.holds i := by
    intro i hlow hhigh
    obtain ⟨pkt, hpkt, hcovers⟩ := hpackets.covered i hlow (by omega)
    refine (hfinal.holds_iff i hlow hhigh).mpr ⟨pkt, ?_, hcovers⟩
    rw [List.append_nil, List.mem_reverse]
    exact (horder pkt).mpr hpkt
  have hle := hfinal.le_stable
  have hstable : leader.smLog.lastIdx ≤ (n.run (order.map (Event.handle lid))).smLog.stableIdx := by
    by_contra hlt
    have hgap := hfinal.gap (not_le.mp hlt)
    rcases hholds _ (by omega) (Int.add_one_le_of_lt (not_le.mp hlt)) with hbelow | hvalid
    · omega
    · exact absurd (hgap.symm.trans hvalid) Bool.false_ne_true
  have hstableLe := hfinal.stable_le
  have hlastLe := hfinal.last_le
  refine ⟨by omega, by omega, fun i hlow hhigh => ?_⟩
  exact (hfinal.entry i hlow hhigh (hholds i hlow hhigh)).2.2

/-- **Reassembly.** A log of one term, cut by successive calls, is whole at the follower after any
order of arrival in which no packet is missing, as it is after the order of the calls. -/
theorem reassembly (leader : Node) (hleader : leader.OneTerm) (targetId : Nat)
    (calls : List (Int × Int)) (hcalls : ∀ call ∈ calls, 1 ≤ call.1 ∧ call.1 ≤ maxAeEntriesPerPkt)
    (hstart : leader.leaderIdx.nextIndex targetId = 0)
    (hcut : (leader.appendMsgs targetId calls).1.leaderIdx.nextIndex targetId =
      leader.smLog.lastIdx + 1)
    (n : Node) (lid : Nat) (h : n.Follows lid leader.priv.term) (u : Uninit)
    (hlog : n.smLog = initLog u leader.smLog.maxEntries) (order : List ConRecord)
    (horder : ∀ pkt, pkt ∈ order ↔ pkt ∈ (leader.appendMsgs targetId calls).2) :
    let final := n.run (order.map (Event.handle lid))
    let inOrder := n.run ((leader.appendMsgs targetId calls).2.map (Event.handle lid))
    final.smLog.stableIdx = leader.smLog.lastIdx ∧ final.smLog.lastIdx = leader.smLog.lastIdx ∧
      (∀ i, 0 ≤ i → i ≤ leader.smLog.lastIdx →
        (final.smLog.entry i).dataChunk = (leader.smLog.entry i).dataChunk) ∧
      final.smLog.stableIdx = inOrder.smLog.stableIdx ∧
      final.smLog.lastIdx = inOrder.smLog.lastIdx ∧
      ∀ i, 0 ≤ i → i ≤ leader.smLog.lastIdx →
        (final.smLog.entry i).dataChunk = (inOrder.smLog.entry i).dataChunk := by
  intro final inOrder
  have hpackets := appendMsgs_cutTo hleader targetId calls hcalls
    ⟨rfl, ⟨leader.smLog.commitIdx, rfl⟩, rfl⟩ hstart.ge (hstart.symm ▸ leader.cutTo_nil)
  rw [hcut, List.nil_append] at hpackets
  obtain ⟨hstable, hlast, hchunk⟩ := reassembled hleader hpackets order horder h u hlog
  obtain ⟨hstable', hlast', hchunk'⟩ := reassembled hleader hpackets _ (fun _ => Iff.rfl) h u hlog
  exact ⟨hstable, hlast, hchunk, hstable.trans hstable'.symm, hlast.trans hlast'.symm,
    fun i hlow hhigh => (hchunk i hlow hhigh).trans (hchunk' i hlow hhigh).symm⟩

/-- Node 1 leads, has appended three commands and has sent nothing of them yet. -/
def threeCommands : Node := run (consensusInit (smallConfig 1 [2, 3]) zeroUninit) (joining ++
  [.handle 0 (setLeOpcode .vote 1 0 0 0), .handle 1 (setLeOpcode .vote 1 0 0 0),
    .request [sampleChunk 7, sampleChunk 8, sampleChunk 9]])

/-- Node 2 has heard of it. -/
def awaiting : Node := run (consensusInit (smallConfig 2 [1, 3]) zeroUninit) (joining ++
  [.handle 0 (setLeOpcode .alive 1 (-1) (-1) 0)])

def threeCalls : List (Int × Int) := [(2, -1), (1, 0), (1, 1)]

example : (threeCommands.appendMsgs 0 threeCalls).2.map ConRecord.count = [2, 1] := by
  decide +kernel

example : (awaiting.run ((threeCommands.appendMsgs 0 threeCalls).2.reverse.map
    (Event.handle 0))).smLog.stableIdx = 2 := by
  decide +kernel

theorem threeCommands_oneTerm : threeCommands.OneTerm where
  sized := ⟨by decide +kernel, by decide +kernel⟩
  term := by decide +kernel
  le_last := by decide +kernel
  last_lt := by decide +kernel
  terms i hlow hhigh := by
    have hterms : ∀ k < 3, (threeCommands.smLog.entry (k : Nat)).term = u32 threeCommands.priv.term := by
      decide +kernel
    have hlast : threeCommands.smLog.lastIdx = 2 := by decide +kernel
    obtain ⟨k, rfl⟩ := Int.eq_ofNat_of_zero_le hlow
    exact hterms k (by omega)

theorem awaiting_follows : awaiting.Follows 0 threeCommands.priv.term where
  target := by decide +kernel
  state := by decide +kernel
  role := by decide +kernel
  leaderId := by decide +kernel
  term := by decide +kernel
  unicast := by decide +kernel

/-- The two packets arrive in the wrong order. -/
theorem reassembly_threeCommands :
    let final := awaiting.run
      ((threeCommands.appendMsgs 0 threeCalls).2.reverse.map (Event.handle 0))
    final.smLog.stableIdx = threeCommands.smLog.lastIdx ∧
      final.smLog.lastIdx = threeCommands.smLog.lastIdx ∧
      ∀ i, 0 ≤ i → i ≤ threeCommands.smLog.lastIdx →
        (final.smLog.entry i).dataChunk = (threeCommands.smLog.entry i).dataChunk :=
  have hcut : (threeCommands.appendMsgs 0 threeCalls).1.leaderIdx.nextIndex 0 =
      threeCommands.smLog.lastIdx + 1 := appendMsgs_complete threeCommands_oneTerm
    (by decide +kernel) (by decide +kernel) (by decide +kernel) threeCalls (by decide)
    ⟨rfl, ⟨threeCommands.smLog.commitIdx, rfl⟩, rfl⟩ (by decide +kernel) (by decide +kernel)
    (by decide +kernel)
  have h := reassembly threeCommands threeCommands_oneTerm 0 threeCalls (by decide)
    (by decide +kernel) hcut awaiting 0 awaiting_follows zeroUninit rfl
    (threeCommands.appendMsgs 0 threeCalls).2.reverse fun _ => List.mem_reverse
  ⟨h.1, h.2.1, h.2.2.1⟩

end Node

end XlaneLkm
