import XlaneLkm.Proof.Appending
import XlaneLkm.Proof.IndexOrder

/-!
# An APPEND is stored as a whole or not at all

The loop of `append_commands` stores one entry after the other and stops at the first that
`append_command` refuses. It refuses an index below `commit_idx`, the indices ascend, and `commit_idx`
stays where it is: if any entry is refused, the first one is.
-/

namespace XlaneLkm

open MachineInt

namespace ConRecord

variable {pkt : ConRecord}

theorem startIdx_eq (hlow : -1 ≤ pkt.prevLogIdx) (hhigh : pkt.prevLogIdx < 2147483647) :
    pkt.startIdx = pkt.prevLogIdx + 1 :=
  i32_eq_self (by omega) (by omega)

theorem newLast_eq (hlow : -1 ≤ pkt.prevLogIdx) (hnum : 1 ≤ pkt.numEntries.toNat)
    (hsum : pkt.prevLogIdx + pkt.numEntries.toNat < 2147483647) :
    pkt.newLast = pkt.prevLogIdx + pkt.numEntries.toNat := by
  have hnumber : i32 pkt.numEntries.toNat = pkt.numEntries.toNat :=
    i32_eq_self (by omega) (by omega)
  rw [newLast, startIdx_eq hlow (by omega), hnumber, i32_eq_self (by omega) (by omega)]
  omega

theorem count_eq (hlow : -1 ≤ pkt.prevLogIdx) (hnum : 1 ≤ pkt.numEntries.toNat)
    (hsum : pkt.prevLogIdx + pkt.numEntries.toNat < 2147483647) :
    pkt.count = pkt.numEntries.toNat := by
  rw [count, newLast_eq hlow hnum hsum, startIdx_eq hlow (by omega)]
  omega

end ConRecord

namespace SmLog

variable {log log' : SmLog} {pkt : ConRecord} {term : Int}

/-- All entries of the packet stand in their slots, in order; no other slot, and neither `commit_idx`
nor `last_applied` has been touched. -/
structure StoresAll (log : SmLog) (pkt : ConRecord) (term : Int) (log' : SmLog) : Prop where
  entry : ∀ j < pkt.numEntries.toNat,
    log'.entries (log.slot (pkt.prevLogIdx + 1 + j)) = ⟨true, u32 term, pkt.entries j⟩
  other : ∀ q, (∀ j < pkt.numEntries.toNat, log.slot (pkt.prevLogIdx + 1 + j) ≠ q) →
    log'.entries q = log.entries q
  lastIdx : log'.lastIdx = max log.lastIdx (pkt.prevLogIdx + pkt.numEntries.toNat)
  commitIdx : log'.commitIdx = log.commitIdx
  lastApplied : log'.lastApplied = log.lastApplied

theorem storeRange_entry_inside (hsized : log.Sized) (chunk : Nat → DataChunk) (term first : Int)
    {k j : Nat} (hfirst : 0 ≤ first) (hlast : first + k ≤ 4294967296) (hturn : (k : Int) ≤ log.maxEntries)
    (hj : j < k) :
    (log.storeRange chunk term first k).entry (first + j) = ⟨true, u32 term, chunk j⟩ := by
  have hown : ∀ j' < k, log.slot (first + j) = log.slot (first + j') → j' = j := by
    intro j' hj' hslot
    have := hsized.eq_of_slot_eq (by omega) (by omega) (by omega) (by omega) ⟨by omega, by omega⟩ hslot
    omega
  obtain ⟨hvalid, hterm⟩ := log.storeRange_entry chunk term first k ⟨j, hj, rfl⟩
  have hchunk := log.storeRange_dataChunk chunk term first k hj hown
  rw [← hvalid, ← hterm, ← hchunk]

theorem storesAll_received (hsized : log.Sized) (hlow : -1 ≤ pkt.prevLogIdx)
    (hnum : 1 ≤ pkt.numEntries.toNat) (hmax : (pkt.numEntries.toNat : Int) ≤ log.maxEntries)
    (hsum : pkt.prevLogIdx + pkt.numEntries.toNat < 2147483647) (priv : ConsensusPriv)
    (rclusterId : Int) : log.StoresAll pkt priv.term (log.received priv pkt rclusterId) := by
  have hstart := ConRecord.startIdx_eq hlow (by omega)
  have hcount := ConRecord.count_eq hlow hnum hsum
  have hreceives := log.receives priv pkt rclusterId
  have hentries : (log.received priv pkt rclusterId).entries = _ := received_entries ..
  rw [hstart, hcount] at hentries
  refine ⟨fun j hj => ?_, fun q hq => ?_, ?_, hreceives.commitIdx, hreceives.lastApplied⟩
  · have hinside := storeRange_entry_inside hsized pkt.entries priv.term (pkt.prevLogIdx + 1)
      (by omega) (by omega) hmax hj
    rw [SmLog.entry, storeRange_slot] at hinside
    rw [hentries]
    exact hinside
  · rw [hentries]
    exact log.storeRange_entries_of_ne pkt.entries priv.term _ _ hq
  · rw [hreceives.lastIdx, hcount, hstart, if_neg (by omega)]
    omega

end SmLog

namespace Node

/-- The node answers with an APPEND_REPLY whose `append_success` is 0. -/
def repliesFailure (n n' : Node) (lid : Nat) : Prop :=
  ∃ reply, n'.sent = (.target lid, some reply) :: n.sent ∧ reply.opcodeVal = some .appendReply ∧
    asI32 reply.param2 = 0

theorem not_repliesFailure_send {n n' : Node} {lid : Nat} {code loggedIdx : Int}
    (hcode : i32 code ≠ 0) (hsent : n'.sent = n.sent) (term : Int) :
    ¬n.repliesFailure (n'.replyAppend lid term code loggedIdx) lid := by
  rintro ⟨reply, hreply, -, hfailure⟩
  have hcons : (Dest.target lid, some (setLeOpcode .appendReply term code loggedIdx
      n'.smLog.stableIdx)) :: n'.sent = (.target lid, some reply) :: n.sent := hreply
  rw [hsent, List.cons.injEq, Prod.mk.injEq, Option.some_inj] at hcons
  rw [← hcons.1.2] at hfailure
  exact hcode ((asI32_toU32 code).symm.trans hfailure)

theorem not_repliesFailure_self {n n' : Node} {lid : Nat} (hsent : n'.sent = n.sent) :
    ¬n.repliesFailure n' lid := by
  rintro ⟨reply, hreply, -⟩
  have hlength := congrArg List.length hreply
  rw [hsent, List.length_cons] at hlength
  omega

theorem handleAppendRpc_of_passes {n : Node} {pkt : ConRecord} (hnum : pkt.numEntries.toNat ≠ 0)
    (h : n.smLog.passesAppend pkt) (hbelow : pkt.newLast ≠ 2147483647) (lid : Nat)
    (rclusterId : Int) :
    (n.handleAppendRpc pkt lid rclusterId).smLog = n.smLog.received n.priv pkt rclusterId ∧
      ¬n.repliesFailure (n.handleAppendRpc pkt lid rclusterId) lid := by
  have hanswer := SmLog.handleAppend_of_passes n.priv rclusterId hnum h
  rw [if_neg hbelow] at hanswer
  simp only [handleAppendRpc, hanswer]
  by_cases hretrans : (n.smLog.received n.priv pkt rclusterId).nextRetransReqIdx ≠ -2
  · rw [if_pos hretrans]
    exact ⟨rfl, not_repliesFailure_send (by decide) rfl _⟩
  · rw [if_neg hretrans]
    dsimp only
    split
    · exact ⟨rfl, not_repliesFailure_self rfl⟩
    · exact ⟨rfl, not_repliesFailure_send (by decide) rfl _⟩

theorem handleAppendRpc_of_not_passes {n : Node} {pkt : ConRecord}
    (hnum : pkt.numEntries.toNat ≠ 0) (h : ¬n.smLog.passesAppend pkt) (lid : Nat)
    (rclusterId : Int) :
    (n.handleAppendRpc pkt lid rclusterId).smLog = n.smLog ∧
      (pkt.prevLogIdx < n.smLog.stableIdx →
        (n.handleAppendRpc pkt lid rclusterId).sent = n.sent) := by
  have hanswer := SmLog.handleAppend_of_not_passes n.priv rclusterId hnum h
  simp only [handleAppendRpc, hanswer]
  by_cases hstale : pkt.prevLogIdx < n.smLog.stableIdx
  · rw [if_pos hstale]
    exact ⟨rfl, fun _ => rfl⟩
  · rw [if_neg hstale]
    exact ⟨rfl, fun h => absurd h hstale⟩

/-- **An APPEND is stored as a whole or not at all**, and not at all when it is answered with a failure
or is stale. -/
theorem append_all_or_nothing (c : Config) (u : Uninit) (hunicast : c.multicastEnable = false)
    (events : List Event) (pkt : ConRecord) (lid : Nat) (rclusterId : Int)
    (hnum : 1 ≤ pkt.numEntries.toNat) (hmax : (pkt.numEntries.toNat : Int) ≤ c.maxEntries)
    (hsum : pkt.prevLogIdx + pkt.numEntries.toNat < 2147483647) :
    let n := run (consensusInit c u) events
    let n' := n.handleAppendRpc pkt lid rclusterId
    (n'.smLog = n.smLog ∨ n.smLog.StoresAll pkt n.priv.term n'.smLog) ∧
      (n.repliesFailure n' lid → n'.smLog = n.smLog) ∧
      (pkt.prevLogIdx < n.smLog.stableIdx → n'.smLog = n.smLog ∧ n'.sent = n.sent) := by
  intro n n'
  have hsize : n.smLog.maxEntries = c.maxEntries := run_sized c u events
  have hsized : n.smLog.Sized := ⟨hsize ▸ c.maxEntries_pos, hsize ▸ c.maxEntries_le⟩
  have hstable : -1 ≤ n.smLog.stableIdx := (run_indexed c u hunicast events).le_stable
  by_cases hpasses : n.smLog.passesAppend pkt
  · have hprev : n.smLog.stableIdx ≤ pkt.prevLogIdx := hpasses.1
    have hlast := ConRecord.newLast_eq (hstable.trans hprev) hnum hsum
    obtain ⟨hlog, hreply⟩ :=
      handleAppendRpc_of_passes (by omega) hpasses (by omega) lid rclusterId
    refine ⟨.inr ?_, fun h => absurd h hreply, fun h => by omega⟩
    rw [show n'.smLog = _ from hlog]
    exact SmLog.storesAll_received hsized (by omega) hnum (hsize ▸ hmax) hsum n.priv rclusterId
  · obtain ⟨hlog, hsent⟩ := handleAppendRpc_of_not_passes (by omega) hpasses lid rclusterId
    exact ⟨.inl hlog, fun _ => hlog, fun h => ⟨hlog, hsent h⟩⟩

/-- The second entry, at a follower that has applied the first one. -/
theorem append_all_or_nothing_following :
    let n := run (consensusInit (smallConfig 3 [1, 2]) zeroUninit) following
    let pkt := sampleAppend 1 1 0 1 0 (sampleChunk 8)
    let n' := n.handleAppendRpc pkt 0 1
    (n'.smLog = n.smLog ∨ n.smLog.StoresAll pkt n.priv.term n'.smLog) ∧
      (n.repliesFailure n' 0 → n'.smLog = n.smLog) ∧
      (pkt.prevLogIdx < n.smLog.stableIdx → n'.smLog = n.smLog ∧ n'.sent = n.sent) :=
  append_all_or_nothing (smallConfig 3 [1, 2]) zeroUninit rfl following
    (sampleAppend 1 1 0 1 0 (sampleChunk 8)) 0 1 (by decide) (by decide) (by decide)

end Node

end XlaneLkm
