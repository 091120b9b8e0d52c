import XlaneLkm.Proof.IndexOrder
import XlaneLkm.Proof.Ring

/-!
# A node that never leads

Whatever packets it gets, such a node applies what it has received, index by index, as long as no
APPEND writes a whole turn of the ring ahead of `last_applied`: every index between `last_applied` and
`stable_idx` is then in a valid slot of its own, and only these are ever committed.
-/

namespace XlaneLkm

open MachineInt

def LogAction.isWithin (maxEntries : Int) : LogAction → Bool
  | .append idx _ lastApplied => idx ≤ lastApplied + maxEntries
  | .apply _ _ _ => true

namespace SmLog

/-- No command was appended a whole turn ahead of the `last_applied` of its time. -/
def WithinRing (log : SmLog) : Prop :=
  ∀ action ∈ log.history, action.isWithin log.maxEntries

instance (log : SmLog) : Decidable log.WithinRing :=
  inferInstanceAs (Decidable (∀ action ∈ log.history, _))

/-- The log of a replica, on the way from an APPEND to user space. -/
structure Replica (log : SmLog) : Prop where
  indexed : log.Indexed
  commit_le : log.commitIdx ≤ log.stableIdx
  last_le : log.lastIdx ≤ log.lastApplied + log.maxEntries
  valid : ∀ i, log.lastApplied < i → i ≤ log.stableIdx → (log.entry i).valid = true
  refines : log.Refines

theorem replica_initLog (c : Config) (u : Uninit) : (initLog u c.maxEntries).Replica where
  indexed := indexed_initLog u c.maxEntries
  commit_le := le_rfl
  last_le := by
    have := c.maxEntries_pos
    simp only [initLog]
    omega
  valid i hlow hhigh := by
    simp only [initLog] at hlow hhigh
    omega
  refines := refines_of_empty ⟨c.maxEntries_pos, c.maxEntries_le⟩ rfl rfl fun _ => rfl

variable {log : SmLog}

theorem store_valid (log : SmLog) (chunk : DataChunk) (term idx : Int) {i : Int}
    (h : (log.entry i).valid = true) : ((log.store chunk term idx).entry i).valid = true := by
  by_cases hslot : log.slot i = log.slot idx
  · rw [log.store_entry_self chunk term hslot]
  · rw [log.store_entry_of_ne chunk term hslot]
    exact h

theorem Replica.store (h : log.Replica) (chunk : DataChunk) (term : Int) {idx : Int}
    (hstable : log.stableIdx < idx) (hle : idx ≤ 2147483647)
    (hring : idx ≤ log.lastApplied + log.maxEntries) : (log.store chunk term idx).Replica := by
  have := h.indexed.applied_le
  have := h.commit_le
  refine ⟨h.indexed.store chunk term hle, h.commit_le, ?_, ?_, ?_⟩
  · rw [store_lastIdx]
    exact max_le h.last_le hring
  · exact fun i hlow hhigh => log.store_valid chunk term idx (h.valid i hlow hhigh)
  · exact h.refines.store chunk term (by omega) hring (by omega)

theorem Replica.stabilise (h : log.Replica) (hlast : log.stableIdx < log.lastIdx)
    (hvalid : (log.entry (log.stableIdx + 1)).valid = true) :
    Replica { log with stableIdx := log.stableIdx + 1 } := by
  have hindexed := h.indexed
  refine ⟨⟨hindexed.1, hindexed.2, hindexed.3, ?_, hlast, hindexed.6⟩, ?_, h.last_le, ?_, ?_⟩
  · exact hindexed.le_stable.trans (Int.le_add_one le_rfl)
  · exact h.commit_le.trans (Int.le_add_one le_rfl)
  · intro i hlow hhigh
    rcases (show i ≤ log.stableIdx + 1 from hhigh).lt_or_eq with hlt | rfl
    · exact h.valid i hlow (by omega)
    · exact hvalid
  · exact ⟨h.refines.sized, h.refines.applied, h.refines.inOrder, h.refines.shows⟩

theorem Replica.setCommit (h : log.Replica) {commitIdx : Int} (retransIdx : Int)
    (hnew : log.commitIdx ≤ commitIdx) (hstable : commitIdx ≤ log.stableIdx) :
    Replica { log with commitIdx := commitIdx, nextRetransReqIdx := retransIdx } where
  indexed :=
    ⟨h.indexed.1, h.indexed.2.trans hnew, hstable.trans h.indexed.5, h.indexed.4, h.indexed.5,
      h.indexed.6⟩
  commit_le := hstable
  last_le := h.last_le
  valid := h.valid
  refines := ⟨h.refines.sized, h.refines.applied, h.refines.inOrder, h.refines.shows⟩

/-- The indices of the window still to be applied are in slots of their own. -/
theorem Replica.apply (h : log.Replica) (hcommit : log.lastApplied < log.commitIdx) :
    (log.applied (log.lastApplied + 1)).Replica := by
  obtain ⟨hle, happlied, hcommitLast, hstable, hstableLast, hlast⟩ := h.indexed
  have := h.commit_le
  have hnext := h.valid (log.lastApplied + 1) (by omega) (by omega)
  refine ⟨⟨?_, ?_, hcommitLast, hstable, hstableLast, hlast⟩, h.commit_le, ?_, ?_, ?_⟩
  · simp only [applied]
    omega
  · exact hcommit
  · have := h.last_le
    simp only [applied, invalidate]
    omega
  · intro i hlow hhigh
    simp only [applied, invalidate] at hlow hhigh
    have hslot : log.slot i ≠ log.slot (log.lastApplied + 1) := by
      intro heq
      have := h.refines.sized.add_le_of_slot_eq (by omega) hlow (by omega) heq.symm
      have := h.last_le
      omega
    rw [log.applied_entry_of_ne hslot]
    exact h.valid i (by omega) hhigh
  · exact h.refines.apply (by omega) hnext

end SmLog

namespace Node

variable {s : Node} {e : Event} {n n' : Node} {log log' : SmLog}

theorem LogMove.withinRing (h : LogMove s e log log') (hring : log'.WithinRing) : log.WithinRing :=
  fun action hmem => h.maxEntries ▸ hring action (h.history_suffix.subset hmem)

theorem stable_lt_of_accepts {pkt : ConRecord} (h : log.acceptsAppend pkt)
    (hcommit : -1 ≤ log.commitIdx) (j : Nat) : log.stableIdx < pkt.startIdx + j := by
  have := h.startIdx hcommit
  have := h.2.1
  omega

theorem replica_move (hunicast : s.sdev.multicastEnable = false) (hrole : s.priv.nstate ≠ .leader)
    (h : LogMove s e log log') (hring : log'.WithinRing) (hlog : log.Replica) : log'.Replica := by
  cases h with
  | store lid pkt j he hlid h haccepts hj hle hstable hcommit =>
    have hlow := stable_lt_of_accepts haccepts
      (hcommit ▸ hlog.indexed.le_applied.trans hlog.indexed.applied_le) j
    have hwithin := hring _ List.mem_cons_self
    exact hlog.store _ _ (hstable ▸ hlow) hle (of_decide_eq_true hwithin)
  | stabilise lid pkt he hlid h hlast hvalid => exact hlog.stabilise hlast hvalid
  | apply h => exact hlog.apply h
  | request chunk idx h => exact absurd h hrole
  | leaderCommit lid pkt N he hlid h => exact absurd h.2.1 hrole
  | repair => exact hlog.indexed.repaired.symm ▸ hlog
  | multicast commitIdx h => rw [hunicast] at h; cases h
  | setCommit lid pkt idx he hlid h hnew hstable => exact hlog.setCommit _ hnew.le (hstable hunicast)
  | retransRequest idx => exact hlog.setCommit idx le_rfl hlog.commit_le

/-- The role and the flag of a leader are those of a node that has led. -/
def LedIfLeader (n : Node) : Prop :=
  (n.priv.nstate = .leader → n.hist.leads ≠ []) ∧ (n.sdev.isLeader = true → n.hist.leads ≠ [])

theorem ledIfLeader_act (h : Act s e n n') (hn : LedIfLeader n) : LedIfLeader n' := by
  have hleads := h.leads_ne_nil
  have hframe : (n'.priv.nstate = .leader → n.priv.nstate = .leader) →
      (n'.sdev.isLeader = true → n.sdev.isLeader = true) → LedIfLeader n' :=
    fun hstate hflag => ⟨fun h => hleads (hn.1 (hstate h)), fun h => hleads (hn.2 (hflag h))⟩
  cases h with
  | quiet h => exact hframe (fun hstate => h.nstate ▸ hstate) (fun hflag => h.isLeader ▸ hflag)
  | noteVote lid pkt =>
    exact hframe (fun hstate => noteVote_priv s lid pkt ▸ hstate)
      (fun hflag => noteVote_sdev s lid pkt ▸ hflag)
  | leaderCommit =>
    obtain ⟨log, heq⟩ := n.updateCommitIdx_eq
    rw [heq] at hframe ⊢
    exact hframe id id
  | follow => exact ⟨fun h => NodeState.noConfusion h, fun h => Bool.noConfusion h⟩
  | stand => exact ⟨fun h => NodeState.noConfusion h, fun h => Bool.noConfusion h⟩
  | dropLeader => exact hframe id fun h => Bool.noConfusion h
  | raiseLeader _ hlead => exact ⟨fun _ => hlead, fun _ => hlead⟩
  | enterLeader _ hlead => exact ⟨fun _ => hlead, fun h => hn.2 h⟩
  | _ => exact hframe id id

theorem step_ledIfLeader (n : Node) (e : Event) (hn : LedIfLeader n) : LedIfLeader (n.step e) :=
  n.step_preserves e (fun _ _ => ledIfLeader_act) hn

theorem step_leads_ne_nil (n : Node) (e : Event) (hlead : n.hist.leads ≠ []) :
    (n.step e).hist.leads ≠ [] :=
  n.step_preserves (I := fun m => m.hist.leads ≠ []) e (fun _ _ => Act.leads_ne_nil) hlead

theorem step_replica (hunicast : n.sdev.multicastEnable = false) (hrole : n.priv.nstate ≠ .leader)
    (hring : (n.step e).smLog.WithinRing) (hn : n.smLog.Replica) : (n.step e).smLog.Replica := by
  have h := n.step_preserves_log (I := fun log => log.WithinRing → log.Replica) e
    (fun _ _ hmove hlog hring => replica_move hunicast hrole hmove hring
      (hlog (hmove.withinRing hring))) (fun _ => hn)
  exact h hring

theorem step_withinRing (hring : (n.step e).smLog.WithinRing) : n.smLog.WithinRing := by
  have h := n.step_preserves_log (I := fun log => log.WithinRing → n.smLog.WithinRing) e
    (fun _ _ hmove hlog hring => hlog (hmove.withinRing hring)) id
  exact h hring

theorem run_replica (c : Config) (u : Uninit) (hunicast : c.multicastEnable = false)
    (events : List Event) (hleads : (run (consensusInit c u) events).hist.leads = [])
    (hring : (run (consensusInit c u) events).smLog.WithinRing) :
    (run (consensusInit c u) events).smLog.Replica := by
  have h := Run.invariant_run step
    (I := fun n => n.sdev.multicastEnable = false ∧ n.LedIfLeader ∧
      (n.hist.leads = [] → n.smLog.WithinRing → n.smLog.Replica))
    (fun n e hn => by
      obtain ⟨hmode, hled, hreplica⟩ := hn
      refine ⟨(multicastEnable_step n e).trans hmode, step_ledIfLeader n e hled, ?_⟩
      intro hleads hring
      have hbefore : n.hist.leads = [] := by
        by_contra hlead
        exact step_leads_ne_nil n e hlead hleads
      exact step_replica hmode (fun hstate => hled.1 hstate hbefore) hring
        (hreplica hbefore (step_withinRing hring)))
    (s := consensusInit c u)
    ⟨hunicast, ⟨fun h => NodeState.noConfusion h, fun h => Bool.noConfusion h⟩,
      fun _ _ => SmLog.replica_initLog c u⟩ events
  exact h.2.2 hleads hring

end Node

end XlaneLkm
