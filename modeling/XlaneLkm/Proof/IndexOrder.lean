import XlaneLkm.Proof.LogMoves
import Mathlib.Algebra.Order.Group.Int

/-!
# The indices of the log

What every node keeps of the order of `last_applied`, `commit_idx`, `stable_idx` and `last_idx`,
whatever its role.
-/

namespace XlaneLkm

open MachineInt

namespace SmLog

/-- The commands and terms of two rings agree. -/
def SameCommands (entries entries' : Nat → SmLogEntry) : Prop :=
  ∀ k, (entries' k).dataChunk = (entries k).dataChunk ∧ (entries' k).term = (entries k).term

theorem invalidate_sameCommands (log : SmLog) (i : Int) :
    SameCommands log.entries (log.invalidate i).entries := by
  intro k
  by_cases hk : k = log.slot i
  · subst hk
    simp only [invalidate, Function.update_self, entry, and_self]
  · simp only [invalidate, Function.update_of_ne hk, and_self]

theorem invalidateLoop_eq (log : SmLog) (i : Int) (k : Nat) : ∃ entries,
    log.invalidateLoop i k = { log with entries := entries } ∧ SameCommands log.entries entries := by
  induction k generalizing log i with
  | zero => exact ⟨log.entries, rfl, fun _ => ⟨rfl, rfl⟩⟩
  | succ k ih =>
    obtain ⟨entries, heq, hsame⟩ := ih (log.invalidate i) (i + 1)
    have hone := log.invalidate_sameCommands i
    exact ⟨entries, heq, fun j => ⟨(hsame j).1.trans (hone j).1, (hsame j).2.trans (hone j).2⟩⟩

theorem leaderCommit_eq (log : SmLog) (N : Int) : ∃ entries,
    log.leaderCommit N = { log with
      commitIdx := if log.commitIdx < N then N else log.commitIdx
      lastApplied := if log.commitIdx < N then N else log.lastApplied
      entries := entries } ∧ SameCommands log.entries entries := by
  by_cases h : log.commitIdx < N
  · simp only [leaderCommit, if_pos h]
    split
    · exact ⟨log.entries, rfl, fun _ => ⟨rfl, rfl⟩⟩
    · exact invalidateLoop_eq { log with commitIdx := N, lastApplied := N } _ _
  · simp only [leaderCommit, if_neg h]
    split
    · exact ⟨log.entries, rfl, fun _ => ⟨rfl, rfl⟩⟩
    · exact invalidateLoop_eq log _ _

theorem leaderCommit_sameCommands (log : SmLog) (N : Int) :
    SameCommands log.entries (log.leaderCommit N).entries := by
  obtain ⟨entries, heq, hsame⟩ := log.leaderCommit_eq N
  exact heq ▸ hsame

theorem getLastIdxSafe_eq (log : SmLog) :
    log.getLastIdxSafe = { log with lastIdx := if log.lastIdx < -1 then -1 else log.lastIdx } := by
  unfold getLastIdxSafe
  split <;> rfl

theorem store_lastIdx (log : SmLog) (chunk : DataChunk) (term idx : Int) :
    (log.store chunk term idx).lastIdx = max log.lastIdx idx := by
  simp only [store]
  split <;> omega

/-- `last_applied`, `commit_idx`, `stable_idx` and `last_idx` are in this order. -/
def IndexOrder (log : SmLog) : Prop :=
  log.lastApplied ≤ log.commitIdx ∧ log.commitIdx ≤ log.stableIdx ∧ log.stableIdx ≤ log.lastIdx

/-- What holds of the indices of every node in unicast mode. -/
structure Indexed (log : SmLog) : Prop where
  le_applied : -1 ≤ log.lastApplied
  applied_le : log.lastApplied ≤ log.commitIdx
  commit_le : log.commitIdx ≤ log.lastIdx
  le_stable : -1 ≤ log.stableIdx
  stable_le : log.stableIdx ≤ log.lastIdx
  last_le : log.lastIdx ≤ 2147483647

theorem indexed_initLog (u : Uninit) (maxEntries : Int) : Indexed (initLog u maxEntries) := by
  constructor <;> simp [initLog]

theorem Indexed.store {log : SmLog} (h : log.Indexed) (chunk : DataChunk) (term : Int) {idx : Int}
    (hle : idx ≤ 2147483647) : (log.store chunk term idx).Indexed where
  le_applied := h.le_applied
  applied_le := h.applied_le
  commit_le := by rw [store_lastIdx]; exact le_max_of_le_left h.commit_le
  le_stable := h.le_stable
  stable_le := by rw [store_lastIdx]; exact le_max_of_le_left h.stable_le
  last_le := by rw [store_lastIdx]; exact max_le h.last_le hle

theorem Indexed.repaired {log : SmLog} (h : log.Indexed) : log.getLastIdxSafe = log := by
  have := h.stable_le
  have := h.le_stable
  exact if_neg (by omega)

end SmLog

namespace Node

variable {s : Node} {e : Event} {log log' : SmLog}

theorem LogMove.maxEntries (h : LogMove s e log log') : log'.maxEntries = log.maxEntries := by
  cases h with
  | leaderCommit lid pkt N =>
    obtain ⟨entries, heq, -⟩ := s.smLog.leaderCommit_eq N
    rw [heq]
  | repair => rw [log.getLastIdxSafe_eq]
  | _ => rfl

theorem LogMove.history_suffix (h : LogMove s e log log') : log.history <:+ log'.history := by
  cases h with
  | store => exact List.suffix_cons _ _
  | request => exact List.suffix_cons _ _
  | apply => exact List.suffix_cons _ _
  | leaderCommit lid pkt N =>
    obtain ⟨entries, heq, -⟩ := s.smLog.leaderCommit_eq N
    exact heq ▸ List.suffix_rfl
  | repair =>
    have heq : log.getLastIdxSafe.history = log.history := by rw [log.getLastIdxSafe_eq]
    exact heq ▸ List.suffix_rfl
  | _ => exact List.suffix_rfl

theorem LogMove.lastIdx_le (h : LogMove s e log log') : log.lastIdx ≤ log'.lastIdx := by
  cases h with
  | store => exact SmLog.store_lastIdx log _ _ _ ▸ le_max_left _ _
  | request => exact SmLog.store_lastIdx log _ _ _ ▸ le_max_left _ _
  | leaderCommit lid pkt N =>
    obtain ⟨entries, heq, -⟩ := s.smLog.leaderCommit_eq N
    rw [heq]
  | repair =>
    rw [log.getLastIdxSafe_eq]
    dsimp only
    split <;> omega
  | _ => exact le_rfl

theorem LogMove.commitIdx_le (hunicast : s.sdev.multicastEnable = false) (h : LogMove s e log log') :
    log.commitIdx ≤ log'.commitIdx := by
  cases h with
  | setCommit lid pkt idx he hlid h hnew => exact hnew.le
  | multicast commitIdx h => rw [hunicast] at h; cases h
  | leaderCommit lid pkt N =>
    obtain ⟨entries, heq, -⟩ := s.smLog.leaderCommit_eq N
    rw [heq]
    dsimp only
    split <;> omega
  | repair => rw [log.getLastIdxSafe_eq]
  | _ => exact le_rfl

theorem step_lastIdx_le (n : Node) (e : Event) : n.smLog.lastIdx ≤ (n.step e).smLog.lastIdx :=
  n.step_preserves_log (I := fun log => n.smLog.lastIdx ≤ log.lastIdx) e
    (fun _ _ hmove hlog => hlog.trans hmove.lastIdx_le) le_rfl

theorem LogMove.le_last_of_candidate {lid : Nat} {pkt : ConRecord} {N : Int} (hlog : s.smLog.Indexed)
    (hN : N = -1 ∨ (s.recordMatch lid (asI32 pkt.param4)).allMatched ∧
      ∃ j < s.numOfTargets, (s.recordMatch lid (asI32 pkt.param4)).leaderIdx.matchIndex j = N ∧
        (s.recordMatch lid (asI32 pkt.param4)).Committable N) : N ≤ s.smLog.lastIdx := by
  rcases hN with rfl | ⟨hall, j, hj, rfl, -⟩
  · have := hlog.stable_le
    have := hlog.le_stable
    omega
  · exact (hall j hj).2

theorem indexed_move (hunicast : s.sdev.multicastEnable = false) (h : LogMove s e log log')
    (hlog : log.Indexed) : log'.Indexed := by
  cases h with
  | store lid pkt j he hlid h haccepts hj hle => exact hlog.store _ _ hle
  | request chunk idx hrole hguard hle => exact hlog.store _ _ hle
  | repair => exact hlog.repaired.symm ▸ hlog
  | multicast commitIdx h => rw [hunicast] at h; cases h
  | leaderCommit lid pkt N he hlid h hN =>
    have hlast := LogMove.le_last_of_candidate hlog hN
    obtain ⟨entries, heq, -⟩ := s.smLog.leaderCommit_eq N
    obtain ⟨_, _, _, _, _, _⟩ := hlog
    rw [heq]
    by_cases hnew : s.smLog.commitIdx < N
    · simp only [if_pos hnew]
      constructor <;> dsimp only <;> omega
    · simp only [if_neg hnew]
      constructor <;> assumption
  | setCommit lid pkt idx he hlid h hnew hstable =>
    have := hstable hunicast
    obtain ⟨_, _, _, _, _, _⟩ := hlog
    constructor <;> dsimp only <;> omega
  | _ =>
    obtain ⟨_, _, _, _, _, _⟩ := hlog
    constructor <;> simp only [SmLog.applied, SmLog.invalidate] <;> omega

theorem multicastEnable_step (n : Node) (e : Event) :
    (n.step e).sdev.multicastEnable = n.sdev.multicastEnable :=
  congrArg (fun c => c.2.2) (n.step_config e)

theorem run_multicastEnable (c : Config) (u : Uninit) (events : List Event) :
    (run (consensusInit c u) events).sdev.multicastEnable = c.multicastEnable :=
  Run.invariant_run step (I := fun n => n.sdev.multicastEnable = c.multicastEnable)
    (fun n e hn => (multicastEnable_step n e).trans hn) rfl events

theorem run_sized (c : Config) (u : Uninit) (events : List Event) :
    (run (consensusInit c u) events).smLog.maxEntries = c.maxEntries :=
  Run.invariant_run step (I := fun n => n.smLog.maxEntries = c.maxEntries)
    (fun n e hn => n.step_preserves_log e (fun _ _ hmove hlog => hmove.maxEntries.trans hlog) hn)
    rfl events

/-- The part of the order that every node in unicast mode keeps. -/
theorem run_indexed (c : Config) (u : Uninit) (hunicast : c.multicastEnable = false)
    (events : List Event) : (run (consensusInit c u) events).smLog.Indexed := by
  have h := Run.invariant_run step
    (I := fun n => n.sdev.multicastEnable = false ∧ n.smLog.Indexed)
    (fun n e hn => ⟨(multicastEnable_step n e).trans hn.1,
      n.step_preserves_log e (fun _ _ => indexed_move hn.1) hn.2⟩)
    (s := consensusInit c u) ⟨hunicast, SmLog.indexed_initLog u c.maxEntries⟩ events
  exact h.2

end Node

end XlaneLkm
