import XlaneLkm.Proof.WireCluster
import XlaneLkm.Proof.Progress
import XlaneLkm.Proof.Replica

/-!
# Multicast on the wire

`setup_append_multicast_msg` writes an APPEND into the packet buffer, and the pacemaker copies the
payload of the packet over it, which nobody has filled. So the entries of a leader in multicast mode
leave it on no frame. Its heartbeats still announce commits, and a replica without a single entry follows
them: what it hands to user space is the memory its slots were allocated in.
-/

namespace XlaneLkm

open MachineInt

namespace SmLog

/-- No command has ever been stored. -/
structure Blank (u : Uninit) (maxEntries : Int) (log : SmLog) : Prop where
  maxEntries : log.maxEntries = maxEntries
  entries : ∀ k, log.entries k = ⟨false, u.terms k, u.chunks k⟩
  lastIdx : log.lastIdx = -1
  applied_ge : -1 ≤ log.lastApplied
  applied : log.abstract.applied =
    (List.range (log.lastApplied + 1).toNat).map fun k : Nat => u.chunks (log.slot k)

variable {u : Uninit} {maxEntries : Int} {log : SmLog}

theorem blank_initLog (u : Uninit) (maxEntries : Int) : (initLog u maxEntries).Blank u maxEntries :=
  ⟨rfl, fun _ => rfl, rfl, le_rfl, rfl⟩

theorem Blank.congr {log' : SmLog} (h : log.Blank u maxEntries) (hmax : log'.maxEntries = log.maxEntries)
    (hentries : log'.entries = log.entries) (hlast : log'.lastIdx = log.lastIdx)
    (happlied : log'.lastApplied = log.lastApplied) (hhistory : log'.history = log.history) :
    log'.Blank u maxEntries := by
  refine ⟨hmax.trans h.maxEntries, hentries ▸ h.entries, hlast.trans h.lastIdx, happlied ▸ h.applied_ge, ?_⟩
  have habstract : log'.abstract = log.abstract := by rw [abstract, hhistory, abstract]
  have hslot : log'.slot = log.slot := by
    funext i
    rw [slot, hmax, slot]
  rw [habstract, happlied, hslot]
  exact h.applied

theorem Blank.apply (h : log.Blank u maxEntries) :
    (log.applied (log.lastApplied + 1)).Blank u maxEntries := by
  have hlow := h.applied_ge
  refine ⟨h.maxEntries, fun k => ?_, h.lastIdx, ?_, ?_⟩
  · by_cases hk : k = log.slot (log.lastApplied + 1)
    · subst hk
      dsimp only [SmLog.applied, invalidate]
      rw [Function.update_self, entry, h.entries]
    · dsimp only [SmLog.applied, invalidate]
      rw [Function.update_of_ne hk, h.entries]
  · change -1 ≤ log.lastApplied + 1
    omega
  · have hnext : (log.lastApplied + 1 + 1).toNat = (log.lastApplied + 1).toNat + 1 := by omega
    have hindex : ((log.lastApplied + 1).toNat : Int) = log.lastApplied + 1 := by omega
    calc log.abstract.applied ++ [(log.entry (log.lastApplied + 1)).dataChunk]
      _ = (List.range (log.lastApplied + 1).toNat).map (fun k : Nat => u.chunks (log.slot k)) ++
          [u.chunks (log.slot (log.lastApplied + 1))] := by rw [h.applied, entry, h.entries]
      _ = (List.range (log.lastApplied + 1 + 1).toNat).map fun k : Nat => u.chunks (log.slot k) := by
        rw [hnext, List.range_succ, List.map_append, List.map_singleton, hindex]

end SmLog

namespace Node

variable {u : Uninit} {maxEntries : Int} {n : Node} {e : Event}

theorem blank_move {log log' : SmLog} (hrole : n.priv.nstate ≠ .leader) (hbrings : e.bringsNoEntries)
    (h : LogMove n e log log') (hlog : log.Blank u maxEntries) : log'.Blank u maxEntries := by
  cases h with
  | store lid pkt j he hlid h =>
    subst he
    exact absurd h.2.2.1 hbrings
  | stabilise lid pkt he hlid h =>
    subst he
    exact absurd h.2.2.1 hbrings
  | retransRequest idx => exact hlog.congr rfl rfl rfl rfl rfl
  | setCommit => exact hlog.congr rfl rfl rfl rfl rfl
  | apply => exact hlog.apply
  | request chunk idx hleader => exact absurd hleader hrole
  | leaderCommit lid pkt N he hlid h => exact absurd h.2.1 hrole
  | repair =>
    unfold SmLog.getLastIdxSafe
    rw [if_neg (by have := hlog.lastIdx; omega)]
    exact hlog
  | multicast => exact hlog.congr rfl rfl rfl rfl rfl

/-- A node that never leads and gets no APPEND stores nothing. -/
theorem run_blank (c : Config) (u : Uninit) {events : List Event}
    (hbrings : ∀ e ∈ events, e.bringsNoEntries)
    (hleads : (run (consensusInit c u) events).hist.leads = []) :
    (run (consensusInit c u) events).smLog.Blank u c.maxEntries := by
  suffices h : (run (consensusInit c u) events).LedIfLeader ∧
      (run (consensusInit c u) events).smLog.Blank u c.maxEntries from h.2
  induction events using List.reverseRecOn with
  | nil =>
    exact ⟨⟨fun h => NodeState.noConfusion h, fun h => Bool.noConfusion h⟩, SmLog.blank_initLog u _⟩
  | append_singleton events e ih =>
    rw [run_snoc] at hleads ⊢
    have hbefore : (run (consensusInit c u) events).hist.leads = [] := by
      by_contra hlead
      exact step_leads_ne_nil _ e hlead hleads
    obtain ⟨hled, hblank⟩ := ih (fun e' he' => hbrings e' (List.mem_append_left _ he')) hbefore
    have hnew := hbrings e (List.mem_append_right _ List.mem_cons_self)
    exact ⟨step_ledIfLeader _ e hled, step_preserves_log _ e
      (fun log log' hmove hlog => blank_move (fun hrole => hled.1 hrole hbefore) hnew hmove hlog) hblank⟩

end Node

namespace WireCluster

variable {ι : Type*} [DecidableEq ι]

/-- **In multicast mode no node ever gets an entry.** A node that has never led has nothing in its log,
whatever it has received, and what it has handed to user space are the slots as they were allocated. -/
theorem multicast_brings_nothing (c : WireCluster ι) (hmulticast : c.multicastEnable = true)
    (moves : List (WireMove ι)) (i : ι)
    (hleads : ((c.run moves).station i).node.hist.leads = []) :
    let log := ((c.run moves).station i).node.smLog
    log.lastIdx = -1 ∧ (∀ k, log.entries k = ⟨false, (c.uninit i).terms k, (c.uninit i).chunks k⟩) ∧
      log.abstract.applied =
        (List.range (log.lastApplied + 1).toNat).map fun k : Nat => (c.uninit i).chunks (log.slot k) := by
  have hlinked := (c.run_follows (C := fun _ _ => True) (fun _ _ _ _ _ _ => trivial) moves).linked
  have hbrings := hlinked.bringsNoEntries hmulticast i
  have hevents := hlinked.events i
  rw [hevents] at hleads ⊢
  have hblank := Node.run_blank (c.config i) (c.uninit i) hbrings hleads
  exact ⟨hblank.lastIdx, hblank.entries, hblank.applied⟩

/-- The leader sends two commands to all; none arrives, and its next heartbeat lets node 1 apply one. -/
def announcedCommit : List (WireMove (Fin 3)) := wireElection ++
  [.act 0 (.request [sampleChunk 7, sampleChunk 8]), .emitAsync 0, wireArrive 1 0 0 4, .handle 1 1,
    wireTick 0, wireTick 0, wireArrive 1 0 1 5, .handle 1 1]

example : (((threeStations true).run announcedCommit).station 1).node.smLog.lastApplied = 0 := by
  decide +kernel

theorem multicast_brings_nothing_announcedCommit :
    let log := (((threeStations true).run announcedCommit).station 1).node.smLog
    log.lastIdx = -1 ∧ (∀ k, log.entries k = ⟨false, 0, DataChunk.zero⟩) ∧
      log.abstract.applied =
        (List.range (log.lastApplied + 1).toNat).map fun _ : Nat => DataChunk.zero :=
  multicast_brings_nothing (threeStations true) rfl announcedCommit 1 (by decide +kernel)

end WireCluster

end XlaneLkm
