import XlaneLkm.TargetTables
import XlaneLkm.Proof.TargetWrite

/-!
# The length of the arrays indexed by target

A registration is accepted while there are less than `MAX_REMOTE_SOURCES` targets, and the arrays have
`CLUSTER_SIZE` entries.
-/

namespace XlaneLkm

open MachineInt
open Run (Meets meets_iff)

namespace Node

variable {n : Node} {a : TableAccess}

/-! ### The recorded accesses are those of the functions -/

/-- `initialize_indices` leaves every cell alone that it does not name. -/
theorem initializeIndices_frame (n : Node) (h : a ∉ n.initializeIndicesAccesses) :
    n.initializeIndices.leaderIdx.cell a = n.leaderIdx.cell a := by
  rw [initializeIndices_eq]
  obtain ⟨sent, hsent⟩ := preHbSetups_eq (List.range n.numOfTargets)
    { n with leaderIdx := n.resetIndices n.numOfTargets }
  rw [hsent]
  obtain ⟨table, i⟩ := a
  by_cases hi : i < n.numOfTargets
  · have htable : table = .targetFire := by
      by_contra hother
      refine h (List.mem_flatMap.mpr ⟨i, List.mem_range.mpr hi, ?_⟩)
      cases table <;> simp at hother ⊢
    rw [htable]
    rfl
  · cases table with
    | nextIndex => exact congrArg (fun x => [x]) (if_neg hi)
    | matchIndex => exact congrArg (fun x => [x]) (if_neg hi)
    | numRetransmissions => exact congrArg (fun x => [x]) (if_neg hi)
    | retransHead => exact if_neg hi
    | retransEntries => exact congrArg (fun x => [x]) (if_neg hi)
    | retransListLock => rfl
    | targetFire => rfl

theorem queueRetransmission_frame (n : Node) (remoteLid : Nat) (retransIdx : Int)
    (h : a ∉ n.queueRetransmissionAccesses remoteLid retransIdx) :
    (n.queueRetransmission remoteLid retransIdx).leaderIdx.cell a = n.leaderIdx.cell a := by
  rw [queueRetransmission]
  split
  · rfl
  case isFalse hnew =>
    rw [queueRetransmissionAccesses, if_neg hnew] at h
    obtain ⟨table, i⟩ := a
    cases table with
    | numRetransmissions =>
      have hi : i ≠ remoteLid := fun heq => h (by simp [heq])
      exact congrArg (fun x => [x]) (Function.update_of_ne hi ..)
    | retransHead =>
      have hi : i ≠ remoteLid := fun heq => h (by simp [heq])
      exact Function.update_of_ne hi ..
    | retransEntries =>
      have hi : i ≠ remoteLid := fun heq => h (by simp [heq])
      exact congrArg (fun x => [x]) (Function.update_of_ne hi ..)
    | _ => rfl

theorem isPotentialCommitIdx_reads (n : Node) (idx : LeaderIndices) (N : Int)
    (h : ∀ a ∈ n.isPotentialCommitIdxAccesses, idx.cell a = n.leaderIdx.cell a) :
    ({ n with leaderIdx := idx } : Node).isPotentialCommitIdx N = n.isPotentialCommitIdx N := by
  have hhits : (List.range n.numOfTargets).countP (fun i =>
        n.sdev.alive i = false ∨ idx.matchIndex i ≥ N) =
      (List.range n.numOfTargets).countP fun i =>
        n.sdev.alive i = false ∨ n.leaderIdx.matchIndex i ≥ N := by
    refine List.countP_congr fun i hi => ?_
    by_cases halive : n.sdev.alive i = false
    · simp [halive]
    · have hcell := h ⟨.matchIndex, i⟩ (List.mem_flatMap.mpr ⟨i, hi, by rw [if_neg halive]; simp⟩)
      rw [List.cons_eq_cons.mp hcell |>.1]
  rw [isPotentialCommitIdx, isPotentialCommitIdx]
  exact congrArg (fun hits => decide (hits ≥ n.numOfTargets)) hhits

theorem commitCandidateLoop_reads (n : Node) (idx : LeaderIndices) (i : Nat) (N : Int) (k : Nat)
    (h : ∀ a ∈ n.commitCandidateAccesses i k, idx.cell a = n.leaderIdx.cell a) :
    ({ n with leaderIdx := idx } : Node).commitCandidateLoop i N k = n.commitCandidateLoop i N k := by
  induction k generalizing i N with
  | zero => rfl
  | succ k ih =>
    rw [commitCandidateAccesses] at h
    have hmatch : idx.matchIndex i = n.leaderIdx.matchIndex i :=
      (List.cons_eq_cons.mp (h ⟨.matchIndex, i⟩ List.mem_cons_self)).1
    have hrest := fun a ha => h a (List.mem_cons_of_mem _ ha)
    simp only [commitCandidateLoop, hmatch]
    by_cases hunset : n.leaderIdx.matchIndex i = -1
    · rw [if_pos hunset, if_pos hunset]
    by_cases hbeyond : n.leaderIdx.matchIndex i > n.smLog.lastIdx
    · rw [if_neg hunset, if_neg hunset, if_pos hbeyond, if_pos hbeyond]
    rw [if_neg hunset, if_neg hbeyond] at hrest
    rw [if_neg hunset, if_neg hunset, if_neg hbeyond, if_neg hbeyond]
    have hlater : ∀ N, ({ n with leaderIdx := idx } : Node).commitCandidateLoop (i + 1) N k =
        n.commitCandidateLoop (i + 1) N k :=
      fun N => ih (i + 1) N fun a ha => hrest a (List.mem_append_right _ ha)
    rw [hlater, hlater]
    by_cases hterm : (n.smLog.entry (n.leaderIdx.matchIndex i)).term = u32 n.priv.term
    · rw [if_pos hterm] at hrest
      rw [isPotentialCommitIdx_reads n idx _ fun a ha => hrest a (List.mem_append_left _ ha)]
    · rw [if_neg fun hboth => hterm hboth.1, if_neg fun hboth => hterm hboth.1]

/-- `update_commit_idx` depends on the cells it names only. -/
theorem updateCommitIdx_reads (n : Node) (idx : LeaderIndices)
    (h : ∀ a ∈ n.updateCommitIdxAccesses, idx.cell a = n.leaderIdx.cell a) :
    ({ n with leaderIdx := idx } : Node).updateCommitIdx.smLog = n.updateCommitIdx.smLog := by
  rw [updateCommitIdx, updateCommitIdx]
  by_cases hmulticast : n.sdev.multicastEnable = true
  · rw [if_pos hmulticast, if_pos hmulticast]
  · rw [updateCommitIdxAccesses, if_neg hmulticast] at h
    rw [if_neg hmulticast, if_neg hmulticast]
    have hloop : ({ n with leaderIdx := idx } : Node).commitCandidateLoop 0 (-1)
        ({ n with leaderIdx := idx } : Node).numOfTargets = n.commitCandidateLoop 0 (-1) n.numOfTargets :=
      commitCandidateLoop_reads n idx 0 (-1) n.numOfTargets h
    rw [hloop]
    cases n.commitCandidateLoop 0 (-1) n.numOfTargets <;> rfl

end Node

/-- A packet goes to every target whose flag is set, whatever stood in the local array. -/
theorem emitPktsNonScheduled_emitted (numOfTargets : Nat) (fire uninit : Nat → Bool) :
    (emitPktsNonScheduled numOfTargets fire uninit).emitted = (List.range numOfTargets).filter fire := by
  simp only [emitPktsNonScheduled, Tally.foldl_update_range]
  refine List.filter_congr fun i hi => ?_
  rw [if_pos (List.mem_range.mp hi)]

theorem emitPktsNonScheduled_frame {numOfTargets i : Nat} (fire uninit : Nat → Bool)
    (h : ⟨.targetFire, i⟩ ∉ emitPktsNonScheduledAccesses numOfTargets) :
    (emitPktsNonScheduled numOfTargets fire uninit).targetFire i = uninit i := by
  have hi : ¬i < numOfTargets := fun hlt => h <| by
    simp only [emitPktsNonScheduledAccesses, List.mem_append, List.mem_map, List.mem_range]
    exact .inr ⟨i, hlt, rfl⟩
  simp only [emitPktsNonScheduled, Tally.foldl_update_range, if_neg hi]

/-! ### Indices -/

namespace Node

variable {n : Node} {a : TableAccess}

theorem isPotentialCommitIdxAccesses_index_lt (ha : a ∈ n.isPotentialCommitIdxAccesses) :
    a.index < n.numOfTargets := by
  obtain ⟨i, hi, ha⟩ := List.mem_flatMap.mp ha
  split at ha
  · cases ha
  · rw [List.mem_singleton.mp ha]
    exact List.mem_range.mp hi

theorem commitCandidateAccesses_index_lt {i k : Nat} (hi : i + k ≤ n.numOfTargets)
    (ha : a ∈ n.commitCandidateAccesses i k) : a.index < n.numOfTargets := by
  induction k generalizing i with
  | zero => cases ha
  | succ k ih =>
    rw [commitCandidateAccesses] at ha
    rcases List.mem_cons.mp ha with rfl | ha
    · exact (show i < n.numOfTargets by omega)
    split_ifs at ha with hunset hbeyond hterm
    · cases ha
    · cases ha
    · cases List.mem_append.mp ha with
      | inl hterms => exact isPotentialCommitIdxAccesses_index_lt hterms
      | inr hlater => exact ih (by omega) hlater
    · rw [List.nil_append] at ha
      exact ih (by omega) ha

theorem accesses_index_lt {op : TableOp} (hop : n.Offers op) (ha : a ∈ n.accesses op) :
    a.index < n.numOfTargets := by
  cases op with
  | initializeIndices =>
    obtain ⟨i, hi, ha⟩ := List.mem_flatMap.mp ha
    have hindex : a.index = i := by
      simp only [List.mem_cons, List.not_mem_nil, or_false] at ha
      rcases ha with rfl | rfl | rfl | rfl | rfl | rfl <;> rfl
    rw [hindex]
    exact List.mem_range.mp hi
  | isPotentialCommitIdx => exact isPotentialCommitIdxAccesses_index_lt ha
  | updateCommitIdx =>
    rw [accesses, updateCommitIdxAccesses] at ha
    split at ha
    · cases ha
    · exact commitCandidateAccesses_index_lt (by omega) ha
  | queueRetransmission remoteLid retransIdx =>
    have hindex : a.index = remoteLid := by
      rw [accesses, queueRetransmissionAccesses] at ha
      split at ha
      · simp only [List.append_nil, List.mem_cons, List.not_mem_nil, or_false] at ha
        rcases ha with rfl | rfl <;> rfl
      · simp only [List.cons_append, List.nil_append, List.mem_cons, List.not_mem_nil, or_false] at ha
        rcases ha with rfl | rfl | rfl | rfl | rfl <;> rfl
    rw [hindex]
    exact hop
  | emitPktsNonScheduled =>
    simp only [accesses, emitPktsNonScheduledAccesses, List.mem_append, List.mem_map, List.mem_range] at ha
    rcases ha with (⟨i, hi, rfl⟩ | ⟨i, hi, rfl⟩) | ⟨i, hi, rfl⟩
    · exact hi
    · exact hi
    · exact hi

/-- No operation uses an index outside its array. -/
def TablesSuffice (n : Node) : Prop :=
  ∀ op, n.Offers op → ∀ a ∈ n.accesses op, a.index < clusterSize

theorem tablesSuffice_iff : n.TablesSuffice ↔ n.numOfTargets ≤ clusterSize := by
  constructor
  · intro hsuffice
    by_contra hmany
    have hlast : ⟨.nextIndex, clusterSize⟩ ∈ n.accesses .initializeIndices :=
      List.mem_flatMap.mpr ⟨clusterSize, List.mem_range.mpr (by omega), List.mem_cons_self⟩
    exact lt_irrefl _ (hsuffice .initializeIndices trivial _ hlast)
  · exact fun hfew op hop a ha => Nat.lt_of_lt_of_le (accesses_index_lt hop ha) hfew

end Node

/-! ### Registrations -/

namespace Host

variable {h : Host} {entry : TargetEntry}

/-- How many tuples name a peer, on a device of cluster id `own`. -/
def registrations (own : Nat) : List TargetEntry → Nat
  | [] => 0
  | entry :: entries =>
    (if entry.isLocal = false ∧ u32 entry.clusterId ≠ own then 1 else 0) +
      registrations (ownIdAfter own entry) entries

/-- The advertisement is of a peer that is not known yet. -/
def Admits (h : Host) (clusterId : Int) (ip : UInt32) (mac : Bool) : Prop :=
  h.node.sdev.pmState = .emitting ∧ h.peerIsRegistered clusterId = false ∧
    ¬(clusterId < 0 ∨ ip = 0 ∨ mac = false) ∧ u32 clusterId ≠ h.node.sdev.clusterId

/-- The event leaves at most `CLUSTER_SIZE` targets. -/
def FewPeers (h : Host) : HostEvent → Prop
  | .targetWrite entries => registrations h.node.sdev.clusterId entries ≤ clusterSize
  | .advertise clusterId ip mac => h.Admits clusterId ip mac → h.node.numOfTargets < clusterSize
  | .node _ | .postTs .. => True

/-- A tuple registers its peer while there is room in the table of targets. -/
theorem writeTarget_numOfTargets (hfits : h.Fits) (entry : TargetEntry) :
    (h.writeTarget entry).node.numOfTargets = min maxRemoteSources (h.node.numOfTargets +
      if entry.isLocal = false ∧ u32 entry.clusterId ≠ h.node.sdev.clusterId then 1 else 0) := by
  by_cases hidle : entry.isLocal = false → u32 entry.clusterId = h.node.sdev.clusterId
  · rw [if_neg fun hbusy => hbusy.2 (hidle hbusy.1), Nat.add_zero, min_eq_right hfits]
    exact congrArg List.length (writeTarget_idle hidle).targets
  obtain ⟨hremote, hother⟩ := Classical.not_imp.mp hidle
  rw [if_pos ⟨hremote, hother⟩]
  by_cases hroom : h.node.numOfTargets < maxRemoteSources
  · rw [writeTarget_joins hremote hother hroom, join_numOfTargets, min_eq_right hroom]
  · rw [writeTarget, if_neg (by rw [hremote]; exact Bool.false_ne_true), registerPeerByIp, if_neg hother,
      if_pos (Nat.not_lt.mp hroom)]
    have hfull : h.node.numOfTargets ≤ maxRemoteSources := hfits
    dsimp only
    omega

theorem writeTargets_numOfTargets (hfits : h.Fits) (entries : List TargetEntry) :
    (entries.foldl writeTarget h).node.numOfTargets =
      min maxRemoteSources (h.node.numOfTargets + registrations h.node.sdev.clusterId entries) := by
  induction entries generalizing h with
  | nil => exact (min_eq_right hfits).symm
  | cons entry entries ih =>
    have hfirst := writeTarget_numOfTargets hfits entry
    have hrest := ih (h := h.writeTarget entry) (by rw [Fits, hfirst]; exact min_le_left ..)
    rw [writeTarget_clusterId] at hrest
    rw [List.foldl_cons, hrest, hfirst, registrations]
    omega

theorem advertise_numOfTargets (hfew : h.node.numOfTargets ≤ clusterSize) (clusterId : Int) (ip : UInt32)
    (mac : Bool) : (h.advertise clusterId ip mac).node.numOfTargets ≤ clusterSize ↔
      (h.Admits clusterId ip mac → h.node.numOfTargets < clusterSize) := by
  have hroom : ¬h.node.numOfTargets ≥ maxRemoteSources := by
    have hlimits : clusterSize < maxRemoteSources := by decide
    omega
  rw [advertise, Admits]
  by_cases hpm : h.node.sdev.pmState = .emitting
  · by_cases hknown : h.peerIsRegistered clusterId = true
    · rw [if_neg (not_not.mpr hpm), if_pos hknown]
      have hunknown : ¬h.peerIsRegistered clusterId = false := by rw [hknown]; decide
      exact iff_of_true hfew fun hadmits => absurd hadmits.2.1 hunknown
    by_cases hmissing : clusterId < 0 ∨ ip = 0 ∨ mac = false
    · rw [if_neg (not_not.mpr hpm), if_neg hknown, if_pos hmissing]
      exact iff_of_true hfew fun hadmits => absurd hmissing hadmits.2.2.1
    rw [if_neg (not_not.mpr hpm), if_neg hknown, if_neg hmissing, registerPeerByIp]
    by_cases hself : u32 clusterId = h.node.sdev.clusterId
    · rw [if_pos hself]
      exact iff_of_true hfew fun hadmits => absurd hself hadmits.2.2.2
    · rw [if_neg hself, if_neg hroom]
      have hjoin : (h.join clusterId).node.numOfTargets ≤ clusterSize ↔
          h.node.numOfTargets < clusterSize := by
        rw [join_numOfTargets]
        exact Iff.rfl
      refine hjoin.trans ⟨fun hlt _ => hlt, fun hlt => hlt ⟨hpm, ?_, hmissing, hself⟩⟩
      exact Bool.eq_false_iff.mpr hknown
  · rw [if_pos hpm]
    exact iff_of_true hfew fun hadmits => absurd hadmits.1 hpm

theorem tablesSuffice_step_iff (hfew : h.node.numOfTargets ≤ clusterSize) (e : HostEvent) :
    (h.step e).node.TablesSuffice ↔ h.FewPeers e := by
  rw [Node.tablesSuffice_iff]
  cases e with
  | node e =>
    exact iff_of_true ((h.node.step_numOfTargets e).trans_le hfew) trivial
  | advertise clusterId ip mac => exact advertise_numOfTargets hfew clusterId ip mac
  | targetWrite entries =>
    have hwritten : (h.asgardTargetWrite entries).node.numOfTargets =
        min maxRemoteSources (0 + registrations h.node.sdev.clusterId entries) :=
      writeTargets_numOfTargets (h := { h with node.sdev.targets := [] }) (Nat.zero_le _) entries
    have hlimits : clusterSize < maxRemoteSources := by decide
    rw [step, hwritten, FewPeers]
    omega
  | postTs cycles ctype =>
    refine iff_of_true ?_ trivial
    rw [step, asgardPostTs]
    split
    · exact (List.length_modify ..).trans_le hfew
    · exact hfew

/-- **The arrays indexed by target.** All indices are within their arrays, in every state of a run, if and
only if no registration of the run leaves more than `CLUSTER_SIZE` targets. -/
theorem tables_suffice_iff (c : Config) (u : Uninit) (events : List HostEvent) :
    Meets step (fun h e => (h.step e).node.TablesSuffice) (init c u) events ↔
      Meets step FewPeers (init c u) events :=
  meets_iff step (I := fun h => h.node.numOfTargets ≤ clusterSize)
    (fun _ e hfew => tablesSuffice_step_iff hfew e)
    (fun _ e hfew hpeers => Node.tablesSuffice_iff.mp ((tablesSuffice_step_iff hfew e).mpr hpeers))
    (Nat.zero_le _) events

def fourPeers : List TargetEntry := [⟨false, 2, 2⟩, ⟨false, 3, 3⟩, ⟨false, 4, 4⟩, ⟨false, 5, 5⟩]

/-- **A cluster of five** is registered, and its leader initialises the indices of a fourth target. -/
theorem fourth_target_overruns : ¬∀ (c : Config) (u : Uninit) (events : List HostEvent),
    Meets step (fun h e => (h.step e).node.TablesSuffice) (init c u) events := by
  intro hall
  have hsuffice := (hall (smallConfig 1 []) zeroUninit [.targetWrite fourPeers]).1
  have hindex := hsuffice .initializeIndices trivial ⟨.nextIndex, 3⟩ (by decide)
  exact absurd hindex (by decide)

end Host

end XlaneLkm
