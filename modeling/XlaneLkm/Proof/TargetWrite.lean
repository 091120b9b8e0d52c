import XlaneLkm.PmCtrl
import XlaneLkm.Proof.Membership

/-!
# Rejected lists of targets

A write to the list of targets is applied tuple by tuple while it is parsed, and the number of targets
is set to 0 before the first. An error stops it where it is.
-/

namespace XlaneLkm

open MachineInt

/-! ### Tokens -/

theorem length_splitOnP_le {α : Type*} (p : α → Bool) (l : List α) :
    (l.splitOnP p).length ≤ l.length + 1 := by
  induction l with
  | nil => exact le_rfl
  | cons a l ih =>
    rw [List.splitOnP_cons_eq_if_modifyHead]
    split
    · exact Nat.succ_le_succ ih
    · rw [List.length_modifyHead, List.length_cons]
      omega

namespace Kernel

variable (k : Kernel)

theorem length_targetTokens_le (text : List Char) : (targetTokens text).length ≤ asgardTargetsBuf := by
  have hsplit := length_splitOnP_le (fun c => " ,;()".toList.contains c)
    ((text.take (min (asgardTargetsBuf - 1) text.length)).takeWhile fun c => c.toNat ≠ 0)
  have hwhile := (List.takeWhile_sublist (fun c : Char => decide (c.toNat ≠ 0))
    (l := text.take (min (asgardTargetsBuf - 1) text.length))).length_le
  have htake := List.length_take_le (min (asgardTargetsBuf - 1) text.length) text
  have hbuf : asgardTargetsBuf = 512 := rfl
  simp only [targetTokens]
  omega

/-- The complete tuples in front of the first bad token, and the error for that token. -/
def parseTuples (state : TupleState) (currentIp : UInt32) (clusterId : Int) :
    List (List Char) → List TargetEntry × Option Errno
  | [] => ([], none)
  | inputStr :: tokens =>
    if inputStr = [] then parseTuples state currentIp clusterId tokens
    else
      match state with
      | .ip =>
        let currentIp := k.asgardIpConvert inputStr
        if currentIp = toU32 (-Errno.einval.code) then ([], some .einval)
        else parseTuples .mac currentIp clusterId tokens
      | .mac => parseTuples .protocol currentIp clusterId tokens
      | .protocol =>
        match k.kstrtoint inputStr with
        | .error e => ([], some e)
        | .ok _ => parseTuples .clusterId currentIp clusterId tokens
      | .clusterId =>
        let clusterId :=
          match k.kstrtoint inputStr with
          | .error _ => clusterId
          | .ok clusterId => clusterId
        let (entries, err) := parseTuples .ip currentIp clusterId tokens
        (⟨k.isIpLocal currentIp, currentIp, clusterId⟩ :: entries, err)

def parseTargets (clusterId : Int) (text : List Char) : List TargetEntry × Option Errno :=
  k.parseTuples .ip (toU32 (-1)) clusterId (targetTokens text)

/-- The loop writes the tuples one after the other. The buffer is too short for the limit on their
number. -/
theorem targetLoop_eq (w : TargetWrite) (tokens : List (List Char))
    (hroom : w.i + tokens.length ≤ asgardTargetsBuf) :
    k.targetLoop w tokens =
      ((k.parseTuples w.state w.currentIp w.clusterId tokens).1.foldl Host.writeTarget w.host,
        (k.parseTuples w.state w.currentIp w.clusterId tokens).2) := by
  induction tokens generalizing w with
  | nil => rfl
  | cons inputStr tokens ih =>
    rw [List.length_cons] at hroom
    rw [targetLoop, parseTuples.eq_def]
    dsimp only
    by_cases hempty : inputStr = []
    · rw [if_pos hempty, if_pos hempty]
      exact ih w (by omega)
    rw [if_neg hempty, if_neg hempty, if_neg (by omega)]
    obtain ⟨host, i, state, currentIp, clusterId⟩ := w
    cases state with
    | ip =>
      dsimp only
      split
      · rfl
      · exact ih _ (by dsimp only at hroom ⊢; omega)
    | mac => exact ih _ (by dsimp only at hroom ⊢; omega)
    | protocol =>
      dsimp only
      cases k.kstrtoint inputStr with
      | error e => rfl
      | ok protocol => exact ih _ (by dsimp only at hroom ⊢; omega)
    | clusterId =>
      dsimp only
      rw [ih _ (by dsimp only at hroom ⊢; split <;> omega)]
      rfl

end Kernel

/-! ### What the tuples change -/

namespace Host

variable {h : Host} {own : Nat} {entry : TargetEntry} {entries : List TargetEntry}

/-- Targets, own cluster id and member counters are the same. -/
structure SameMembership (h h' : Host) : Prop where
  targets : h'.node.sdev.targets = h.node.sdev.targets
  clusterId : h'.node.sdev.clusterId = h.node.sdev.clusterId
  overall : h'.ci.overallClusterMember = h.ci.overallClusterMember
  active : h'.ci.activeClusterMember = h.ci.activeClusterMember
  dead : h'.ci.deadClusterMember = h.ci.deadClusterMember
  joins : h'.ci.clusterJoins = h.ci.clusterJoins
  dropouts : h'.ci.clusterDropouts = h.ci.clusterDropouts

theorem SameMembership.refl (h : Host) : h.SameMembership h := ⟨rfl, rfl, rfl, rfl, rfl, rfl, rfl⟩

/-- The cluster id that the device has after the tuple. -/
def ownIdAfter (own : Nat) (entry : TargetEntry) : Nat :=
  if entry.isLocal then u32 entry.clusterId else own

/-- No tuple registers a peer: those that are not local name the cluster id of the device itself. -/
def NoneRegistered (own : Nat) : List TargetEntry → Prop
  | [] => True
  | entry :: entries =>
    (entry.isLocal = false → u32 entry.clusterId = own) ∧
      NoneRegistered (ownIdAfter own entry) entries

instance NoneRegistered.decidable (own : Nat) :
    (entries : List TargetEntry) → Decidable (NoneRegistered own entries)
  | [] => isTrue trivial
  | entry :: entries =>
    have := NoneRegistered.decidable (ownIdAfter own entry) entries
    inferInstanceAs (Decidable (_ ∧ _))

theorem writeTarget_clusterId (h : Host) (entry : TargetEntry) :
    (h.writeTarget entry).node.sdev.clusterId = ownIdAfter h.node.sdev.clusterId entry := by
  rw [writeTarget, ownIdAfter]
  split
  · rfl
  · rw [registerPeerByIp]
    split_ifs <;> rfl

/-- A tuple that registers nothing leaves the targets and the counters alone. -/
theorem writeTarget_idle (hidle : entry.isLocal = false → u32 entry.clusterId = h.node.sdev.clusterId) :
    ({ h with node.sdev.clusterId := ownIdAfter h.node.sdev.clusterId entry } : Host).SameMembership
      (h.writeTarget entry) := by
  rw [writeTarget, ownIdAfter]
  split
  · exact ⟨rfl, rfl, rfl, rfl, rfl, rfl, rfl⟩
  case isFalse hremote =>
    rw [registerPeerByIp, if_pos (hidle (Bool.eq_false_iff.mpr hremote))]
    exact ⟨rfl, rfl, rfl, rfl, rfl, rfl, rfl⟩

theorem writeTarget_joins (hremote : entry.isLocal = false)
    (hother : u32 entry.clusterId ≠ h.node.sdev.clusterId) (hroom : h.node.numOfTargets < maxRemoteSources) :
    h.writeTarget entry = h.join entry.clusterId := by
  rw [writeTarget, if_neg (by rw [hremote]; exact Bool.false_ne_true), registerPeerByIp, if_neg hother,
    if_neg (Nat.not_le.mpr hroom)]
  rfl

theorem join_overall (hroom : h.node.numOfTargets < maxRemoteSources) (clusterId : Int) :
    (h.join clusterId).ci.overallClusterMember = h.ci.overallClusterMember + 1 := by
  have hmember : ¬h.node.numOfTargets > maxClusterMember := by
    have hlimits : maxRemoteSources ≤ maxClusterMember := by decide
    omega
  rw [join, ClusterInfo.addClusterMember, if_neg hmember]

theorem writeTarget_overall_le (h : Host) (entry : TargetEntry) :
    h.ci.overallClusterMember ≤ (h.writeTarget entry).ci.overallClusterMember := by
  rw [writeTarget]
  split
  · exact le_rfl
  · rw [registerPeerByIp]
    split_ifs with hself hfull
    · exact le_rfl
    · exact le_rfl
    · have hjoin := join_overall (Nat.not_le.mp hfull) entry.clusterId
      change h.ci.overallClusterMember ≤ (h.join entry.clusterId).ci.overallClusterMember
      omega

theorem writeTargets_overall_le (h : Host) (entries : List TargetEntry) :
    h.ci.overallClusterMember ≤ (entries.foldl writeTarget h).ci.overallClusterMember := by
  induction entries generalizing h with
  | nil => exact le_rfl
  | cons entry entries ih => exact (h.writeTarget_overall_le entry).trans (ih _)

/-- The own cluster id is the only thing that a list changes that registers nobody. -/
theorem writeTargets_idle (hidle : NoneRegistered h.node.sdev.clusterId entries) :
    ({ h with node.sdev.clusterId := entries.foldl ownIdAfter h.node.sdev.clusterId } :
      Host).SameMembership (entries.foldl writeTarget h) := by
  induction entries generalizing h with
  | nil => exact .refl h
  | cons entry entries ih =>
    have hfirst := writeTarget_idle hidle.1
    have hrest := ih (h := h.writeTarget entry) (by rw [writeTarget_clusterId]; exact hidle.2)
    rw [writeTarget_clusterId] at hrest
    exact ⟨hrest.targets.trans hfirst.targets, hrest.clusterId, hrest.overall.trans hfirst.overall,
      hrest.active.trans hfirst.active, hrest.dead.trans hfirst.dead, hrest.joins.trans hfirst.joins,
      hrest.dropouts.trans hfirst.dropouts⟩

/-- Into an empty table a first tuple that is not idle registers a peer. -/
theorem writeTargets_counts (hempty : h.node.sdev.targets = [])
    (hbusy : ¬NoneRegistered h.node.sdev.clusterId entries) :
    h.ci.overallClusterMember < (entries.foldl writeTarget h).ci.overallClusterMember := by
  induction entries generalizing h with
  | nil => exact absurd trivial hbusy
  | cons entry entries ih =>
    rw [List.foldl_cons]
    by_cases hidle : entry.isLocal = false → u32 entry.clusterId = h.node.sdev.clusterId
    · have hfirst := writeTarget_idle hidle
      have hrest : ¬NoneRegistered (h.writeTarget entry).node.sdev.clusterId entries := by
        rw [writeTarget_clusterId]
        exact fun hnone => hbusy ⟨hidle, hnone⟩
      have hoverall : (h.writeTarget entry).ci.overallClusterMember = h.ci.overallClusterMember :=
        hfirst.overall
      rw [← hoverall]
      exact ih (hfirst.targets.trans hempty) hrest
    · obtain ⟨hremote, hother⟩ := Classical.not_imp.mp hidle
      have hroom : h.node.numOfTargets < maxRemoteSources := by
        rw [Node.numOfTargets, AsgardDevice.numOfTargets, hempty]
        decide
      have hjoin := join_overall hroom entry.clusterId
      have hgrows := writeTargets_overall_le (h.writeTarget entry) entries
      rw [writeTarget_joins hremote hother hroom] at hgrows ⊢
      omega

/-- **A list that was applied in part** leaves the membership as it was only if there was none. -/
theorem asgardTargetWrite_same_iff (h : Host) (entries : List TargetEntry) :
    h.SameMembership (h.asgardTargetWrite entries) ↔
      h.node.sdev.targets = [] ∧ NoneRegistered h.node.sdev.clusterId entries ∧
        entries.foldl ownIdAfter h.node.sdev.clusterId = h.node.sdev.clusterId := by
  rw [asgardTargetWrite]
  constructor
  · intro hsame
    have hnone : NoneRegistered h.node.sdev.clusterId entries := by
      by_contra hbusy
      have hcounts := writeTargets_counts (h := { h with node.sdev.targets := [] }) rfl hbusy
      rw [hsame.overall] at hcounts
      exact lt_irrefl _ hcounts
    have hidle := writeTargets_idle (h := { h with node.sdev.targets := [] }) hnone
    exact ⟨hsame.targets.symm.trans hidle.targets, hnone, hidle.clusterId.symm.trans hsame.clusterId⟩
  · rintro ⟨hempty, hnone, hown⟩
    have hidle := writeTargets_idle (h := { h with node.sdev.targets := [] }) hnone
    refine ⟨hidle.targets.trans hempty.symm, hidle.clusterId.trans hown, hidle.overall, hidle.active,
      hidle.dead, hidle.joins, hidle.dropouts⟩

end Host

namespace Kernel

variable (k : Kernel) (h : Host) (notCopied : Nat) (clusterId : Int) (text : List Char)

def RejectedUnchanged : Prop :=
  (k.asgardTargetWrite h notCopied clusterId text).2 < 0 →
    h.SameMembership (k.asgardTargetWrite h notCopied clusterId text).1

/-- The text is not reached, or all its tokens are good, or there are no targets and the tuples in front
of the bad token neither register any nor leave another cluster id. -/
def HarmlessText : Prop :=
  notCopied ≠ 0 ∨ h.node.numOfTargets > asgardTargetsBuf ∨
    (k.parseTargets clusterId text).2 = none ∨
    h.node.sdev.targets = [] ∧
      Host.NoneRegistered h.node.sdev.clusterId (k.parseTargets clusterId text).1 ∧
      (k.parseTargets clusterId text).1.foldl Host.ownIdAfter h.node.sdev.clusterId =
        h.node.sdev.clusterId

theorem errno_code_pos (e : Errno) : 0 < e.code := by
  cases e <;> decide

theorem asgardTargetWrite_eq (hcopied : notCopied = 0) (hroom : ¬h.node.numOfTargets > asgardTargetsBuf) :
    k.asgardTargetWrite h notCopied clusterId text =
      (h.asgardTargetWrite (k.parseTargets clusterId text).1,
        match (k.parseTargets clusterId text).2 with
        | some e => -e.code
        | none => text.length) := by
  have hlength := length_targetTokens_le text
  rw [asgardTargetWrite, if_neg (not_not.mpr hcopied), if_neg hroom]
  dsimp only
  rw [targetLoop_eq k _ _ (by dsimp only; omega)]
  dsimp only [parseTargets]
  cases (k.parseTuples .ip (toU32 (-1)) clusterId (targetTokens text)).2 with
  | none => rfl
  | some e => rfl

/-- **Rejected lists of targets.** A write that fails leaves targets, cluster id and counters as they were
exactly where it does no harm. -/
theorem rejected_unchanged_iff :
    k.RejectedUnchanged h notCopied clusterId text ↔ k.HarmlessText h notCopied clusterId text := by
  rw [RejectedUnchanged, HarmlessText]
  by_cases hcopied : notCopied = 0
  · by_cases hroom : h.node.numOfTargets > asgardTargetsBuf
    · rw [asgardTargetWrite, if_neg (not_not.mpr hcopied), if_pos hroom]
      exact iff_of_true (fun _ => .refl h) (.inr (.inl hroom))
    · rw [asgardTargetWrite_eq k h notCopied clusterId text hcopied hroom, or_iff_right (not_not.mpr hcopied),
        or_iff_right hroom, ← Host.asgardTargetWrite_same_iff]
      cases (k.parseTargets clusterId text).2 with
      | none =>
        refine iff_of_true (fun hneg => ?_) (.inl rfl)
        exact absurd hneg (Int.not_lt.mpr (Int.natCast_nonneg text.length))
      | some e =>
        have hcode := errno_code_pos e
        have hneg : -e.code < 0 := by omega
        simp only [hneg, true_imp_iff, reduceCtorEq, false_or]
  · rw [asgardTargetWrite, if_pos hcopied]
    exact iff_of_true (fun _ => .refl h) (.inl hcopied)

def readsTuple : Kernel where
  sscanfIp text := if text = "10.0.0.4".toList then some (10, 0, 0, 4) else none
  kstrtoint text :=
    if text = "17".toList then .ok 17
    else if text = "4".toList then .ok 4
    else .error .einval
  kstrtol _ := .error .einval
  localIp := some 0

/-- A device of cluster id 1 with the target 2. -/
def oneTarget : Host :=
  Host.asgardTargetWrite (.init (smallConfig 1 []) zeroUninit) [⟨false, 167772162, 2⟩]

/-- **A rejected list replaces the targets.** The second tuple has no address; the first is registered in
place of the target that was there. -/
theorem rejected_list_applied : ¬∀ (k : Kernel) (h : Host) (clusterId : Int) (text : List Char),
    k.RejectedUnchanged h 0 clusterId text := by
  intro hall
  have hsame := hall readsTuple oneTarget 0 "(10.0.0.4,02:00:00:00:00:04,17,4),(bad".toList (by decide)
  have htargets := congrArg (List.map TargetInfo.clusterId) hsame.targets
  exact absurd htargets (by decide)

end Kernel

end XlaneLkm
