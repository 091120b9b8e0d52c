import XlaneLkm.Proof.Membership

/-!
# Who is alive, inside and outside

Elections read `alive` in the table of targets, applications read the member state. Packets and ticks
write both; the end of a run and the timestamps of the leader channel write `alive` only.
-/

namespace XlaneLkm

open MachineInt
open Run (Meets meets_iff)
open Tally

namespace TargetInfo

theorem updateAliveness_alive_iff (t : TargetInfo) :
    t.updateAliveness.alive = true ↔ t.alive = true ∧ ¬t.timesOut := by
  unfold updateAliveness timesOut
  split_ifs with hwait hsilent
  · simp [hwait]
  · simp [not_not.mp hwait, hsilent]
  · simp [not_not.mp hwait, hsilent]

end TargetInfo

namespace Host

variable {h h' : Host} {e : HostEvent}

/-- A target is alive if and only if user space is told so. -/
def Agrees (h : Host) : Prop :=
  ∀ i t, h.node.sdev.targets[i]? = some t → (t.alive = true ↔ h.ci.memberState i = .alive)

/-- Stopping finds nobody alive, and a timestamp of the leader channel finds its target alive. -/
def keepsLiveness (h : Host) : HostEvent → Prop
  | .node .stop | .node .pmStop =>
    h.node.priv.state = .running → ∀ t ∈ h.node.sdev.targets, t.alive = false
  | .postTs _ ctype => ctype = 2 → h.node.sdev.curLeaderLid ≠ -1 →
    ∀ t ∈ h.node.sdev.targets[h.node.sdev.curLeaderLid.toNat]?, t.alive = true
  | _ => True

theorem Agrees.congr (hagrees : h.Agrees) (htargets : h'.node.sdev.targets = h.node.sdev.targets)
    (hstate : h'.ci.memberState = h.ci.memberState) : h'.Agrees := by
  intro i t ht
  rw [htargets] at ht
  rw [hstate]
  exact hagrees i t ht

theorem agrees_of_empty (hempty : h.node.sdev.targets = []) : h.Agrees := by
  intro i t ht
  rw [hempty] at ht
  cases ht

theorem agrees_registers (hmove : Registers h h') (hagrees : h.Agrees) : h'.Agrees := by
  cases hmove with
  | selfIp => exact hagrees
  | selfId => exact hagrees
  | join clusterId hroom =>
    intro i t ht
    rw [join_memberState hroom]
    have ht : (h.node.sdev.targets ++ [registerPeer clusterId])[i]? = some t := ht
    by_cases hi : i < h.node.numOfTargets
    · rw [List.getElem?_append_left hi] at ht
      rw [Function.update_of_ne hi.ne]
      exact hagrees i t ht
    · obtain ⟨hlt, -⟩ := List.getElem?_eq_some_iff.mp ht
      rw [List.length_append, List.length_singleton] at hlt
      obtain rfl : i = h.node.numOfTargets := by
        have : i < h.node.numOfTargets + 1 := hlt
        omega
      have hnew : registerPeer clusterId = t := by simpa [Node.numOfTargets,
        AsgardDevice.numOfTargets] using ht
      rw [Function.update_self, ← hnew]
      exact iff_of_false Bool.noConfusion MemberState.noConfusion

theorem agrees_rx (hagrees : h.Agrees) (hfits : h.Fits) (lid ts : Nat) :
    (h.step (.node (.rx lid ts))).Agrees := by
  have htargets : (h.step (.node (.rx lid ts))).node.sdev.targets = _ :=
    h.node.step_targets (.rx lid ts)
  have hci : (h.step (.node (.rx lid ts))).ci = h.published (.rx lid ts) := rfl
  simp only [Node.targetsAfter] at htargets
  by_cases hrx : lid < h.node.numOfTargets ∧ h.node.sdev.pmState = .emitting
  · rw [published, if_pos hrx] at hci
    rw [if_pos hrx.2] at htargets
    intro i t ht
    rw [htargets, List.getElem?_modify] at ht
    rw [hci, ClusterInfo.updateClusterMember_memberState (hfits.le hrx.1.le)]
    by_cases hi : lid = i
    · subst hi
      obtain ⟨before, -, rfl⟩ := Option.map_eq_some_iff.mp ht
      rw [Function.update_self, if_pos rfl]
      exact iff_of_true rfl rfl
    · rw [Function.update_of_ne (Ne.symm hi)]
      obtain ⟨before, hbefore, rfl⟩ := Option.map_eq_some_iff.mp ht
      rw [if_neg hi]
      exact hagrees i before hbefore
  · rw [published, if_neg hrx] at hci
    refine hagrees.congr (htargets.trans ?_) (congrArg ClusterInfo.memberState hci)
    split
    case isTrue hpm =>
      exact List.modify_eq_self (Nat.not_lt.mp fun hlid => hrx ⟨hlid, hpm⟩)
    case isFalse => rfl

theorem agrees_tick (hagrees : h.Agrees) (hfits : h.Fits) : (h.step (.node .tick)).Agrees := by
  have htargets : (h.step (.node .tick)).node.sdev.targets = _ := h.node.step_targets .tick
  simp only [Node.targetsAfter] at htargets
  by_cases hpm : h.node.sdev.pmState = .emitting
  · have hci : (h.step (.node .tick)).ci = _ := published_tick hfits hpm
    rw [if_pos hpm] at htargets
    intro i t ht
    rw [htargets, List.getElem?_map] at ht
    obtain ⟨before, hbefore, rfl⟩ := Option.map_eq_some_iff.mp ht
    have htimes : h.timesOutAt i ↔ before.timesOut := by simp [timesOutAt, hbefore]
    rw [hci, TargetInfo.updateAliveness_alive_iff, hagrees i before hbefore, ← htimes]
    simp only [relabel]
    split
    case isTrue hout => exact iff_of_false (fun hin => hin.2 hout) MemberState.noConfusion
    case isFalse hin => exact and_iff_left hin
  · rw [if_neg hpm] at htargets
    have hci : (h.step (.node .tick)).ci = h.ci := if_neg hpm
    exact hagrees.congr htargets (congrArg ClusterInfo.memberState hci)

/-- The table goes dead, the members stay as they were. -/
theorem agrees_stop_iff (hagrees : h.Agrees) {e : Event}
    (he : h.node.targetsAfter e = if h.node.priv.state = .running then
      h.node.sdev.targets.map TargetInfo.markDead else h.node.sdev.targets)
    (hci : h.published e = h.ci) : (h.step (.node e)).Agrees ↔
      (h.node.priv.state = .running → ∀ t ∈ h.node.sdev.targets, t.alive = false) := by
  have htargets : (h.step (.node e)).node.sdev.targets = _ := (h.node.step_targets e).trans he
  have hstate : (h.step (.node e)).ci.memberState = h.ci.memberState :=
    congrArg ClusterInfo.memberState hci
  by_cases hrun : h.node.priv.state = .running
  · rw [if_pos hrun] at htargets
    constructor
    · intro hafter _ t ht
      obtain ⟨i, hi⟩ := List.mem_iff_getElem?.mp ht
      have hmarked := hafter i t.markDead (by rw [htargets, List.getElem?_map, hi]; rfl)
      rw [hstate, ← hagrees i t hi] at hmarked
      exact Bool.eq_false_iff.mpr fun halive => Bool.noConfusion (hmarked.mpr halive)
    · intro hdead i t ht
      rw [htargets, List.getElem?_map] at ht
      obtain ⟨before, hbefore, rfl⟩ := Option.map_eq_some_iff.mp ht
      rw [hstate, ← hagrees i before hbefore, hdead hrun before (List.mem_of_getElem? hbefore)]
      rfl
  · rw [if_neg hrun] at htargets
    exact iff_of_true (hagrees.congr htargets hstate) fun h => absurd h hrun

theorem agrees_postTs_iff (hagrees : h.Agrees) (cycles : Nat) (ctype : Int) :
    (h.step (.postTs cycles ctype)).Agrees ↔ h.keepsLiveness (.postTs cycles ctype) := by
  simp only [step, asgardPostTs]
  by_cases hleader : ctype = 2 ∧ h.node.sdev.curLeaderLid ≠ -1
  · rw [if_pos hleader]
    constructor
    · intro hafter _ _ t ht
      have hmarked := hafter h.node.sdev.curLeaderLid.toNat (t.received cycles)
        (by rw [List.getElem?_modify, ht]; simp)
      exact (hagrees _ t ht).mpr (hmarked.mp rfl)
    · intro halive i t ht
      rw [List.getElem?_modify] at ht
      obtain ⟨before, hbefore, rfl⟩ := Option.map_eq_some_iff.mp ht
      rw [← hagrees i before hbefore]
      split
      case isTrue hi =>
        subst hi
        exact iff_of_true rfl (halive hleader.1 hleader.2 before hbefore)
      case isFalse => rfl
  · rw [if_neg hleader]
    exact iff_of_true hagrees fun hctype hlid => absurd ⟨hctype, hlid⟩ hleader

theorem agrees_step_iff (hagrees : h.Agrees) (hfits : h.Fits) (e : HostEvent) :
    (h.step e).Agrees ↔ h.keepsLiveness e := by
  cases e with
  | node e =>
    cases e with
    | rx lid ts => exact iff_of_true (agrees_rx hagrees hfits lid ts) trivial
    | tick => exact iff_of_true (agrees_tick hagrees hfits) trivial
    | stop => exact agrees_stop_iff hagrees rfl rfl
    | pmStop => exact agrees_stop_iff hagrees rfl rfl
    | _ => exact iff_of_true (hagrees.congr (h.node.step_targets _) rfl) trivial
  | advertise clusterId ip mac =>
    refine iff_of_true ?_ trivial
    exact Run.preserved_of_moves (I := Agrees) (fun _ _ => agrees_registers)
      (advertise_registers h clusterId ip mac) hagrees
  | targetWrite entries =>
    refine iff_of_true ?_ trivial
    exact Run.preserved_of_moves (I := Agrees) (fun _ _ => agrees_registers)
      (targetWrite_registers h entries) (agrees_of_empty rfl)
  | postTs cycles ctype => exact agrees_postTs_iff hagrees cycles ctype

/-- **Internal and published liveness.** They agree in every state of a run if and only if no run of the
protocol is stopped while a target is alive, and no timestamp of the leader channel comes for a leader
that is not. -/
theorem liveness_agrees_iff (c : Config) (u : Uninit) (events : List HostEvent) :
    Meets step (fun h e => (h.step e).Agrees) (init c u) events ↔
      Meets step keepsLiveness (init c u) events :=
  meets_iff step (I := fun h => h.Agrees ∧ h.Fits)
    (fun _ e hh => agrees_step_iff hh.1 hh.2 e)
    (fun _ e hh hkeeps => ⟨(agrees_step_iff hh.1 hh.2 e).mpr hkeeps, fits_step hh.2 e⟩)
    ⟨agrees_of_empty rfl, Nat.zero_le _⟩ events

/-- Two peers turn up, which starts the protocol, and it is stopped again. -/
def stopped : List HostEvent :=
  [.targetWrite [⟨false, 1, 2⟩, ⟨false, 2, 3⟩], .node .pmStart, .node (.rx 0 1), .node (.rx 1 2),
    .node .stop]

theorem liveness_splits :
    ¬ ∀ (c : Config) (u : Uninit) (events : List HostEvent), (run (init c u) events).Agrees := by
  intro h
  have hdead : (run (init (smallConfig 1 []) zeroUninit) stopped).node.sdev.targets[0]?.map
      TargetInfo.alive = some false := by decide +kernel
  obtain ⟨t, ht, hdead⟩ := Option.map_eq_some_iff.mp hdead
  have halive := (h (smallConfig 1 []) zeroUninit stopped 0 t ht).mpr (by decide +kernel)
  cases hdead.symm.trans halive

end Host

end XlaneLkm
