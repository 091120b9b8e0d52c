import XlaneLkm.Library.Tally
import XlaneLkm.Proof.Targets

/-!
# What user space sees of the membership

`cluster_info` counts the members by state, and repeats what the table of targets says of them. Each is
kept up to date by increments at several places: the counters miss every member that drops out or never
turns up, the table misses two of the places that write to `alive`.
-/

namespace XlaneLkm

open MachineInt
open Run (Meets meets_iff)
open Tally

namespace ClusterInfo

variable {ci : ClusterInfo} {lid : Nat} {state : MemberState}

theorem updateClusterMember_same (h : ci.memberState lid = state) :
    ci.updateClusterMember lid state = ci := by
  simp [updateClusterMember, h]

theorem updateClusterMember_memberState (hlid : lid ≤ maxClusterMember) (state : MemberState) :
    (ci.updateClusterMember lid state).memberState = Function.update ci.memberState lid state := by
  by_cases hsame : ci.memberState lid = state
  · rw [updateClusterMember_same hsame, ← hsame, Function.update_eq_self]
  · simp only [updateClusterMember, if_neg (Nat.not_lt.mpr hlid), if_pos (Ne.symm hsame)]
    split_ifs <;> rfl

theorem updateClusterMember_alive (hlid : lid ≤ maxClusterMember) (h : ci.memberState lid ≠ .alive) :
    ci.updateClusterMember lid .alive =
      { ci with
        deadClusterMember := ci.deadClusterMember - if ci.memberState lid = .dead then 1 else 0
        activeClusterMember := ci.activeClusterMember + 1
        clusterJoins := ci.clusterJoins + 1
        memberState := Function.update ci.memberState lid .alive } := by
  simp only [updateClusterMember, if_neg (Nat.not_lt.mpr hlid), if_pos (Ne.symm h)]
  cases hstate : ci.memberState lid with
  | dead => simp
  | alive => exact absurd hstate h
  | neverSeen => simp

theorem updateClusterMember_dead (hlid : lid ≤ maxClusterMember) :
    ci.updateClusterMember lid .dead =
      { ci with
        deadClusterMember := ci.deadClusterMember + if ci.memberState lid = .alive then 1 else 0
        clusterDropouts := ci.clusterDropouts + if ci.memberState lid = .alive then 1 else 0
        memberState := Function.update ci.memberState lid .dead } := by
  cases hstate : ci.memberState lid with
  | dead =>
    have hself : Function.update ci.memberState lid .dead = ci.memberState := by
      rw [← hstate, Function.update_eq_self]
    rw [updateClusterMember_same hstate, hself]
    simp
  | alive => simp [updateClusterMember, hstate, Nat.not_lt.mpr hlid]
  | neverSeen => simp [updateClusterMember, hstate, Nat.not_lt.mpr hlid]

end ClusterInfo

namespace Host

variable {h h' : Host} {e : HostEvent}

/-- All local ids are within `member_info`. -/
def Fits (h : Host) : Prop := h.node.numOfTargets ≤ maxRemoteSources

theorem Fits.le {lid : Nat} (hfits : h.Fits) (hlid : lid ≤ h.node.numOfTargets) :
    lid ≤ maxClusterMember :=
  (hlid.trans hfits).trans (by decide)

/-! ### Registration -/

/-- A peer is registered at the next position. -/
def join (h : Host) (clusterId : Int) : Host where
  node := { h.node with sdev.targets := h.node.sdev.targets ++ [registerPeer clusterId] }
  ci := h.ci.addClusterMember clusterId h.node.numOfTargets .neverSeen

inductive Registers : Host → Host → Prop where
  | selfIp (h : Host) (ip : UInt32) : Registers h { h with node.sdev.selfIp := ip }
  | selfId (h : Host) (clusterId : Int) : Registers h
      { node := { h.node with sdev.clusterId := u32 clusterId }
        ci := { h.ci with clusterSelfId := clusterId } }
  | join (h : Host) (clusterId : Int) (hroom : h.node.numOfTargets < maxRemoteSources) :
      Registers h (h.join clusterId)

abbrev RegistersAll : Host → Host → Prop := Relation.ReflTransGen Registers

theorem registerPeerByIp_registers (h : Host) (ip : UInt32) (clusterId : Int) :
    RegistersAll h (h.registerPeerByIp ip clusterId).1 := by
  unfold registerPeerByIp
  split_ifs with hself hfull
  · exact .single (.selfIp h ip)
  · exact .refl
  · exact .single (.join h clusterId (Nat.not_le.mp hfull))

theorem advertise_registers (h : Host) (clusterId : Int) (ip : UInt32) (mac : Bool) :
    RegistersAll h (h.advertise clusterId ip mac) := by
  unfold advertise
  split_ifs
  · exact .refl
  · exact .refl
  · exact .refl
  · exact registerPeerByIp_registers h ip clusterId

theorem targetWrite_registers (h : Host) (entries : List TargetEntry) :
    RegistersAll { h with node.sdev.targets := [] } (h.asgardTargetWrite entries) := by
  refine Run.moves_foldl (fun _ => True) writeTarget (fun _ _ _ => trivial) (fun m entry _ => ?_)
    entries _ trivial
  unfold writeTarget
  split
  · exact .single (.selfId m entry.clusterId)
  · exact registerPeerByIp_registers m entry.ip entry.clusterId

theorem join_numOfTargets (h : Host) (clusterId : Int) :
    (h.join clusterId).node.numOfTargets = h.node.numOfTargets + 1 := by
  simp [join, Node.numOfTargets, AsgardDevice.numOfTargets]

theorem join_ci (hroom : h.node.numOfTargets < maxRemoteSources) (clusterId : Int) :
    (h.join clusterId).ci =
      { h.ci with
        memberState := Function.update h.ci.memberState h.node.numOfTargets .neverSeen
        globalClusterId := Function.update h.ci.globalClusterId h.node.numOfTargets clusterId
        overallClusterMember := h.ci.overallClusterMember + 1 } :=
  if_neg (Nat.not_lt.mpr (hroom.le.trans (by decide)))

theorem join_memberState (hroom : h.node.numOfTargets < maxRemoteSources) (clusterId : Int) :
    (h.join clusterId).ci.memberState =
      Function.update h.ci.memberState h.node.numOfTargets .neverSeen := by
  rw [join_ci hroom]

theorem fits_registers (hmove : Registers h h') (hfits : h.Fits) : h'.Fits := by
  cases hmove with
  | selfIp => exact hfits
  | selfId => exact hfits
  | join clusterId hroom =>
    rw [Fits, join_numOfTargets]
    exact hroom

/-! ### The tick -/

theorem lt_of_timesOutAt {i : Nat} (htimes : h.timesOutAt i) : i < h.node.numOfTargets := by
  obtain ⟨t, ht, -⟩ := htimes
  exact (List.getElem?_eq_some_iff.mp ht).1

theorem checkMember_foldl (hfits : h.Fits) (k : Nat) (hk : k ≤ h.node.numOfTargets) :
    (List.range k).foldl h.checkMember h.ci =
      { h.ci with
        deadClusterMember :=
          h.ci.deadClusterMember + tallyIn h.timesOutAt h.ci.memberState k .alive
        clusterDropouts :=
          h.ci.clusterDropouts + tallyIn h.timesOutAt h.ci.memberState k .alive
        memberState := relabel (fun i => i < k ∧ h.timesOutAt i) .dead h.ci.memberState } := by
  induction k with
  | zero =>
    rw [relabel_none fun i hi => Nat.not_lt_zero i hi.1]
    simp [tallyIn]
  | succ k ih =>
    rw [List.range_succ, List.foldl_append, ih (by omega), relabel_below_succ, tallyIn_succ]
    simp only [List.foldl_cons, List.foldl_nil, checkMember]
    by_cases htimes : h.timesOutAt k
    · rw [if_pos htimes, if_pos htimes, ClusterInfo.updateClusterMember_dead (hfits.le (by omega))]
      have hstate : relabel (fun i => i < k ∧ h.timesOutAt i) .dead h.ci.memberState k =
          h.ci.memberState k := if_neg fun hlt => lt_irrefl k hlt.1
      simp only [hstate, htimes, true_and, Nat.cast_add, Nat.cast_ite, Nat.cast_one, Nat.cast_zero,
        add_assoc]
    · rw [if_neg htimes, if_neg htimes, if_neg fun htimes' => htimes htimes'.1, add_zero]

theorem published_tick (hfits : h.Fits) (hpm : h.node.sdev.pmState = .emitting) :
    h.published .tick =
      { h.ci with
        deadClusterMember := h.ci.deadClusterMember +
          tallyIn h.timesOutAt h.ci.memberState h.node.numOfTargets .alive
        clusterDropouts := h.ci.clusterDropouts +
          tallyIn h.timesOutAt h.ci.memberState h.node.numOfTargets .alive
        memberState := relabel h.timesOutAt .dead h.ci.memberState } := by
  have hbelow : relabel (fun i => i < h.node.numOfTargets ∧ h.timesOutAt i) .dead h.ci.memberState =
      relabel h.timesOutAt .dead h.ci.memberState := by
    funext i
    simp only [relabel, and_iff_right_of_imp lt_of_timesOutAt]
  rw [published, if_pos hpm, checkMember_foldl hfits _ le_rfl, hbelow]

/-! ### The counters -/

/-- The counters tell how many members are registered, and how many of them are in which state. -/
structure Exact (h : Host) : Prop where
  dead : h.ci.deadClusterMember = tally h.ci.memberState h.node.numOfTargets .dead
  active : h.ci.activeClusterMember = tally h.ci.memberState h.node.numOfTargets .alive
  overall : h.ci.overallClusterMember - 1 = h.node.numOfTargets

/-- No tick finds a member dead that was not, and the target list is written before it has members. -/
def keepsCounts (h : Host) : HostEvent → Prop
  | .node .tick => h.node.sdev.pmState = .emitting →
    ∀ i < h.node.numOfTargets, h.timesOutAt i → h.ci.memberState i = .dead
  | .targetWrite _ => h.node.numOfTargets = 0
  | _ => True

theorem tally_states (s : Nat → MemberState) (n : Nat) :
    tally s n .dead + tally s n .alive + tally s n .neverSeen = n := by
  induction n with
  | zero => rfl
  | succ n ih =>
    rw [tally_succ, tally_succ, tally_succ]
    cases s n <;> simp <;> omega

theorem Exact.congr (hexact : h.Exact) (hci : h'.ci = h.ci)
    (hnum : h'.node.numOfTargets = h.node.numOfTargets) : h'.Exact := by
  refine ⟨?_, ?_, ?_⟩ <;> rw [hci, hnum]
  exacts [hexact.dead, hexact.active, hexact.overall]

theorem exact_registers (hmove : Registers h h') (hexact : h.Exact) : h'.Exact := by
  cases hmove with
  | selfIp => exact hexact.congr rfl rfl
  | selfId => exact ⟨hexact.dead, hexact.active, hexact.overall⟩
  | join clusterId hroom =>
    have hcount : ∀ a ≠ MemberState.neverSeen, tally (h.join clusterId).ci.memberState
        (h.node.numOfTargets + 1) a = tally h.ci.memberState h.node.numOfTargets a := by
      intro a ha
      rw [join_memberState hroom, tally_succ, tally_update_of_le le_rfl, Function.update_self,
        if_neg (Ne.symm ha), add_zero]
    refine ⟨?_, ?_, ?_⟩
    · rw [join_numOfTargets, hcount _ (by decide), join_ci hroom]
      exact hexact.dead
    · rw [join_numOfTargets, hcount _ (by decide), join_ci hroom]
      exact hexact.active
    · have := hexact.overall
      rw [join_numOfTargets, join_ci hroom]
      push_cast
      omega

theorem overall_registers (hmove : Registers h h') {k : Int}
    (hcount : h.ci.overallClusterMember - h.node.numOfTargets = k) :
    h'.ci.overallClusterMember - h'.node.numOfTargets = k := by
  cases hmove with
  | selfIp => exact hcount
  | selfId => exact hcount
  | join clusterId hroom =>
    rw [join_numOfTargets, join_ci hroom]
    push_cast
    omega

/-- The overall count is never reset. -/
theorem targetWrite_exact_iff (hexact : h.Exact) (entries : List TargetEntry) :
    (h.asgardTargetWrite entries).Exact ↔ h.node.numOfTargets = 0 := by
  have hmoves := targetWrite_registers h entries
  have hoverall := hexact.overall
  constructor
  · intro hafter
    have hcount := Run.preserved_of_moves
      (I := fun m => m.ci.overallClusterMember - m.node.numOfTargets = h.ci.overallClusterMember)
      (fun _ _ hmove hm => overall_registers hmove hm) hmoves
      (by simp [Node.numOfTargets, AsgardDevice.numOfTargets])
    have := hafter.overall
    omega
  · intro hnone
    have hstart : ({ h with node.sdev.targets := [] } : Host).Exact := hexact.congr rfl hnone.symm
    exact Run.preserved_of_moves (I := Exact) (fun _ _ => exact_registers) hmoves hstart

theorem exact_rx (hexact : h.Exact) (hfits : h.Fits) (lid ts : Nat) :
    (h.step (.node (.rx lid ts))).Exact := by
  have hnum : (h.step (.node (.rx lid ts))).node.numOfTargets = h.node.numOfTargets :=
    h.node.step_numOfTargets (.rx lid ts)
  by_cases hjoins : (lid < h.node.numOfTargets ∧ h.node.sdev.pmState = .emitting) ∧
      h.ci.memberState lid ≠ .alive
  · obtain ⟨hrx, hstate⟩ := hjoins
    have hci : (h.step (.node (.rx lid ts))).ci = h.ci.updateClusterMember lid .alive := if_pos hrx
    have hdead := tally_update (s := h.ci.memberState) (a := .dead) hrx.1 .alive
    have halive := tally_update (s := h.ci.memberState) (a := .alive) hrx.1 .alive
    have hdeadCount := hexact.dead
    have haliveCount := hexact.active
    rw [ClusterInfo.updateClusterMember_alive (hfits.le hrx.1.le) hstate] at hci
    refine ⟨?_, ?_, ?_⟩ <;> rw [hci, hnum] <;> dsimp only
    · rw [if_neg (show ¬MemberState.alive = .dead by decide), add_zero] at hdead
      split_ifs at hdead ⊢ <;> omega
    · rw [if_neg hstate, if_pos rfl, add_zero] at halive
      omega
    · exact hexact.overall
  · refine hexact.congr ?_ hnum
    change h.published (.rx lid ts) = h.ci
    rw [published]
    split
    case isTrue hrx =>
      by_cases hstate : h.ci.memberState lid = .alive
      · exact ClusterInfo.updateClusterMember_same hstate
      · exact absurd ⟨hrx, hstate⟩ hjoins
    case isFalse => rfl

/-- A tick takes every member it finds dead out of the count it was in, but the counters only record
those that were alive, and as dead only. -/
theorem exact_tick_iff (hexact : h.Exact) (hfits : h.Fits) :
    (h.step (.node .tick)).Exact ↔ h.keepsCounts (.node .tick) := by
  have hnum : (h.step (.node .tick)).node.numOfTargets = h.node.numOfTargets :=
    h.node.step_numOfTargets .tick
  by_cases hpm : h.node.sdev.pmState = .emitting
  · have hci : (h.step (.node .tick)).ci = _ := published_tick hfits hpm
    have halive := tally_relabel_of_ne (T := h.timesOutAt) (s := h.ci.memberState)
      (n := h.node.numOfTargets) (b := MemberState.dead) (a := .alive) (by decide)
    have hnever := tally_relabel_of_ne (T := h.timesOutAt) (s := h.ci.memberState)
      (n := h.node.numOfTargets) (b := MemberState.dead) (a := .neverSeen) (by decide)
    have hbefore := tally_states h.ci.memberState h.node.numOfTargets
    have hafter := tally_states (relabel h.timesOutAt .dead h.ci.memberState) h.node.numOfTargets
    have hdeadCount := hexact.dead
    have haliveCount := hexact.active
    have hnone : h.keepsCounts (.node .tick) ↔
        tallyIn h.timesOutAt h.ci.memberState h.node.numOfTargets .alive = 0 ∧
          tallyIn h.timesOutAt h.ci.memberState h.node.numOfTargets .neverSeen = 0 := by
      rw [tallyIn_eq_zero, tallyIn_eq_zero]
      constructor
      · intro hkeeps
        refine ⟨fun i hi htimes heq => ?_, fun i hi htimes heq => ?_⟩
        · cases heq.symm.trans (hkeeps hpm i hi htimes)
        · cases heq.symm.trans (hkeeps hpm i hi htimes)
      · rintro ⟨halive, hnever⟩ - i hi htimes
        cases hstate : h.ci.memberState i with
        | dead => rfl
        | alive => exact absurd hstate (halive i hi htimes)
        | neverSeen => exact absurd hstate (hnever i hi htimes)
    rw [hnone]
    constructor
    · rintro ⟨hdead', halive', -⟩
      rw [hci, hnum] at hdead' halive'
      dsimp only at hdead' halive'
      omega
    · rintro ⟨hnoAlive, hnoNever⟩
      refine ⟨?_, ?_, ?_⟩ <;> rw [hci, hnum] <;> dsimp only
      · omega
      · omega
      · exact hexact.overall
  · have hci : (h.step (.node .tick)).ci = h.ci := if_neg hpm
    exact iff_of_true (hexact.congr hci hnum) fun h => absurd h hpm

theorem exact_step_iff (hexact : h.Exact) (hfits : h.Fits) (e : HostEvent) :
    (h.step e).Exact ↔ h.keepsCounts e := by
  cases e with
  | node e =>
    cases e with
    | rx lid ts => exact iff_of_true (exact_rx hexact hfits lid ts) trivial
    | tick => exact exact_tick_iff hexact hfits
    | _ => exact iff_of_true (hexact.congr rfl (h.node.step_numOfTargets _)) trivial
  | advertise clusterId ip mac =>
    refine iff_of_true ?_ trivial
    exact Run.preserved_of_moves (I := Exact) (fun _ _ => exact_registers)
      (advertise_registers h clusterId ip mac) hexact
  | targetWrite entries => exact targetWrite_exact_iff hexact entries
  | postTs cycles ctype =>
    refine iff_of_true (hexact.congr ?_ ?_) trivial
    · simp only [step, asgardPostTs]
      split <;> rfl
    · simp only [step, asgardPostTs]
      split
      · exact List.length_modify ..
      · rfl

theorem fits_step (hfits : h.Fits) (e : HostEvent) : (h.step e).Fits := by
  cases e with
  | node e =>
    rw [Fits, show (h.step (.node e)).node.numOfTargets = _ from h.node.step_numOfTargets e]
    exact hfits
  | advertise clusterId ip mac =>
    exact Run.preserved_of_moves (I := Fits) (fun _ _ => fits_registers)
      (advertise_registers h clusterId ip mac) hfits
  | targetWrite entries =>
    exact Run.preserved_of_moves (I := Fits) (fun _ _ => fits_registers)
      (targetWrite_registers h entries) (Nat.zero_le _)
  | postTs cycles ctype =>
    simp only [step, asgardPostTs]
    split
    · exact (List.length_modify ..).trans_le hfits
    · exact hfits

/-- **The counters.** They are exact in every state of a run if and only if no tick finds a member dead
that was alive or never seen, and the target list is not written again. -/
theorem counters_exact_iff (c : Config) (u : Uninit) (events : List HostEvent) :
    Meets step (fun h e => (h.step e).Exact) (init c u) events ↔
      Meets step keepsCounts (init c u) events :=
  meets_iff step (I := fun h => h.Exact ∧ h.Fits)
    (fun _ e hh => exact_step_iff hh.1 hh.2 e)
    (fun _ e hh hkeeps => ⟨(exact_step_iff hh.1 hh.2 e).mpr hkeeps, fits_step hh.2 e⟩)
    ⟨⟨rfl, rfl, rfl⟩, Nat.zero_le _⟩ events

/-- A peer that has turned up falls silent until it is found dead. -/
def dropOut : List HostEvent :=
  [.targetWrite [⟨false, 1, 2⟩], .node .pmStart, .node (.rx 0 1)] ++
    List.replicate 14 (.node .tick)

theorem counters_miss_dropout :
    ¬ ∀ (c : Config) (u : Uninit) (events : List HostEvent), (run (init c u) events).Exact := by
  intro h
  have hactive := (h (smallConfig 1 []) zeroUninit dropOut).active
  revert hactive
  decide +kernel

end Host

end XlaneLkm
