import XlaneLkm.PmLoop
import XlaneLkm.Proof.FailureDetector

/-!
# The pacemaker in time

As long as the loop runs and its rounds follow each other closely enough, heartbeats go out at the pace
that is configured.
-/

namespace XlaneLkm

open MachineInt

namespace WireNode

variable {n m n' : WireNode}

/-! ### What is left alone -/

/-- Nothing that is to be fired is held back, and the targets are as they were. -/
structure Leaves (n n' : WireNode) : Prop where
  targets : n'.node.sdev.targets = n.node.sdev.targets
  devAddr : n'.devAddr = n.devAddr
  fire : ∀ i, n.fire i = true → n'.fire i = true

theorem Leaves.refl (n : WireNode) : Leaves n n := ⟨rfl, rfl, fun _ => id⟩

theorem Leaves.trans (h : Leaves n m) (h' : Leaves m n') : Leaves n n' where
  targets := h'.targets.trans h.targets
  devAddr := h'.devAddr.trans h.devAddr
  fire i hi := h'.fire i (h.fire i hi)

theorem leaves_foldl {β : Type*} {f : WireNode → β → WireNode} (h : ∀ m b, Leaves m (f m b))
    (l : List β) (n : WireNode) : Leaves n (l.foldl f n) := by
  induction l generalizing n with
  | nil => exact Leaves.refl n
  | cons b l ih => exact (h n b).trans (ih (f n b))

theorem setFire_fire (n : WireNode) (lid : Nat) {i : Nat} (h : n.fire i = true) :
    (n.setFire lid).fire i = true := by
  rcases eq_or_ne i lid with rfl | hne
  · exact Function.update_self i true n.fire
  · exact (Function.update_of_ne hne true n.fire).trans h

theorem transmit_leaves (retrans : Bool) (n : WireNode) (x : Dest × Option ConRecord) :
    Leaves n (n.transmit retrans x) := by
  have hfire : ∀ lid f, Leaves n ((n.updatePktData lid f).setFire lid) := fun lid f =>
    ⟨rfl, rfl, fun i hi => setFire_fire (n.updatePktData lid f) lid hi⟩
  unfold transmit
  split
  · split
    · exact ⟨rfl, rfl, fun _ => id⟩
    · exact ⟨rfl, rfl, fun _ => id⟩
    · exact hfire _ _
    · exact hfire _ _
    · exact hfire _ _
    · exact ⟨rfl, rfl, fun _ => id⟩
  · exact ⟨rfl, rfl, fun _ => id⟩
  · exact Leaves.refl n

/-- Beside the step of the node, going on only writes what it has sent. -/
theorem goOn_writes (n : WireNode) (e : Event) (before node : Node) :
    Leaves { n with node := node } (n.goOn e before node) := by
  have hevents : Leaves { n with node := node } { n with
      node := node
      events := n.events ++ [e] } := ⟨rfl, rfl, fun _ => id⟩
  exact hevents.trans (leaves_foldl (transmit_leaves _) _ _)

theorem goOn_leaves (n : WireNode) (e : Event) (before : Node) {node : Node}
    (h : node.sdev.targets = n.node.sdev.targets) : Leaves n (n.goOn e before node) := by
  have hnode : Leaves n { n with node := node } := ⟨h, rfl, fun _ => id⟩
  exact hnode.trans (goOn_writes n e before node)

theorem act_targets (n : WireNode) (e : Event) :
    (n.act e).node.sdev.targets = n.node.targetsAfter e :=
  (goOn_writes n e n.node (n.node.step e)).targets.trans (Node.step_targets n.node e)

theorem emitHb_leaves (n : WireNode) (i : Nat) : Leaves n (n.emitHb i) := ⟨rfl, rfl, fun _ => id⟩

theorem preHb_leaves (node : Node) (pings : Nat → Option PpRecord) (n : WireNode) (i : Nat) :
    Leaves n (preHb node pings n i) := ⟨rfl, rfl, fun _ => id⟩

theorem emitAsyncUnicast_leaves (n : WireNode) (i : Nat) : Leaves n (n.emitAsyncUnicast i) := by
  unfold emitAsyncUnicast
  split
  · dsimp only
    split
    · exact ⟨rfl, rfl, fun _ => id⟩
    · exact ⟨rfl, rfl, fun _ => id⟩
  · exact Leaves.refl n

theorem emitAsyncMulticastPkt_leaves (n : WireNode) : Leaves n n.emitAsyncMulticastPkt := by
  unfold emitAsyncMulticastPkt
  split
  · dsimp only
    split
    · exact ⟨rfl, rfl, fun _ => id⟩
    · exact ⟨rfl, rfl, fun _ => id⟩
  · exact Leaves.refl n

theorem emitAsyncPkts_leaves (n : WireNode) : Leaves n n.emitAsyncPkts := by
  unfold emitAsyncPkts
  split_ifs
  · exact Leaves.refl n
  · exact emitAsyncMulticastPkt_leaves n
  · exact leaves_foldl emitAsyncUnicast_leaves _ n

theorem setupPpMsg_leaves (n : WireNode) (j lid : Nat) (r : PpRecord) :
    Leaves n (n.setupPpMsg j lid r) := by
  unfold setupPpMsg
  split
  · exact ⟨rfl, rfl, fun _ => id⟩
  · exact Leaves.refl n

theorem postPayload_leaves (work : PktWorkData) (n : WireNode) (call : PostPayload) :
    Leaves n (n.postPayload work call) := by
  unfold postPayload
  split
  · refine goOn_leaves n _ _ ?_
    rw [Node.consensusPostPayload_targets, Node.noteVote_sdev]
  · exact Leaves.refl n

theorem pktProcessHandler_leaves (n : WireNode) (k : Nat) : Leaves n (n.pktProcessHandler k) := by
  unfold pktProcessHandler
  split
  · exact Leaves.refl n
  · rename_i work _
    have hstart : Leaves n { n with asgardWq := n.asgardWq.eraseIdx k } := ⟨rfl, rfl, fun _ => id⟩
    exact hstart.trans (leaves_foldl (postPayload_leaves work) _ _)

theorem tick_leaves (n : WireNode) (pings : Nat → Option PpRecord)
    (hpm : n.node.sdev.pmState = .emitting) :
    Leaves { n with node := n.node.tick } (n.tick pings) := by
  have hloops : Leaves n ((List.range n.node.numOfTargets).foldl (preHb n.node.heartbeat pings)
      ((List.range n.node.numOfTargets).foldl emitHb n)) :=
    (leaves_foldl emitHb_leaves _ n).trans (leaves_foldl (preHb_leaves _ pings) _ _)
  have hon := goOn_writes ((List.range n.node.numOfTargets).foldl (preHb n.node.heartbeat pings)
    ((List.range n.node.numOfTargets).foldl emitHb n)) .tick n.node.heartbeat n.node.tick
  unfold tick
  rw [if_neg (not_not.mpr hpm)]
  exact ⟨hon.targets, hon.devAddr.trans hloops.devAddr, fun i hi => hon.fire i (hloops.fire i hi)⟩

/-! ### What is seen of a target -/

theorem tick_target (n : WireNode) (pings : Nat → Option PpRecord)
    (hpm : n.node.sdev.pmState = .emitting) (lid : Nat) :
    (n.tick pings).node.sdev.targets[lid]? = n.node.sdev.targets[lid]?.map (·.run [.tick]) := by
  have htick := Node.step_targets n.node .tick
  rw [Node.targetsAfter, if_pos hpm] at htick
  rw [(n.tick_leaves pings hpm).targets]
  refine (congrArg (·[lid]?) htick).trans ?_
  rw [List.getElem?_map]
  rfl

def heard (n : WireNode) (lid : Nat) : StationMove → List TargetEvent
  | .post frame _ _ postTs =>
    match n.getClusterIdsByMac frame.srcMac with
    | some (remoteLid, _) =>
      if n.node.sdev.pmState = .emitting ∧ remoteLid = lid then [.received postTs] else []
    | none => []
  | _ => []

theorem asgardPostPayload_writes (n : WireNode) (frame : Frame) (behind : Nat → UInt8)
    (cqeBcnt : UInt32) (postTs : Nat) {remoteLid : Nat} {rclusterId : Int}
    (hpm : n.node.sdev.pmState = .emitting)
    (hids : n.getClusterIdsByMac frame.srcMac = some (remoteLid, rclusterId)) :
    ∃ node, node.sdev.targets = n.node.sdev.targets.modify remoteLid (·.received postTs) ∧
      Leaves { n with node := node } (n.asgardPostPayload frame behind cqeBcnt postTs) := by
  have htargets := Node.checkWarmupState_targets { n.node with
    sdev.targets := n.node.sdev.targets.modify remoteLid (·.received postTs) }
  unfold asgardPostPayload
  rw [if_neg (not_not.mpr hpm), hids]
  dsimp only [TargetInfo.received] at htargets ⊢
  split
  case h_1 node heq =>
    rw [heq] at htargets
    exact ⟨node, htargets, goOn_writes n _ _ node⟩
  case h_2 node heq =>
    rw [heq] at htargets
    have hwrites := goOn_writes n (.rx remoteLid postTs) n.node node
    exact ⟨node, htargets, hwrites.targets, hwrites.devAddr, hwrites.fire⟩

theorem asgardPostPayload_dropped (n : WireNode) (frame : Frame) (behind : Nat → UInt8)
    (cqeBcnt : UInt32) (postTs : Nat)
    (h : n.node.sdev.pmState ≠ .emitting ∨ n.getClusterIdsByMac frame.srcMac = none) :
    n.asgardPostPayload frame behind cqeBcnt postTs = n := by
  unfold asgardPostPayload
  split
  · rfl
  case isFalse hpm => rw [h.resolve_left hpm]

/-- What the device is after a step of which a target is told `seen`. -/
structure Tells (lid : Nat) (seen : List TargetEvent) (n n' : WireNode) : Prop where
  target : n'.node.sdev.targets[lid]? = n.node.sdev.targets[lid]?.map (·.run seen)
  devAddr : n'.devAddr = n.devAddr
  fire : ∀ i, n.fire i = true → n'.fire i = true

theorem Leaves.tells (h : Leaves n n') (lid : Nat) : Tells lid [] n n' where
  target := by
    rw [h.targets, TargetInfo.map_run_nil]
  devAddr := h.devAddr
  fire := h.fire

theorem move_tells (n : WireNode) {move : StationMove} (hstop : move.isStop = false) (lid : Nat) :
    Tells lid (n.heard lid move) n (n.move move) := by
  have hleaves : Leaves n (n.move move) → n.heard lid move = [] →
      Tells lid (n.heard lid move) n (n.move move) := fun h hheard => hheard ▸ h.tells lid
  cases move with
  | act e =>
    refine hleaves ?_ rfl
    simp only [WireNode.move]
    split
    case isTrue hother =>
      refine goOn_leaves n e n.node ?_
      rw [Node.step_targets]
      cases e with
      | rx | handle => cases hother.1
      | tick | pmStart | pmStop => cases hother.2
      | stop => cases hstop
      | _ => rfl
    case isFalse => exact Leaves.refl n
  | pp j lid' r => exact hleaves (n.setupPpMsg_leaves j lid' r) rfl
  | handle k => exact hleaves (n.pktProcessHandler_leaves k) rfl
  | post frame behind cqeBcnt postTs =>
    cases hids : n.getClusterIdsByMac frame.srcMac with
    | none =>
      refine hleaves ?_ (by rw [heard, hids])
      rw [WireNode.move, asgardPostPayload_dropped n _ _ _ _ (.inr hids)]
      exact Leaves.refl n
    | some ids =>
      obtain ⟨remoteLid, rclusterId⟩ := ids
      by_cases hpm : n.node.sdev.pmState = .emitting
      case neg =>
        refine hleaves ?_ (by rw [heard, hids]; exact if_neg fun h => hpm h.1)
        rw [WireNode.move, asgardPostPayload_dropped n _ _ _ _ (.inl hpm)]
        exact Leaves.refl n
      case pos =>
        obtain ⟨node, htargets, hwrites⟩ :=
          asgardPostPayload_writes n frame behind cqeBcnt postTs hpm hids
        have hseen : (n.node.sdev.targets.modify remoteLid (·.received postTs))[lid]? =
            n.node.sdev.targets[lid]?.map
              (·.run (if remoteLid = lid then [.received postTs] else [])) := by
          rw [List.getElem?_modify]
          split
          · rfl
          · exact (id_map _).trans (TargetInfo.map_run_nil _).symm
        have hheard : n.heard lid (.post frame behind cqeBcnt postTs) =
            if remoteLid = lid then [.received postTs] else [] := by
          simp only [heard, hids, hpm, true_and]
        rw [hheard]
        exact ⟨(congrArg (·[lid]?) (hwrites.targets.trans htargets)).trans hseen, hwrites.devAddr,
          hwrites.fire⟩

theorem emitPktsNonScheduled_node (n : WireNode) : n.emitPktsNonScheduled.node = n.node := by
  have hone : ∀ (m : WireNode) i, (m.emitFired i).node = m.node := fun m i => by
    unfold emitFired
    split
    · rfl
    · rfl
  have hall : ∀ (l : List Nat) (m : WireNode), (l.foldl emitFired m).node = m.node := by
    intro l
    induction l with
    | nil => exact fun _ => rfl
    | cons i l ih => exact fun m => (ih (m.emitFired i)).trans (hone m i)
  unfold emitPktsNonScheduled
  split
  · rfl
  · exact hall _ n

end WireNode

namespace PmLoop

open Run (Meets outputs)
open TargetEvent (ticks)

variable {l : PmLoop} {e : PmEvent} {hbi δ curTime : Nat} {link : Nat → Bool}
  {pings : Nat → Option PpRecord}

/-! ### One round -/

/-- The loop runs: nothing stops it, and its rounds are at most `δ` cycles apart. -/
def Runs (δ : Nat) (l : PmLoop) : PmEvent → Prop
  | .round curTime _ _ => l.active = true ∧ l.station.node.sdev.pmState = .emitting ∧
      l.errors ≤ 1000 ∧ l.curTime ≤ curTime ∧ curTime ≤ l.curTime + δ ∧
      curTime < 18446744073709551616
  | .other move => move.isStop = false
  | .configure _ => True
  | .start => True
  | .enter _ => l.active = true
  | .stop => False

instance Runs.decidable (δ : Nat) (l : PmLoop) : (e : PmEvent) → Decidable (Runs δ l e)
  | .round .. => inferInstanceAs (Decidable (_ ∧ _ ∧ _ ∧ _ ∧ _ ∧ _))
  | .other _ => inferInstanceAs (Decidable (_ = _))
  | .configure _ => isTrue trivial
  | .start => isTrue trivial
  | .enter _ => inferInstanceAs (Decidable (_ = _))
  | .stop => isFalse id

theorem elapsed {prevTime curTime : Nat} (hle : prevTime ≤ curTime)
    (hlt : curTime < 18446744073709551616) : u64 ((curTime : ℤ) - prevTime) = curTime - prevTime := by
  have heq := u64_eq_toNat (x := (curTime : ℤ) - prevTime) (by omega) (by omega)
  omega

theorem scheduledTx_iff (hbi : Nat) {prevTime curTime : Nat} (hle : prevTime ≤ curTime)
    (hlt : curTime < 18446744073709551616) :
    scheduledTx prevTime curTime hbi = true ↔ prevTime + hbi ≤ curTime := by
  rw [scheduledTx, elapsed hle hlt, decide_eq_true_eq]
  omega

theorem checkAsyncWindow_iff {prevTime curTime window : Nat} (hle : prevTime ≤ curTime)
    (hlt : curTime < 18446744073709551616) (hwindow : window ≤ hbi)
    (hhbi : hbi < 18446744073709551616) :
    checkAsyncWindow prevTime curTime hbi window = true ↔ curTime + window ≤ prevTime + hbi := by
  have hrest := u64_eq_toNat (x := (hbi : ℤ) - window) (by omega) (by omega)
  rw [checkAsyncWindow, elapsed hle hlt, hrest, decide_eq_true_eq]
  omega

/-- Whether a thread that was created is about to enter the loop. -/
structure Enters (l : PmLoop) : Prop where
  idle : l.active = false
  created : 0 < l.created
  hbi : 0 < l.timing.hbi

theorem Enters.doPacemaker (h : l.Enters) (t₀ : Nat) : l.doPacemaker t₀ = { l with
    station := l.station.act .pmStart
    interval := l.timing.hbi
    prevTime := t₀
    errors := 0
    active := true
    created := l.created - 1
    curTime := t₀
    beats := [] } := by
  have hfree : ¬(l.active = true ∨ l.created = 0) := by
    rw [h.idle]
    exact fun hwaits => hwaits.elim Bool.false_ne_true h.created.ne'
  rw [PmLoop.doPacemaker, if_neg hfree, if_neg h.hbi.ne']

theorem asgardPmStartLoop_eq (l : PmLoop) :
    ∃ created, l.asgardPmStartLoop = { l with created := created } := by
  unfold asgardPmStartLoop
  split
  · exact ⟨l.created, rfl⟩
  · exact ⟨l.created + 1, rfl⟩

/-- A thread that was created waits as long as another one is in the loop. -/
theorem doPacemaker_of_active (hactive : l.active = true) (curTime : Nat) :
    l.doPacemaker curTime = l := if_pos (.inl hactive)

theorem Runs.round (h : Runs δ l (.round curTime link pings)) :
    l.step (.round curTime link pings) = { l with curTime := curTime }.emitRound link pings := by
  obtain ⟨hactive, hpm, herrors, -⟩ := h
  simp only [step, PmLoop.round, hactive, hpm, Bool.true_eq_false, ne_eq, not_true_eq_false, if_false,
    if_neg (Nat.not_lt.mpr herrors), gt_iff_lt]

theorem emitRound_scheduled (h : scheduledTx l.prevTime l.curTime l.interval = true) :
    l.emitRound link pings = { l.sends link (l.station.tick pings) with
      prevTime := l.curTime
      beats := l.curTime :: l.beats } := by
  have hround : l.timing.round l.interval l.prevTime l.curTime = .scheduled := if_pos h
  rw [emitRound, hround]

/-- Any other round leaves the targets and the times as they are. -/
theorem emitRound_between (h : ¬scheduledTx l.prevTime l.curTime l.interval = true) :
    ∃ station errors active, station.node.sdev.targets = l.station.node.sdev.targets ∧
      l.emitRound link pings = { l with
        station := station
        errors := errors
        active := active } := by
  have hround : l.timing.round l.interval l.prevTime l.curTime ≠ .scheduled := by
    rw [PmTiming.round, if_neg h]
    split
    · exact fun heq => by cases heq
    · exact fun heq => by cases heq
  unfold emitRound
  split
  case h_1 hbeat => exact absurd hbeat hround
  case h_2 => exact ⟨l.station, l.errors, l.active, rfl, rfl⟩
  split_ifs
  · exact ⟨l.station.emitPktsNonScheduled, _, l.active, by rw [WireNode.emitPktsNonScheduled_node], rfl⟩
  · exact ⟨l.station.act .pmHalt, l.errors, false, l.station.act_targets .pmHalt, rfl⟩
  · exact ⟨l.station.emitAsyncPkts, _, l.active, (WireNode.emitAsyncPkts_leaves _).targets, rfl⟩
  · exact ⟨l.station, l.errors, l.active, rfl, rfl⟩

/-- What `do_pacemaker` keeps between two rounds of a loop with the interval `hbi`. -/
structure Paced (hbi : Nat) (l : PmLoop) : Prop where
  pos : 0 < hbi
  interval : l.interval = hbi
  prevTime_le : l.prevTime ≤ l.curTime
  curTime_lt : l.curTime < l.prevTime + hbi

/-- A round in which a heartbeat is due. -/
theorem Paced.beat (h : Paced hbi l) (hruns : Runs δ l (.round curTime link pings))
    (hdue : l.prevTime + hbi ≤ curTime) :
    l.step (.round curTime link pings) =
      { { l with curTime := curTime }.sends link (l.station.tick pings) with
        prevTime := curTime
        beats := curTime :: l.beats } := by
  obtain ⟨-, -, -, hle, -, hlt⟩ := id hruns
  have hscheduled := (scheduledTx_iff hbi (h.prevTime_le.trans hle) hlt).mpr hdue
  rw [hruns.round, emitRound_scheduled (h.interval ▸ hscheduled)]

theorem Paced.between (h : Paced hbi l) (hruns : Runs δ l (.round curTime link pings))
    (hearly : curTime < l.prevTime + hbi) :
    ∃ station errors active, station.node.sdev.targets = l.station.node.sdev.targets ∧
      l.step (.round curTime link pings) = { l with
        station := station
        errors := errors
        active := active
        curTime := curTime } := by
  obtain ⟨-, -, -, hle, -, hlt⟩ := id hruns
  have hscheduled := mt (scheduledTx_iff hbi (h.prevTime_le.trans hle) hlt).mp (Nat.not_le.mpr hearly)
  rw [hruns.round]
  exact emitRound_between (l := { l with curTime := curTime }) (h.interval ▸ hscheduled)

/-! ### Ticks and targets -/

/-- A round that sends a heartbeat. -/
def Beats (l : PmLoop) (curTime : Nat) : Prop :=
  l.active = true ∧ l.station.node.sdev.pmState = .emitting ∧ l.errors ≤ 1000 ∧
    scheduledTx l.prevTime curTime l.interval = true

instance Beats.decidable (l : PmLoop) (curTime : Nat) : Decidable (l.Beats curTime) :=
  inferInstanceAs (Decidable (_ ∧ _ ∧ _ ∧ _))

theorem Runs.beats_iff (h : Runs δ l (.round curTime link pings)) :
    l.Beats curTime ↔ scheduledTx l.prevTime curTime l.interval = true :=
  ⟨fun hbeats => hbeats.2.2.2, fun hscheduled => ⟨h.1, h.2.1, h.2.2.1, hscheduled⟩⟩

/-- What a target is told by an event of the loop. -/
def seen (lid : Nat) (l : PmLoop) : PmEvent → List TargetEvent
  | .round curTime _ _ => if l.Beats curTime then [.tick] else []
  | .other move => l.station.heard lid move
  | _ => []

theorem heard_ticks (n : WireNode) (lid : Nat) (move : StationMove) : ticks (n.heard lid move) = 0 := by
  unfold WireNode.heard
  split
  · split
    · split_ifs
      · rfl
      · rfl
    · rfl
  · rfl

/-- A run of the loop with `n` heartbeats since `l`. -/
structure Beaten (hbi δ : Nat) (l l' : PmLoop) (n : Nat) : Prop where
  paced : Paced hbi l'
  earliest : l.prevTime + n * hbi ≤ l'.prevTime
  latest : l'.prevTime ≤ l.prevTime + n * (hbi + δ)

theorem Paced.beaten (h : Paced hbi l) : Beaten hbi δ l l 0 := ⟨h, by omega, by omega⟩

theorem Paced.step (h : Paced hbi l) (lid : Nat) (hruns : Runs δ l e) :
    Beaten hbi δ l (l.step e) (ticks (seen lid l e)) ∧
      (l.step e).station.node.sdev.targets[lid]? =
        l.station.node.sdev.targets[lid]?.map (·.run (seen lid l e)) := by
  have hsame : ∀ t : Option TargetInfo, t = t.map (·.run []) := fun t => (TargetInfo.map_run_nil t).symm
  have hstays : Beaten hbi δ l l 0 := h.beaten
  cases e with
  | start =>
    obtain ⟨created, heq⟩ := l.asgardPmStartLoop_eq
    rw [PmLoop.step, heq]
    exact ⟨⟨⟨h.pos, h.interval, h.prevTime_le, h.curTime_lt⟩, hstays.earliest, hstays.latest⟩, hsame _⟩
  | enter curTime =>
    rw [PmLoop.step, doPacemaker_of_active hruns]
    exact ⟨hstays, hsame _⟩
  | stop => exact absurd hruns id
  | configure timing =>
    exact ⟨⟨⟨h.pos, h.interval, h.prevTime_le, h.curTime_lt⟩, hstays.earliest, hstays.latest⟩, hsame _⟩
  | other move =>
    have htells := l.station.move_tells hruns lid
    rw [seen, heard_ticks]
    exact ⟨⟨⟨h.pos, h.interval, h.prevTime_le, h.curTime_lt⟩, hstays.earliest, hstays.latest⟩,
      htells.target⟩
  | round curTime link pings =>
    obtain ⟨-, hpm, -, hle, hsoon, hlt⟩ := id hruns
    have hprev := h.prevTime_le
    have hcur := h.curTime_lt
    have hiff : l.Beats curTime ↔ l.prevTime + hbi ≤ curTime := by
      rw [hruns.beats_iff, h.interval]
      exact scheduledTx_iff hbi (hprev.trans hle) hlt
    rw [seen]
    by_cases hdue : l.prevTime + hbi ≤ curTime
    case pos =>
      rw [if_pos (hiff.mpr hdue), h.beat hruns hdue]
      refine ⟨⟨⟨h.pos, h.interval, le_rfl, Nat.lt_add_of_pos_right h.pos⟩, ?_, ?_⟩, ?_⟩
      · change l.prevTime + 1 * hbi ≤ curTime
        omega
      · change curTime ≤ l.prevTime + 1 * (hbi + δ)
        omega
      · exact l.station.tick_target pings hpm lid
    case neg =>
      have hearly := Nat.not_le.mp hdue
      obtain ⟨station, errors, active, htargets, heq⟩ := h.between hruns hearly
      rw [if_neg (mt hiff.mp hdue), heq]
      refine ⟨⟨⟨h.pos, h.interval, hprev.trans hle, hearly⟩, hstays.earliest, hstays.latest⟩, ?_⟩
      dsimp only
      rw [htargets]
      exact hsame _

theorem Beaten.trans {l' l'' : PmLoop} {n m : Nat} (h : Beaten hbi δ l l' n)
    (h' : Beaten hbi δ l' l'' m) : Beaten hbi δ l l'' (n + m) where
  paced := h'.paced
  earliest := by
    calc l.prevTime + (n + m) * hbi
        = l.prevTime + n * hbi + m * hbi := by rw [Nat.add_mul, Nat.add_assoc]
      _ ≤ l'.prevTime + m * hbi := Nat.add_le_add_right h.earliest _
      _ ≤ l''.prevTime := h'.earliest
  latest := by
    calc l''.prevTime
        ≤ l'.prevTime + m * (hbi + δ) := h'.latest
      _ ≤ l.prevTime + n * (hbi + δ) + m * (hbi + δ) := Nat.add_le_add_right h.latest _
      _ = l.prevTime + (n + m) * (hbi + δ) := by rw [Nat.add_mul, Nat.add_assoc]

/-- **Run lemma.** The ticks of a run fix its times, and a target is what it was told to be. -/
theorem Paced.run {events : List PmEvent} (h : Paced hbi l) (lid : Nat)
    (hmeets : Meets PmLoop.step (Runs δ) l events) :
    Beaten hbi δ l (l.run events) (ticks (outputs PmLoop.step (seen lid) l events)) ∧
      (l.run events).station.node.sdev.targets[lid]? =
        l.station.node.sdev.targets[lid]?.map
          (·.run (outputs PmLoop.step (seen lid) l events)) := by
  induction events generalizing l with
  | nil =>
    exact ⟨h.beaten, (TargetInfo.map_run_nil _).symm⟩
  | cons e events ih =>
    obtain ⟨hone, htold⟩ := h.step lid hmeets.1
    obtain ⟨hrest, hend⟩ := ih hone.paced hmeets.2
    have hticks : ticks (outputs PmLoop.step (seen lid) l (e :: events)) =
        ticks (seen lid l e) + ticks (outputs PmLoop.step (seen lid) (l.step e) events) :=
      List.count_append
    refine ⟨hticks ▸ hone.trans hrest, ?_⟩
    calc (l.run (e :: events)).station.node.sdev.targets[lid]?
        = (l.step e).station.node.sdev.targets[lid]?.map
            (·.run (outputs PmLoop.step (seen lid) (l.step e) events)) := hend
      _ = (l.station.node.sdev.targets[lid]?.map (·.run (seen lid l e))).map
            (·.run (outputs PmLoop.step (seen lid) (l.step e) events)) := by rw [htold]
      _ = l.station.node.sdev.targets[lid]?.map
            (·.run (outputs PmLoop.step (seen lid) l (e :: events))) := by
          rw [Option.map_map]
          refine congrArg (Option.map · _) (funext fun t => ?_)
          exact (Run.run_append TargetInfo.step t _ _).symm

/-! ### The pace of the heartbeats -/

/-- The loop is entered at `t₀`. -/
theorem Enters.paced (h : l.Enters) (t₀ : Nat) :
    Paced l.timing.hbi (l.doPacemaker t₀) ∧ (l.doPacemaker t₀).beats = [] ∧
      (l.doPacemaker t₀).prevTime = t₀ := by
  rw [h.doPacemaker]
  exact ⟨⟨h.hbi, rfl, le_rfl, Nat.lt_add_of_pos_right h.hbi⟩, rfl, rfl⟩

/-- The heartbeats of the loop so far, and the moment it was entered. -/
structure Beating (hbi δ t₀ : Nat) (l : PmLoop) : Prop where
  paced : Paced hbi l
  last : (l.beats ++ [t₀]).head? = some l.prevTime
  pace : (l.beats ++ [t₀]).IsChain fun later earlier =>
    earlier + hbi ≤ later ∧ later < earlier + hbi + δ

theorem Beating.step {t₀ : Nat} (h : Beating hbi δ t₀ l) (hruns : Runs δ l e) :
    Beating hbi δ t₀ (l.step e) := by
  have hpaced := (h.paced.step 0 hruns).1.paced
  cases e with
  | start =>
    obtain ⟨created, heq⟩ := l.asgardPmStartLoop_eq
    rw [PmLoop.step, heq] at hpaced ⊢
    exact ⟨hpaced, h.last, h.pace⟩
  | enter curTime =>
    rw [PmLoop.step, doPacemaker_of_active hruns]
    exact h
  | stop => exact absurd hruns id
  | configure timing => exact ⟨hpaced, h.last, h.pace⟩
  | other move => exact ⟨hpaced, h.last, h.pace⟩
  | round curTime link pings =>
    by_cases hdue : l.prevTime + hbi ≤ curTime
    case pos =>
      rw [h.paced.beat hruns hdue] at hpaced ⊢
      refine ⟨hpaced, rfl, ?_⟩
      obtain ⟨earlier, hbeats⟩ := List.head?_eq_some_iff.mp h.last
      change (curTime :: (l.beats ++ [t₀])).IsChain _
      rw [hbeats]
      refine List.isChain_cons_cons.mpr ⟨⟨hdue, ?_⟩, hbeats ▸ h.pace⟩
      have hcur := h.paced.curTime_lt
      have hsoon := hruns.2.2.2.2.1
      omega
    case neg =>
      obtain ⟨station, errors, active, -, heq⟩ := h.paced.between hruns (Nat.not_le.mp hdue)
      rw [heq] at hpaced ⊢
      exact ⟨hpaced, h.last, h.pace⟩

/-- **Heartbeats keep their pace.** From the moment a thread enters the loop, and as long as it runs, a
heartbeat is sent `hbi` cycles after the one before it at the earliest and less than the gap between two
rounds later, whatever the other threads do, and however the configuration changes. -/
theorem heartbeats_keep_pace {t₀ : Nat} (henters : l.Enters) {events : List PmEvent}
    (hmeets : Meets PmLoop.step (Runs δ) (l.doPacemaker t₀) events) :
    let l' := (l.doPacemaker t₀).run events
    ((l'.beats ++ [t₀]).IsChain fun later earlier =>
      earlier + l.timing.hbi ≤ later ∧ later < earlier + l.timing.hbi + δ) ∧
    ∃ last, (l'.beats ++ [t₀]).head? = some last ∧ l'.curTime < last + l.timing.hbi := by
  intro l'
  obtain ⟨hpaced, hbeats, hprev⟩ := henters.paced t₀
  have hstart : Beating l.timing.hbi δ t₀ (l.doPacemaker t₀) := by
    refine ⟨hpaced, ?_, ?_⟩
    · rw [hbeats, hprev]
      rfl
    · rw [hbeats]
      exact .singleton t₀
  have hend : Beating l.timing.hbi δ t₀ l' :=
    Run.invariant PmLoop.step (fun _ _ h hruns => h.step hruns) hstart hmeets
  exact ⟨hend.pace, l'.prevTime, hend.last, hend.paced.curTime_lt⟩

/-- The pacemaker of the first of three nodes has been started. -/
def firstLoop (hbi waitingWindow : Nat) : PmLoop :=
  (init ((threeStations false).init.station 0) ⟨hbi, waitingWindow⟩).asgardPmStartLoop

theorem firstLoop_enters {hbi : Nat} (hhbi : 0 < hbi) (waitingWindow : Nat) :
    (firstLoop hbi waitingWindow).Enters := ⟨rfl, Nat.one_pos, hhbi⟩

def plainRound (curTime : Nat) : PmEvent := .round curTime (fun _ => true) fun _ => none

/-- A packet without records of another node. -/
def hears (src : Fin 3) (postTs : Nat) : PmEvent :=
  .other (.post ⟨stationMac src, .zero⟩ rubbish 1416 postTs)

/-- Rounds three cycles apart, a window that is lengthened on the way, and a start that is refused. -/
def fewRounds : List PmEvent :=
  [plainRound 3, hears 1 1, plainRound 6, .configure ⟨10, 4⟩, plainRound 9, .start, plainRound 12,
    plainRound 15, plainRound 18, plainRound 21, plainRound 24]

theorem heartbeats_keep_pace_fewRounds :
    ((((firstLoop 10 2).doPacemaker 0).run fewRounds).beats ++ [0]).IsChain (fun later earlier =>
      earlier + 10 ≤ later ∧ later < earlier + 10 + 3) ∧
    ∃ last, ((((firstLoop 10 2).doPacemaker 0).run fewRounds).beats ++ [0]).head? = some last ∧
      (((firstLoop 10 2).doPacemaker 0).run fewRounds).curTime < last + 10 :=
  have hmeets : Meets PmLoop.step (Runs 3) ((firstLoop 10 2).doPacemaker 0) fewRounds := by
    decide +kernel
  heartbeats_keep_pace (firstLoop_enters (by decide) 2) hmeets

example : (((firstLoop 10 2).doPacemaker 0).run fewRounds).beats = [24, 12] := by decide +kernel

end PmLoop

end XlaneLkm
