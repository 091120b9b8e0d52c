import XlaneLkm.PmCluster
import XlaneLkm.Proof.PmLoop

/-!
# Clocks refine choices

The cluster on the wire leaves it open when a node sends what. With clocks and loops the pacemakers
decide, and every decision is one of those that were open: whatever holds of all runs of the cluster on
the wire holds with clocks, too.
-/

namespace XlaneLkm

open MachineInt

namespace WireNode

variable {n m : WireNode}

/-! ### The doorbell of the multicast queue -/

/-- The doorbell has been rung once for every packet in the queue. -/
def Rung (n : WireNode) : Prop :=
  n.multicastAapriv.doorbell = i32 n.multicastAapriv.headOfAsyncPktQueue.length

theorem Rung.congr (h : Rung n) (heq : m.multicastAapriv = n.multicastAapriv) : Rung m := by
  rw [Rung, heq]
  exact h

theorem rung_foldl {β : Type*} {f : WireNode → β → WireNode} (h : ∀ m b, Rung m → Rung (f m b))
    (l : List β) (hn : Rung n) : Rung (l.foldl f n) := by
  induction l generalizing n with
  | nil => exact hn
  | cons b l ih => exact ih (h n b hn)

theorem Rung.asyncFails (h : Rung n) : n.asyncFails = false := by
  refine decide_eq_false fun hfails => ?_
  obtain ⟨-, hdoorbell, hempty⟩ := hfails
  rw [h, List.isEmpty_iff.mp hempty] at hdoorbell
  exact absurd hdoorbell (by decide)

theorem Rung.transmit (h : Rung n) (retrans : Bool) (x : Dest × Option ConRecord) :
    Rung (n.transmit retrans x) := by
  unfold WireNode.transmit
  split
  · split
    · exact h
    · exact h
    · exact h
    · exact h
    · exact h
    · exact h
  · unfold Rung at h ⊢
    dsimp only [AsyncQueue.enqueueAsyncPkt, AsyncQueue.ringAaDoorbell]
    rw [h, List.length_append, List.length_singleton, Nat.cast_add, Nat.cast_one]
    exact i32_i32_add _ 1
  · exact h

theorem Rung.goOn (h : Rung n) (e : Event) (before node : Node) : Rung (n.goOn e before node) :=
  rung_foldl (fun _ x hm => hm.transmit _ x) _ (h.congr rfl)

theorem Rung.act (h : Rung n) (e : Event) : Rung (n.act e) := h.goOn e _ _

theorem Rung.tick (h : Rung n) (pings : Nat → Option PpRecord) : Rung (n.tick pings) := by
  unfold WireNode.tick
  split
  · exact h
  · have hemit := rung_foldl (f := emitHb) (fun _ _ hm => hm.congr rfl) (List.range n.node.numOfTargets) h
    have hpre := rung_foldl (f := preHb n.node.heartbeat pings) (fun _ _ hm => hm.congr rfl)
      (List.range n.node.numOfTargets) hemit
    exact hpre.goOn .tick _ _

theorem Rung.emitPktsNonScheduled (h : Rung n) : Rung n.emitPktsNonScheduled := by
  unfold WireNode.emitPktsNonScheduled
  split
  · exact h
  · refine rung_foldl (fun m i hm => ?_) _ h
    unfold emitFired
    split
    · exact hm
    · exact hm

theorem Rung.emitAsyncMulticastPkt (h : Rung n) : Rung n.emitAsyncMulticastPkt := by
  unfold WireNode.emitAsyncMulticastPkt
  split
  case isFalse => exact h
  case isTrue hdoorbell =>
    unfold Rung at h
    cases hqueue : n.multicastAapriv.headOfAsyncPktQueue with
    | nil =>
      rw [h, hqueue] at hdoorbell
      exact absurd hdoorbell (by decide)
    | cons payload rest =>
      rw [hqueue, List.length_cons, Nat.cast_add, Nat.cast_one] at h
      simp only [AsyncQueue.dequeueAsyncPkt, hqueue]
      change i32 (n.multicastAapriv.doorbell - 1) = i32 rest.length
      rw [h, Int.sub_eq_add_neg, i32_i32_add]
      exact congrArg i32 (add_neg_cancel_right _ 1)

theorem Rung.emitAsyncPkts (h : Rung n) : Rung n.emitAsyncPkts := by
  unfold WireNode.emitAsyncPkts
  split_ifs
  · exact h
  · exact h.emitAsyncMulticastPkt
  · refine rung_foldl (fun m i hm => ?_) _ h
    unfold emitAsyncUnicast
    split
    · dsimp only
      split
      · exact hm
      · exact hm
    · exact hm

theorem Rung.setupPpMsg (h : Rung n) (j lid : Nat) (r : PpRecord) : Rung (n.setupPpMsg j lid r) := by
  unfold WireNode.setupPpMsg
  split
  · exact h
  · exact h

theorem Rung.asgardPostPayload (h : Rung n) (frame : Frame) (behind : Nat → UInt8) (cqeBcnt : UInt32)
    (postTs : Nat) : Rung (n.asgardPostPayload frame behind cqeBcnt postTs) := by
  unfold WireNode.asgardPostPayload
  split
  · exact h
  split
  · exact h
  dsimp only
  split
  · exact h.goOn _ _ _
  · exact (h.goOn _ _ _).congr rfl

theorem Rung.pktProcessHandler (h : Rung n) (k : Nat) : Rung (n.pktProcessHandler k) := by
  unfold WireNode.pktProcessHandler
  split
  · exact h
  · refine rung_foldl (fun m call hm => ?_) _ (h.congr rfl)
    unfold postPayload
    split
    · exact hm.goOn _ _ _
    · exact hm

/-! ### What an event of the loop does to the device -/

/-- One of the moves that the cluster on the wire leaves to its nodes, or none. -/
inductive Moved (n : WireNode) : WireNode → Prop where
  | stays : Moved n n
  | acts (e : Event) (h : e.isLocal ∧ e.isTick = false) : Moved n (n.act e)
  | ticks (pings : Nat → Option PpRecord) : Moved n (n.tick pings)
  | pings (j lid : Nat) (r : PpRecord) : Moved n (n.setupPpMsg j lid r)
  | fires : Moved n n.emitPktsNonScheduled
  | emits : Moved n n.emitAsyncPkts
  | handles (k : Nat) : Moved n (n.pktProcessHandler k)

theorem Moved.rung (h : Moved n m) (hn : Rung n) : Rung m := by
  cases h with
  | stays => exact hn
  | acts e => exact hn.act e
  | ticks pings => exact hn.tick pings
  | pings j lid r => exact hn.setupPpMsg j lid r
  | fires => exact hn.emitPktsNonScheduled
  | emits => exact hn.emitAsyncPkts
  | handles k => exact hn.pktProcessHandler k

end WireNode

namespace PmLoop

open WireNode (Moved Rung)

variable {l : PmLoop} {e : PmEvent}

theorem emitRound_moved (h : Rung l.station) (link : Nat → Bool) (pings : Nat → Option PpRecord) :
    Moved l.station (l.emitRound link pings).station := by
  unfold emitRound
  rw [h.asyncFails]
  split
  · exact .ticks pings
  · exact .stays
  · split_ifs with _ _ hfails
    · exact .fires
    · cases hfails
    · exact .emits
    · exact .stays

theorem step_moved (h : Rung l.station) (hpost : e.isPost = false) :
    Moved l.station (l.step e).station := by
  cases e with
  | stop => exact .acts .pmHalt ⟨rfl, rfl⟩
  | start =>
    obtain ⟨created, heq⟩ := l.asgardPmStartLoop_eq
    rw [step, heq]
    exact .stays
  | enter curTime =>
    simp only [step, doPacemaker]
    split_ifs
    · exact .stays
    · exact .acts .pmFail ⟨rfl, rfl⟩
    · exact .acts .pmStart ⟨rfl, rfl⟩
  | configure timing => exact .stays
  | round curTime link pings =>
    simp only [step, round]
    split_ifs
    · exact .stays
    · exact .acts .pmStop ⟨rfl, rfl⟩
    · exact .acts .pmStop ⟨rfl, rfl⟩
    · exact emitRound_moved (l := { l with curTime := curTime }) h link pings
  | other move =>
    cases move with
    | act e =>
      simp only [step, WireNode.move]
      split
      case isTrue hother =>
        refine .acts e ⟨hother.1, ?_⟩
        cases e with
        | tick => cases hother.2
        | _ => rfl
      case isFalse => exact .stays
    | pp j lid r => exact .pings j lid r
    | post frame behind cqeBcnt postTs => cases hpost
    | handle k => exact .handles k

end PmLoop

namespace WireCluster

open PmLoop (plainRound)

variable {ι : Type*} [DecidableEq ι] {c : WireCluster ι} {w : PmWorld ι}

theorem moved_moves {w : WireWorld ι} {i : ι} {n : WireNode} (h : WireNode.Moved (w.station i) n) :
    ∃ moves, Run.run c.step w moves = w.set i n := by
  cases h with
  | stays => exact ⟨[], congrArg WireWorld.mk (Function.update_eq_self i w.station).symm⟩
  | acts e h => exact ⟨[.act i e], if_pos h⟩
  | ticks pings => exact ⟨[.tick i pings], rfl⟩
  | pings j lid r => exact ⟨[.pp i j lid r], rfl⟩
  | fires => exact ⟨[.emitNonScheduled i], rfl⟩
  | emits => exact ⟨[.emitAsync i], rfl⟩
  | handles k => exact ⟨[.handle i k], rfl⟩

theorem wire_act (w : PmWorld ι) (i : ι) (e : PmEvent) :
    (w.act i e).wire = w.wire.set i ((w.loop i).step e).station := by
  refine congrArg WireWorld.mk (funext fun j => ?_)
  by_cases hj : j = i
  · subst hj
    simp only [PmWorld.act, Function.update_self]
  · simp only [PmWorld.act, Function.update_of_ne hj]
    rfl

def AllRung (w : PmWorld ι) : Prop := ∀ i, (w.loop i).station.Rung

theorem AllRung.act (h : AllRung w) {i : ι} {e : PmEvent} (hi : ((w.loop i).step e).station.Rung) :
    AllRung (w.act i e) := by
  intro j
  by_cases hj : j = i
  · subst hj
    simp only [PmWorld.act, Function.update_self]
    exact hi
  · simp only [PmWorld.act, Function.update_of_ne hj]
    exact h j

/-- **Step lemma.** -/
theorem pmStep_moves (h : AllRung w) (move : PmMove ι) :
    AllRung (c.pmStep w move) ∧ ∃ moves, Run.run c.step w.wire moves = (c.pmStep w move).wire := by
  cases move with
  | own i e =>
    simp only [pmStep]
    split
    case isTrue => exact ⟨h, [], rfl⟩
    case isFalse hpost =>
      have hmoved := PmLoop.step_moved (h i) (Bool.eq_false_iff.mpr hpost)
      rw [wire_act]
      exact ⟨h.act (hmoved.rung (h i)), moved_moves hmoved⟩
  | arrive dst src k behind cqeBcnt postTs =>
    have hstep : c.step w.wire (.arrive dst src k behind cqeBcnt postTs) =
        (c.pmStep w (.arrive dst src k behind cqeBcnt postTs)).wire := by
      have hsame : (w.wire.station src).emitted = (w.loop src).station.emitted := rfl
      simp only [WireCluster.step, pmStep, hsame]
      cases (w.loop src).station.emitted[k]? with
      | none => rfl
      | some sent =>
        obtain ⟨dest, frame⟩ := sent
        by_cases hreaches : c.reaches src dst dest
        · simp only [if_pos hreaches]
          exact (wire_act w dst (.other (.post frame behind cqeBcnt postTs))).symm
        · simp only [if_neg hreaches]
    refine ⟨?_, [.arrive dst src k behind cqeBcnt postTs], hstep⟩
    simp only [pmStep]
    split
    · split
      · exact h.act ((h dst).asgardPostPayload _ _ _ _)
      · exact h
    · exact h

/-- **Clocks refine choices.** A run of the cluster in which the loops decide what is sent when is a run
of the cluster on the wire, and no loop is ever left because emitting has failed. Pacemakers are started,
stopped and started again as often as may be. -/
theorem clocks_refine_choices (c : WireCluster ι) (timing : ι → PmTiming) (moves : List (PmMove ι)) :
    (∃ choices, c.run choices = (c.pmRun timing moves).wire) ∧
      ∀ i, ((c.pmRun timing moves).loop i).station.asyncFails = false := by
  have hstart : AllRung (c.pmInit timing) ∧ ∃ choices, c.run choices = (c.pmInit timing).wire :=
    ⟨fun _ => rfl, [], rfl⟩
  obtain ⟨hrung, hchoices⟩ : AllRung (c.pmRun timing moves) ∧
      ∃ choices, c.run choices = (c.pmRun timing moves).wire := by
    refine Run.invariant_run c.pmStep (I := fun w => AllRung w ∧ ∃ choices, c.run choices = w.wire)
      (fun w move h => ?_) hstart moves
    obtain ⟨hrung, before, hbefore⟩ := h
    obtain ⟨hnext, after, hafter⟩ := pmStep_moves (c := c) hrung move
    refine ⟨hnext, before ++ after, ?_⟩
    calc c.run (before ++ after)
        = Run.run c.step (c.run before) after := Run.run_append c.step c.init before after
      _ = (c.pmStep w move).wire := by rw [hbefore, hafter]
  exact ⟨hchoices, fun i => (hrung i).asyncFails⟩

def pmArrive (dst src : Fin 3) (k ts : Nat) : PmMove (Fin 3) := .arrive dst src k rubbish 1416 ts

/-- The pacemakers of all nodes are started, one after the other, and the one of node 0 once more while its
thread still waits. After the first heartbeats node 0 nominates itself, and the rounds behind it take the
nomination and the votes along. -/
def clockedElection : List (PmMove (Fin 3)) :=
  [.own 0 .start, .own 0 .start, .own 0 (.enter 0), .own 1 .start, .own 1 (.enter 3), .own 2 .start,
    .own 2 (.enter 5), .own 0 (plainRound 10), .own 1 (plainRound 13), .own 2 (plainRound 15),
    pmArrive 1 0 1 16, pmArrive 2 0 0 16, pmArrive 0 1 1 16, pmArrive 2 1 0 16, pmArrive 0 2 1 17,
    pmArrive 1 2 0 17, .own 0 (plainRound 14), pmArrive 1 0 1 20, pmArrive 2 0 0 20,
    .own 1 (.other (.handle 1)), .own 2 (.other (.handle 1)), .own 1 (plainRound 17),
    .own 2 (plainRound 19), pmArrive 0 1 0 22, pmArrive 0 2 0 23, .own 0 (.other (.handle 1)),
    .own 0 (.other (.handle 1))]

example : (((threeStations false).pmRun (fun _ => ⟨10, 2⟩) clockedElection).loop 0).station.node.priv.nstate =
    .leader := by decide +kernel

end WireCluster

end XlaneLkm
