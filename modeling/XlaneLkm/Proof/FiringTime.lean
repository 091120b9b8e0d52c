import XlaneLkm.Proof.PmLoop

/-!
# How long a message waits to be fired

A message of leader election is written into the payload of a target, and its `fire` set. It waits for
the next round of the pacemaker, and no longer than the sync window and the heartbeat behind it take.
-/

namespace XlaneLkm

namespace WireNode

/-- The payload of target `i` has been handed to the device. -/
def Fired (i : Nat) (n n' : WireNode) : Prop :=
  n'.fire i = false ∧ ∃ fresh, n'.emitted = fresh ++ n.emitted ∧
    (Dest.target i, ⟨n.devAddr, n.pktData i⟩) ∈ fresh

theorem emitFired_of_ne (n : WireNode) {i j : Nat} (hne : i ≠ j) :
    (n.emitFired j).fire i = n.fire i ∧ (n.emitFired j).pktData i = n.pktData i ∧
      (n.emitFired j).devAddr = n.devAddr ∧ ∃ fresh, (n.emitFired j).emitted = fresh ++ n.emitted := by
  unfold emitFired
  split
  · exact ⟨Function.update_of_ne hne _ _, Function.update_of_ne hne _ _, rfl, [_], rfl⟩
  · exact ⟨rfl, rfl, rfl, [], rfl⟩

theorem emitFired_rest (l : List Nat) (n : WireNode) {i : Nat} (hfire : n.fire i = false) :
    (l.foldl emitFired n).fire i = false ∧
      ∃ fresh, (l.foldl emitFired n).emitted = fresh ++ n.emitted := by
  induction l generalizing n with
  | nil => exact ⟨hfire, [], rfl⟩
  | cons j l ih =>
    by_cases hij : i = j
    · subst hij
      have hskip : n.emitFired i = n := if_neg (by simp [hfire])
      rw [List.foldl_cons, hskip]
      exact ih n hfire
    · obtain ⟨hkept, -, -, fresh, hfresh⟩ := n.emitFired_of_ne hij
      obtain ⟨hend, more, hmore⟩ := ih (n.emitFired j) (hkept.trans hfire)
      exact ⟨hend, more ++ fresh, by rw [List.foldl_cons, hmore, hfresh, List.append_assoc]⟩

theorem emitFired_fires (l : List Nat) (n : WireNode) {i : Nat} (hi : i ∈ l) (hfire : n.fire i = true) :
    Fired i n (l.foldl emitFired n) := by
  induction l generalizing n with
  | nil => exact absurd hi List.not_mem_nil
  | cons j l ih =>
    rw [List.foldl_cons]
    by_cases hij : i = j
    · subst hij
      have hsent : (n.emitFired i).fire i = false ∧
          (n.emitFired i).emitted = (Dest.target i, ⟨n.devAddr, n.pktData i⟩) :: n.emitted := by
        unfold emitFired
        rw [if_pos hfire]
        exact ⟨Function.update_self _ _ _, rfl⟩
      obtain ⟨hend, fresh, hfresh⟩ := emitFired_rest l (n.emitFired i) hsent.1
      refine ⟨hend, fresh ++ [_], ?_, List.mem_append_right fresh List.mem_cons_self⟩
      rw [hfresh, hsent.2, List.append_assoc]
      rfl
    · obtain ⟨hkept, hpkt, haddr, fresh, hfresh⟩ := n.emitFired_of_ne hij
      obtain ⟨hend, more, hmore, hmem⟩ :=
        ih (n.emitFired j) ((List.mem_cons.mp hi).resolve_left hij) (hkept.trans hfire)
      rw [haddr, hpkt] at hmem
      exact ⟨hend, more ++ fresh, by rw [hmore, hfresh, List.append_assoc],
        List.mem_append_left fresh hmem⟩

theorem emitPktsNonScheduled_fires (n : WireNode) {i : Nat} (hi : i < n.node.numOfTargets)
    (hpm : n.node.sdev.pmState = .emitting) (hfire : n.fire i = true) :
    Fired i n n.emitPktsNonScheduled := by
  unfold emitPktsNonScheduled
  rw [if_neg (not_not.mpr hpm)]
  exact emitFired_fires _ n (List.mem_range.mpr hi) hfire

theorem outOfScheduleTx_of_fire {n : WireNode} {i : Nat} (hi : i < n.node.numOfTargets)
    (hfire : n.fire i = true) : n.outOfScheduleTx = true :=
  List.any_eq_true.mpr ⟨i, List.mem_range.mpr hi, hfire⟩

end WireNode

namespace PmLoop

open Run (Meets)

variable {l : PmLoop} {e : PmEvent} {hbi δ curTime : Nat} {link : Nat → Bool}
  {pings : Nat → Option PpRecord}

/-- The loop runs, and the sync window is not longer than `ww`. -/
def RunsWithin (δ ww : Nat) (l : PmLoop) (e : PmEvent) : Prop :=
  Runs δ l e ∧ l.timing.waitingWindow ≤ ww

instance RunsWithin.decidable (δ ww : Nat) (l : PmLoop) (e : PmEvent) :
    Decidable (RunsWithin δ ww l e) :=
  inferInstanceAs (Decidable (_ ∧ _))

theorem Paced.quiet (h : Paced hbi l) (hruns : Runs δ l (.round curTime link pings))
    (hhbi : hbi < 18446744073709551616) (hwindow : l.timing.waitingWindow ≤ hbi)
    (hearly : curTime < l.prevTime + hbi) (hclosed : l.prevTime + hbi < curTime + l.timing.waitingWindow) :
    l.step (.round curTime link pings) = { l with curTime := curTime } := by
  obtain ⟨-, -, -, hle, -, hlt⟩ := id hruns
  have hprev := h.prevTime_le.trans hle
  have hscheduled := mt (scheduledTx_iff hbi hprev hlt).mp (Nat.not_le.mpr hearly)
  have hopen := mt (checkAsyncWindow_iff hprev hlt hwindow hhbi).mp (Nat.not_le.mpr hclosed)
  have hround : l.timing.round l.interval l.prevTime curTime = .quiet := by
    rw [PmTiming.round, h.interval, if_neg hscheduled, if_neg hopen]
  rw [hruns.round, emitRound, hround]

theorem Paced.fires (h : Paced hbi l) (hruns : Runs δ l (.round curTime link pings)) {i : Nat}
    (hi : i < l.station.node.numOfTargets) (hfire : l.station.fire i = true)
    (hhbi : hbi < 18446744073709551616) (hwindow : l.timing.waitingWindow ≤ hbi)
    (hearly : curTime < l.prevTime + hbi) (hopen : curTime + l.timing.waitingWindow ≤ l.prevTime + hbi) :
    WireNode.Fired i l.station (l.step (.round curTime link pings)).station := by
  obtain ⟨-, hpm, -, hle, -, hlt⟩ := id hruns
  have hprev := h.prevTime_le.trans hle
  have hscheduled := mt (scheduledTx_iff hbi hprev hlt).mp (Nat.not_le.mpr hearly)
  have hasync := (checkAsyncWindow_iff hprev hlt hwindow hhbi).mpr hopen
  have hround : l.timing.round l.interval l.prevTime curTime = .unscheduled := by
    rw [PmTiming.round, h.interval, if_neg hscheduled, if_pos hasync]
  have hemits : ({ l with curTime := curTime } : PmLoop).emitRound link pings =
      ({ l with curTime := curTime } : PmLoop).sends link l.station.emitPktsNonScheduled := by
    rw [emitRound, hround]
    exact if_pos (WireNode.outOfScheduleTx_of_fire hi hfire)
  rw [hruns.round, hemits]
  exact l.station.emitPktsNonScheduled_fires hi hpm hfire

/-- The payload of target `i` waits since `t'`. Either there was no round since, or the sync window has
begun by the next one, or the heartbeat behind it has just been sent. -/
structure Waiting (hbi δ ww i t' : Nat) (l : PmLoop) : Prop where
  paced : Paced hbi l
  target : i < l.station.node.numOfTargets
  fire : l.station.fire i = true
  phase : l.curTime = t' ∨ l.prevTime + hbi ≤ t' + δ + ww ∨
    (l.curTime = l.prevTime ∧ l.curTime ≤ t' + ww + 2 * δ)

variable {ww i t' : Nat}

theorem target_of_step (h : Paced hbi l) (hi : i < l.station.node.numOfTargets) (hruns : Runs δ l e) :
    i < (l.step e).station.node.numOfTargets := by
  have htarget := (h.step i hruns).2
  rw [List.getElem?_eq_getElem hi, Option.map_some] at htarget
  obtain ⟨hlt, -⟩ := List.getElem?_eq_some_iff.mp htarget
  exact hlt

/-- **Step lemma.** What waits goes on waiting, unless it is sent. -/
theorem Waiting.step (h : Waiting hbi δ ww i t' l) (hgap : δ + ww < hbi)
    (hhbi : hbi < 18446744073709551616) (hruns : RunsWithin δ ww l e) :
    Waiting hbi δ ww i t' (l.step e) ∨ WireNode.Fired i l.station (l.step e).station := by
  obtain ⟨hruns, hww⟩ := hruns
  have hpaced := (h.paced.step i hruns).1.paced
  have htarget := target_of_step h.paced h.target hruns
  cases e with
  | start =>
    obtain ⟨created, heq⟩ := l.asgardPmStartLoop_eq
    rw [PmLoop.step, heq] at hpaced htarget ⊢
    exact .inl ⟨hpaced, htarget, h.fire, h.phase⟩
  | enter curTime =>
    rw [PmLoop.step, doPacemaker_of_active hruns]
    exact .inl h
  | stop => exact absurd hruns id
  | configure timing => exact .inl ⟨hpaced, htarget, h.fire, h.phase⟩
  | other move =>
    exact .inl ⟨hpaced, htarget, (l.station.move_tells hruns i).fire i h.fire, h.phase⟩
  | round curTime link pings =>
    obtain ⟨-, hpm, -, hle, hsoon, -⟩ := id hruns
    have hcur := h.paced.curTime_lt
    have hphase := h.phase
    by_cases hdue : l.prevTime + hbi ≤ curTime
    case pos =>
      left
      rw [h.paced.beat hruns hdue] at hpaced htarget ⊢
      refine ⟨hpaced, htarget, (l.station.tick_leaves pings hpm).fire i h.fire, .inr (.inr ⟨rfl, ?_⟩)⟩
      change curTime ≤ t' + ww + 2 * δ
      omega
    have hearly := Nat.not_le.mp hdue
    by_cases hopen : curTime + l.timing.waitingWindow ≤ l.prevTime + hbi
    case pos =>
      exact .inr (h.paced.fires hruns h.target h.fire hhbi (by omega) hearly hopen)
    case neg =>
      left
      rw [h.paced.quiet hruns hhbi (by omega) hearly (Nat.not_le.mp hopen)] at hpaced htarget ⊢
      refine ⟨hpaced, htarget, h.fire, .inr (.inl ?_)⟩
      change l.prevTime + hbi ≤ t' + δ + ww
      omega

/-- **Run lemma.** It waits throughout a run, or is sent in one of its rounds. -/
theorem Waiting.run (hgap : δ + ww < hbi) (hhbi : hbi < 18446744073709551616)
    {events : List PmEvent} (h : Waiting hbi δ ww i t' l)
    (hmeets : Meets PmLoop.step (RunsWithin δ ww) l events) :
    Waiting hbi δ ww i t' (l.run events) ∨
      ∃ first e rest, events = first ++ e :: rest ∧
        WireNode.Fired i (l.run first).station ((l.run first).step e).station := by
  induction events generalizing l with
  | nil => exact .inl h
  | cons e events ih =>
    rcases h.step hgap hhbi hmeets.1 with hwaits | hfired
    · rcases ih hwaits hmeets.2 with hend | ⟨first, e', rest, rfl, hfired⟩
      · exact .inl hend
      · exact .inr ⟨e :: first, e', rest, rfl, hfired⟩
    · exact .inr ⟨[], e, events, rfl, hfired⟩

end PmLoop

end XlaneLkm
