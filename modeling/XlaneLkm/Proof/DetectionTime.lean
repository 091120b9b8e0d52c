import XlaneLkm.Proof.PmLoop

/-!
# Failure detection in time

The countdowns of the failure detector are in heartbeats. Their pace gives the times at which a target
that has fallen silent may be, and has to be found dead.
-/

namespace XlaneLkm

namespace PmLoop

open Run (Meets outputs)
open TargetEvent (ticks Silent Increasing)

variable {l : PmLoop} {hbi δ curTime lid : Nat} {link : Nat → Bool} {pings : Nat → Option PpRecord}

/-- A registered target, and what was seen of it. Its countdown never exceeds its `resp_factor`. -/
structure Followed (past : List TargetEvent) (target : TargetInfo) : Prop where
  watched : TargetInfo.Watched 8 past target
  waiting_le : target.curWaitingInterval ≤ 8

variable {past : List TargetEvent} {target : TargetInfo}

theorem followed_registerPeer (clusterId : Int) : Followed [] (registerPeer clusterId) where
  watched := TargetInfo.watched_registered clusterId 8
  waiting_le := show (4 : ℤ) ≤ 8 by decide

theorem Followed.markDead (h : Followed past target) : Followed past target.markDead where
  watched := h.watched.markDead
  waiting_le := h.waiting_le

theorem Followed.run (h : Followed past target) (events : List TargetEvent)
    (hstamps : Increasing (past ++ events)) : Followed (past ++ events) (target.run events) where
  watched := h.watched.run (by decide) (by decide) events hstamps
  waiting_le := by
    have hkept : (target.run events).respFactor = 8 ∧ 0 ≤ (target.run events).curWaitingInterval ∧
        (target.run events).curWaitingInterval ≤ 8 := by
      refine Run.invariant_run TargetInfo.step
        (I := fun t => t.respFactor = 8 ∧ 0 ≤ t.curWaitingInterval ∧ t.curWaitingInterval ≤ 8)
        (fun t event h => ?_) ⟨h.watched.respFactor, h.watched.waiting_nonneg, h.waiting_le⟩ events
      obtain ⟨hresp, hlow, hhigh⟩ := h
      cases event with
      | received postTs => exact ⟨hresp, hlow, hhigh⟩
      | tick =>
        change t.updateAliveness.respFactor = 8 ∧ _
        by_cases hwait : t.curWaitingInterval = 0
        · by_cases hsilent : t.lhbTs = t.chbTs
          · rw [TargetInfo.step, TargetInfo.updateAliveness_of_silent hwait hsilent]
            exact ⟨hresp, by dsimp only; omega, by dsimp only; omega⟩
          · rw [TargetInfo.step, TargetInfo.updateAliveness_of_heard hwait hsilent]
            exact ⟨hresp, by dsimp only; omega, by dsimp only; omega⟩
        · rw [TargetInfo.step, TargetInfo.updateAliveness_of_waiting (by omega) (by omega)]
          exact ⟨hresp, by dsimp only; omega, by dsimp only; omega⟩
    exact hkept.2.2

theorem increasing_of_append {first second : List TargetEvent} (h : Increasing (first ++ second)) :
    Increasing first := by
  rw [Increasing, List.filterMap_append, ← List.cons_append] at h
  exact (List.pairwise_append.mp h).1

/-! ### Starts and stops -/

/-- A target of the device is what it was told to be, or the protocol has ended. -/
def Told (lid : Nat) (told : List TargetEvent) (n n' : WireNode) : Prop :=
  n'.node.sdev.targets[lid]? = n.node.sdev.targets[lid]?.map (·.run told) ∨
    told = [] ∧ n'.node.sdev.targets[lid]? = n.node.sdev.targets[lid]?.map TargetInfo.markDead

theorem told_nothing {n n' : WireNode} (lid : Nat) (h : n'.node.sdev.targets = n.node.sdev.targets) :
    Told lid [] n n' := by
  left
  rw [h, TargetInfo.map_run_nil]

theorem told_stop (n : WireNode) (lid : Nat) {e : Event} (he : e = .stop ∨ e = .pmStop) :
    Told lid [] n (n.act e) := by
  have hafter : n.node.targetsAfter e = if n.node.priv.state = .running then
      n.node.sdev.targets.map TargetInfo.markDead else n.node.sdev.targets := by
    rcases he with rfl | rfl
    · rfl
    · rfl
  by_cases hrun : n.node.priv.state = .running
  · refine .inr ⟨rfl, ?_⟩
    rw [WireNode.act_targets, hafter, if_pos hrun, List.getElem?_map]
  · refine told_nothing lid ?_
    rw [WireNode.act_targets, hafter, if_neg hrun]

theorem round_told (l : PmLoop) (curTime : Nat) (link : Nat → Bool) (pings : Nat → Option PpRecord)
    (lid : Nat) : Told lid (seen lid l (.round curTime link pings)) l.station
      (l.round curTime link pings).station := by
  have hidle : ¬l.Beats curTime → seen lid l (.round curTime link pings) = [] := fun h => if_neg h
  unfold round
  by_cases hactive : l.active = false
  case pos =>
    rw [if_pos hactive, hidle fun h => Bool.false_ne_true (hactive.symm.trans h.1)]
    exact told_nothing lid rfl
  rw [if_neg hactive]
  by_cases hpm : l.station.node.sdev.pmState = .emitting
  case neg =>
    rw [if_pos hpm, hidle fun h => hpm h.2.1]
    exact told_stop l.station lid (.inr rfl)
  rw [if_neg (not_not.mpr hpm)]
  by_cases herrors : l.errors > 1000
  case pos =>
    rw [if_pos herrors, hidle fun h => absurd h.2.2.1 (Nat.not_le.mpr herrors)]
    exact told_stop l.station lid (.inr rfl)
  rw [if_neg herrors]
  by_cases hscheduled : scheduledTx l.prevTime curTime l.interval = true
  case pos =>
    have hbeats : l.Beats curTime :=
      ⟨Bool.not_eq_false _ ▸ hactive, hpm, Nat.le_of_not_lt herrors, hscheduled⟩
    rw [emitRound_scheduled (l := { l with curTime := curTime }) hscheduled, seen, if_pos hbeats]
    exact .inl (l.station.tick_target pings hpm lid)
  case neg =>
    obtain ⟨station, errors, active, htargets, heq⟩ :=
      emitRound_between (l := { l with curTime := curTime }) hscheduled
    rw [heq, hidle fun h => hscheduled h.2.2.2]
    exact told_nothing lid htargets

/-- **Step lemma**, whether the loop runs or not. -/
theorem step_told (l : PmLoop) (e : PmEvent) (lid : Nat) :
    Told lid (seen lid l e) l.station (l.step e).station := by
  cases e with
  | start =>
    obtain ⟨created, heq⟩ := l.asgardPmStartLoop_eq
    rw [step, heq]
    exact told_nothing lid rfl
  | enter curTime =>
    unfold step doPacemaker
    split_ifs
    · exact told_nothing lid rfl
    · exact told_nothing lid (l.station.act_targets .pmFail)
    · exact told_nothing lid (l.station.act_targets .pmStart)
  | stop => exact told_nothing lid (l.station.act_targets .pmHalt)
  | configure timing => exact told_nothing lid rfl
  | round curTime link pings => exact l.round_told curTime link pings lid
  | other move =>
    cases hmove : move.isStop with
    | false => exact .inl (l.station.move_tells hmove lid).target
    | true =>
      cases move with
      | act e =>
        cases e with
        | stop => exact told_stop l.station lid (.inl rfl)
        | _ => cases hmove
      | _ => cases hmove

/-- **Run lemma.** Through any starts and stops, a target is one of which its past was seen. -/
theorem run_followed (hfollowed : Followed past target)
    (htarget : l.station.node.sdev.targets[lid]? = some target) (events : List PmEvent)
    (hstamps : Increasing (past ++ outputs PmLoop.step (seen lid) l events)) :
    ∃ target', (l.run events).station.node.sdev.targets[lid]? = some target' ∧
      Followed (past ++ outputs PmLoop.step (seen lid) l events) target' := by
  induction events generalizing l past target with
  | nil => exact ⟨target, htarget, (List.append_nil past).symm ▸ hfollowed⟩
  | cons e events ih =>
    have hevents : past ++ outputs PmLoop.step (seen lid) l (e :: events) =
        past ++ seen lid l e ++ outputs PmLoop.step (seen lid) (l.step e) events :=
      (List.append_assoc ..).symm
    rw [hevents] at hstamps ⊢
    have hone : ∃ target', (l.step e).station.node.sdev.targets[lid]? = some target' ∧
        Followed (past ++ seen lid l e) target' := by
      rcases l.step_told e lid with htold | ⟨hnothing, hdead⟩
      · rw [htarget] at htold
        exact ⟨_, htold, hfollowed.run _ (increasing_of_append hstamps)⟩
      · rw [htarget] at hdead
        rw [hnothing, List.append_nil]
        exact ⟨_, hdead, hfollowed.markDead⟩
    obtain ⟨target', htarget', hfollowed'⟩ := hone
    exact ih hfollowed' htarget' hstamps

theorem eq_replicate_of_silent {events : List TargetEvent} (h : Silent events) :
    events = List.replicate (ticks events) .tick := by
  have hall := List.eq_replicate_of_mem h
  rw [ticks, hall, List.count_replicate_self]

theorem alive_eq {n : Node} {lid : Nat} {t : TargetInfo} (h : n.sdev.targets[lid]? = some t) :
    n.sdev.alive lid = t.alive := by
  rw [AsgardDevice.alive, h]

theorem Paced.step_curTime (h : Paced hbi l) (hruns : Runs δ l (.round curTime link pings)) :
    (l.step (.round curTime link pings)).curTime = curTime := by
  by_cases hdue : l.prevTime + hbi ≤ curTime
  · rw [h.beat hruns hdue]
    rfl
  · obtain ⟨station, errors, active, -, heq⟩ := h.between hruns (Nat.not_le.mp hdue)
    rw [heq]

section Detection

variable {t : Nat} {window : List PmEvent} (h : Paced hbi l) (hfollowed : Followed past target)
  (htarget : l.station.node.sdev.targets[lid]? = some target)
  (hwindow : Meets PmLoop.step (Runs δ) l window)
  (hlast : Runs δ (l.run window) (.round t link pings))

include h hfollowed htarget hwindow hlast

theorem silent_of_dead (hstamps : Increasing (past ++ outputs PmLoop.step (seen lid) l window))
    (halive : (l.run window).station.node.sdev.alive lid = true)
    (hdead : ((l.run window).step (.round t link pings)).station.node.sdev.alive lid = false)
    (hsoon : t < l.curTime + 9 * hbi) : Silent (outputs PmLoop.step (seen lid) l window) := by
  obtain ⟨hmiddle, hbefore⟩ := h.run lid hwindow
  obtain ⟨hround, hafter⟩ := hmiddle.paced.step lid hlast
  have hnow : (l.run window).station.node.sdev.targets[lid]? = some
      (target.run (outputs PmLoop.step (seen lid) l window)) := by
    rw [hbefore, htarget, Option.map_some]
  have hwatched := (hfollowed.run _ hstamps).watched
  rw [hnow, Option.map_some] at hafter
  rw [alive_eq hnow] at halive
  rw [alive_eq hafter] at hdead
  -- only a tick takes a target from alive to dead
  have hdue : (l.run window).prevTime + hbi ≤ t := by
    by_contra hearly
    have hle := hmiddle.paced.prevTime_le.trans hlast.2.2.2.1
    have hscheduled := mt (scheduledTx_iff hbi hle hlast.2.2.2.2.2).mp hearly
    rw [seen, if_neg (by rw [hlast.beats_iff, hmiddle.paced.interval]; exact hscheduled)] at hdead
    exact absurd (halive.symm.trans hdead) (by simp)
  have htick : seen lid (l.run window) (.round t link pings) = [.tick] := by
    have hle := hmiddle.paced.prevTime_le.trans hlast.2.2.2.1
    refine if_pos (hlast.beats_iff.mpr ?_)
    rw [hmiddle.paced.interval]
    exact (scheduledTx_iff hbi hle hlast.2.2.2.2.2).mpr hdue
  rw [htick] at hdead
  refine hwatched.silent halive hdead (List.suffix_append past _) ?_
  have hmul : ticks (outputs PmLoop.step (seen lid) l window) * hbi < 9 * hbi := by
    have hearliest := hmiddle.earliest
    have hcur := h.curTime_lt
    omega
  have hfew := Nat.lt_of_mul_lt_mul_right hmul
  omega

theorem dead_of_silent (hsilent : Silent (outputs PmLoop.step (seen lid) l window))
    (hlate : l.curTime + 18 * (hbi + δ) ≤ t) :
    ((l.run window).step (.round t link pings)).station.node.sdev.alive lid = false := by
  obtain ⟨hmiddle, hbefore⟩ := h.run lid hwindow
  obtain ⟨hround, hafter⟩ := hmiddle.paced.step lid hlast
  have hnow := hmiddle.paced.step_curTime hlast
  have hall := hmiddle.trans hround
  let told := outputs PmLoop.step (seen lid) l window ++ seen lid (l.run window) (.round t link pings)
  have hsilent' : Silent told := by
    intro event hevent
    rcases List.mem_append.mp hevent with hwindow | hround
    · exact hsilent event hwindow
    · rw [seen] at hround
      split at hround
      · exact List.mem_singleton.mp hround
      · exact absurd hround List.not_mem_nil
  have hticks : 18 ≤ ticks told := by
    have hcount : ticks told = ticks (outputs PmLoop.step (seen lid) l window) +
        ticks (seen lid (l.run window) (.round t link pings)) := List.count_append
    rw [hcount]
    have hlatest := hall.latest
    have hcur := hall.paced.curTime_lt
    have hprev := h.prevTime_le
    rw [hnow] at hcur
    by_contra hfew
    have hmul := Nat.mul_le_mul_right (hbi + δ) (Nat.le_of_lt_succ (Nat.not_le.mp hfew))
    omega
  have hend : ((l.run window).step (.round t link pings)).station.node.sdev.targets[lid]? = some
      (target.run told) := by
    rw [hafter, hbefore, htarget]
    exact congrArg some (Run.run_append TargetInfo.step _ _ _).symm
  have hresp := hfollowed.watched.respFactor
  have hlow := hfollowed.watched.waiting_nonneg
  have hhigh := hfollowed.waiting_le
  rw [alive_eq hend, eq_replicate_of_silent hsilent']
  exact TargetInfo.run_ticks_of_lt _ hlow (by omega) (by omega) (by omega) (by omega)

end Detection

/-- **Failure detection in time.** The pacemaker is started and stopped as often as may be. Then a thread
enters the loop, and has a round at `t'` and one at `t`, while between them it and the other threads do
what they do. A target that the last round finds dead was not heard of since `t'`, unless `t'` lies nine
intervals back. A target that is not heard of since `t'` is found dead by the time 18 heartbeats take,
none of them later than it may be. -/
theorem failure_detection_in_time {t₀ : Nat} {clusterId : Int} {history before window : List PmEvent}
    (hlid : l.station.node.sdev.targets[lid]? = some (registerPeer clusterId))
    (henters : (l.run history).Enters) {t' t : Nat} {link' link : Nat → Bool}
    {pings' pings : Nat → Option PpRecord}
    (hmeets : Meets PmLoop.step (Runs δ) ((l.run history).doPacemaker t₀)
      (before ++ [.round t' link' pings'] ++ window ++ [.round t link pings]))
    (hstamps : Increasing (outputs PmLoop.step (seen lid) l
      (history ++ .enter t₀ :: (before ++ [.round t' link' pings'] ++ window)))) :
    let hbi := (l.run history).timing.hbi
    let l' := ((l.run history).doPacemaker t₀).run (before ++ [.round t' link' pings'])
    let unheard := Silent (outputs PmLoop.step (seen lid) l' window)
    ((l'.run window).station.node.sdev.alive lid = true →
      ((l'.run window).step (.round t link pings)).station.node.sdev.alive lid = false →
      t < t' + 9 * hbi → unheard) ∧
    (unheard → t' + 18 * (hbi + δ) ≤ t →
      ((l'.run window).step (.round t link pings)).station.node.sdev.alive lid = false) := by
  intro hbi l' unheard
  rw [Run.meets_append, Run.meets_append] at hmeets
  obtain ⟨⟨hbefore, hwindow⟩, hlast, -⟩ := hmeets
  rw [Run.run_append] at hlast
  have hsplit : history ++ .enter t₀ :: (before ++ [.round t' link' pings'] ++ window) =
      history ++ .enter t₀ :: (before ++ [.round t' link' pings']) ++ window := by
    rw [List.append_assoc history, List.cons_append]
  have hrun : l.run (history ++ .enter t₀ :: (before ++ [.round t' link' pings'])) = l' :=
    Run.run_append PmLoop.step l history _
  rw [hsplit, Run.outputs_append, show Run.run PmLoop.step l _ = l' from hrun] at hstamps
  obtain ⟨target, htarget, hfollowed⟩ := run_followed (followed_registerPeer clusterId) hlid
    (history ++ .enter t₀ :: (before ++ [.round t' link' pings'])) (increasing_of_append hstamps)
  rw [hrun] at htarget
  obtain ⟨hpaced, -, -⟩ := henters.paced t₀
  have hfirst := (hpaced.run lid hbefore).1
  have hmiddle := (hfirst.paced.run lid hwindow).1
  have hnow' : l'.curTime = t' := by
    rw [Run.meets_append] at hbefore
    have hpaced' := (hpaced.run lid hbefore.1).1.paced
    have hround : l' = (((l.run history).doPacemaker t₀).run before).step (.round t' link' pings') :=
      Run.run_append PmLoop.step _ _ _
    rw [hround]
    exact hpaced'.step_curTime hbefore.2.1
  constructor
  · intro halive hdead hsoon
    exact silent_of_dead hfirst.paced hfollowed htarget hwindow hlast hstamps halive hdead
      (hnow' ▸ hsoon)
  · intro hsilent hlate
    exact dead_of_silent hfirst.paced hfollowed htarget hwindow hlast hsilent (hnow' ▸ hlate)

/-- The pacemaker is stopped after the first round, and started again before it has left its loop. -/
def startedTwice : List PmEvent :=
  [.enter 0, hears 1 1, plainRound 1, .stop, .start, plainRound 2]

/-- Target 0 is heard of once, and then not again. -/
def fallsSilent : List PmEvent := [hears 1 5, plainRound 5]

def silentRounds : List PmEvent := (List.range 35).map fun k => plainRound (k + 6)

set_option maxRecDepth 10000 in
/-- The target is alive at the start, and dead at the end. -/
theorem failure_detection_in_time_fallsSilent :
    ((((firstLoop 1 0).run startedTwice).doPacemaker 4).run fallsSilent).station.node.sdev.alive 0 = true ∧
      ((((((firstLoop 1 0).run startedTwice).doPacemaker 4).run fallsSilent).run silentRounds).step
        (plainRound 41)).station.node.sdev.alive 0 = false := by
  have hlid : (firstLoop 1 0).station.node.sdev.targets[0]? = some (registerPeer 2) := rfl
  have henters : ((firstLoop 1 0).run startedTwice).Enters :=
    ⟨by decide +kernel, by decide +kernel, by decide +kernel⟩
  have hmeets : Meets PmLoop.step (Runs 1) (((firstLoop 1 0).run startedTwice).doPacemaker 4)
      ([hears 1 5] ++ [plainRound 5] ++ silentRounds ++ [plainRound 41]) := by decide +kernel
  have hstamps : Increasing (outputs PmLoop.step (seen 0) (firstLoop 1 0)
      (startedTwice ++ .enter 4 :: ([hears 1 5] ++ [plainRound 5] ++ silentRounds))) := by decide +kernel
  have hsilent : Silent (outputs PmLoop.step (seen 0)
      ((((firstLoop 1 0).run startedTwice).doPacemaker 4).run fallsSilent) silentRounds) := by
    unfold Silent
    decide +kernel
  exact ⟨by decide +kernel,
    (failure_detection_in_time hlid henters hmeets hstamps).2 hsilent (by decide +kernel)⟩

end PmLoop

end XlaneLkm
