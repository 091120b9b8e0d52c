import XlaneLkm.Proof.Targets
import Mathlib.Data.List.Induction

/-!
# The failure detector

`update_aliveness_states` compares two timestamps whenever a countdown has run out. Between two
comparisons of a target lie `resp_factor` ticks, and the earlier one has made the timestamps equal: a
target found dead has been silent all that time, and a silent one is found dead at the second
comparison at the latest.
-/

namespace XlaneLkm

open MachineInt
open Run (Meets)

/-- What happens to a target after its registration. -/
inductive TargetEvent where
  | received (postTs : Nat)
  | tick
  deriving DecidableEq

namespace TargetEvent

def stamp : TargetEvent → Option Nat
  | .received postTs => some postTs
  | .tick => none

/-- The timestamps of the receptions are positive and strictly increasing. -/
def Increasing (events : List TargetEvent) : Prop :=
  (0 :: events.filterMap stamp).Pairwise (· < ·)

instance Increasing.decidable (events : List TargetEvent) : Decidable (Increasing events) :=
  inferInstanceAs (Decidable (List.Pairwise _ _))

def ticks (events : List TargetEvent) : Nat := events.count .tick

def Silent (events : List TargetEvent) : Prop := ∀ e ∈ events, e = .tick

theorem Silent.of_suffix {window events : List TargetEvent} (h : Silent events)
    (hsuffix : window <:+ events) : Silent window := fun e he => h e (hsuffix.subset he)

end TargetEvent

namespace TargetInfo

open TargetEvent

def step (t : TargetInfo) : TargetEvent → TargetInfo
  | .received postTs => t.received postTs
  | .tick => t.updateAliveness

def run (t : TargetInfo) (events : List TargetEvent) : TargetInfo := Run.run step t events

theorem run_snoc (t : TargetInfo) (events : List TargetEvent) (e : TargetEvent) :
    t.run (events ++ [e]) = (t.run events).step e :=
  Run.run_append step t events [e]

theorem map_run_nil (t : Option TargetInfo) : t.map (·.run []) = t := by
  cases t with
  | none => rfl
  | some t => rfl

/-- A target as it is registered, with a `resp_factor` of its own. -/
def registered (clusterId respFactor : Int) : TargetInfo :=
  { registerPeer clusterId with respFactor := respFactor }

variable {t : TargetInfo} {r : Int}

/-! ### One tick -/

/-- The countdown is within the range of its type and below what it is reset to. -/
theorem updateAliveness_of_waiting (hlow : 0 < t.curWaitingInterval)
    (hhigh : t.curWaitingInterval ≤ 2147483647) :
    t.updateAliveness = { t with curWaitingInterval := t.curWaitingInterval - 1 } := by
  rw [updateAliveness, if_pos hlow.ne', i32_eq_self (by omega) (by omega)]

theorem updateAliveness_of_silent (hwait : t.curWaitingInterval = 0) (hsilent : t.lhbTs = t.chbTs) :
    t.updateAliveness = { t with alive := false, curWaitingInterval := t.respFactor } := by
  rw [updateAliveness, if_neg (not_not.mpr hwait), if_pos hsilent]

theorem updateAliveness_of_heard (hwait : t.curWaitingInterval = 0) (hheard : t.lhbTs ≠ t.chbTs) :
    t.updateAliveness = { t with lhbTs := t.chbTs, curWaitingInterval := t.respFactor } := by
  rw [updateAliveness, if_neg (not_not.mpr hwait), if_neg hheard]

theorem updateAliveness_alive (h : t.alive = false) : t.updateAliveness.alive = false := by
  unfold updateAliveness
  split_ifs
  · exact h
  · rfl
  · exact h

theorem compares_of_dies (halive : t.alive = true) (hdead : t.updateAliveness.alive = false) :
    t.curWaitingInterval = 0 ∧ t.lhbTs = t.chbTs := by
  unfold updateAliveness at hdead
  split_ifs at hdead with hwait hsilent
  · cases halive.symm.trans hdead
  · exact ⟨not_not.mp hwait, hsilent⟩
  · cases halive.symm.trans hdead

/-! ### Completeness -/

theorem run_ticks_dead (n : Nat) (h : t.alive = false) :
    (t.run (List.replicate n .tick)).alive = false := by
  induction n generalizing t with
  | zero => exact h
  | succ n ih => exact ih (updateAliveness_alive h)

/-- Once the timestamps are equal, the next comparison finds the target dead. -/
theorem run_ticks_silent (n : Nat) (hlow : 0 ≤ t.curWaitingInterval)
    (hhigh : t.curWaitingInterval ≤ 2147483647) (hsilent : t.lhbTs = t.chbTs)
    (hn : t.curWaitingInterval < n) : (t.run (List.replicate n .tick)).alive = false := by
  induction n generalizing t with
  | zero => omega
  | succ n ih =>
    change (t.updateAliveness.run (List.replicate n .tick)).alive = false
    by_cases hwait : t.curWaitingInterval = 0
    · rw [updateAliveness_of_silent hwait hsilent]
      exact run_ticks_dead n rfl
    · rw [updateAliveness_of_waiting (by omega) hhigh]
      exact ih (by dsimp only; omega) (by dsimp only; omega) hsilent (by dsimp only; omega)

/-- The first comparison makes the timestamps equal, the second one finds the target dead. -/
theorem run_ticks_of_lt (n : Nat) (hlow : 0 ≤ t.curWaitingInterval)
    (hhigh : t.curWaitingInterval ≤ 2147483647) (hresp : 0 ≤ t.respFactor)
    (hint : t.respFactor ≤ 2147483647) (hn : t.curWaitingInterval + t.respFactor + 1 < n) :
    (t.run (List.replicate n .tick)).alive = false := by
  induction n generalizing t with
  | zero => omega
  | succ n ih =>
    change (t.updateAliveness.run (List.replicate n .tick)).alive = false
    by_cases hwait : t.curWaitingInterval = 0
    · by_cases hsilent : t.lhbTs = t.chbTs
      · rw [updateAliveness_of_silent hwait hsilent]
        exact run_ticks_dead n rfl
      · rw [updateAliveness_of_heard hwait hsilent]
        exact run_ticks_silent n hresp hint rfl (by dsimp only; omega)
    · rw [updateAliveness_of_waiting (by omega) hhigh]
      exact ih (by dsimp only; omega) (by dsimp only; omega) hresp hint (by dsimp only; omega)

/-! ### Accuracy -/

/-- What is known of a target after the given events. A target compared before has a window of events
since then, whose ticks the countdown counts, and equal timestamps mean that the window is silent. -/
structure Watched (r : Int) (past : List TargetEvent) (t : TargetInfo) : Prop where
  respFactor : t.respFactor = r
  waiting_nonneg : 0 ≤ t.curWaitingInterval
  waiting_le : t.curWaitingInterval ≤ 2147483647
  chb_mem : t.chbTs ∈ 0 :: past.filterMap stamp
  lhb_le : t.lhbTs ≤ t.chbTs
  window : (t.lhbTs = 0 ∧ (t.chbTs = 0 → t.alive = false)) ∨
    ∃ window, (.tick :: window) <:+ past ∧ ticks window + t.curWaitingInterval = r ∧
      (t.lhbTs = t.chbTs → Silent window)

theorem watched_registered (clusterId : Int) (r : Int) : Watched r [] (registered clusterId r) where
  respFactor := rfl
  waiting_nonneg := by simp [registered, registerPeer]
  waiting_le := by simp [registered, registerPeer]
  chb_mem := List.mem_cons_self
  lhb_le := le_rfl
  window := .inl ⟨rfl, fun _ => rfl⟩

theorem Watched.received {past : List TargetEvent} (h : Watched r past t) {postTs : Nat}
    (hnew : t.chbTs < postTs) : Watched r (past ++ [.received postTs]) (t.received postTs) where
  respFactor := h.respFactor
  waiting_nonneg := h.waiting_nonneg
  waiting_le := h.waiting_le
  chb_mem := by simp [TargetInfo.received, stamp]
  lhb_le := h.lhb_le.trans hnew.le
  window := by
    have hlhb := h.lhb_le
    rcases h.window with ⟨hzero, -⟩ | ⟨window, ⟨before, hpast⟩, hticks, -⟩
    · refine .inl ⟨hzero, fun hchb => ?_⟩
      simp only [TargetInfo.received] at hchb
      omega
    · refine .inr ⟨window ++ [.received postTs], ⟨before, by simp [← hpast]⟩, ?_, fun heq => ?_⟩
      · simpa [ticks, TargetInfo.received] using hticks
      · simp only [TargetInfo.received] at heq
        omega

theorem Watched.tick {past : List TargetEvent} (h : Watched r past t) (hr : 0 ≤ r)
    (hint : r ≤ 2147483647) : Watched r (past ++ [.tick]) t.updateAliveness := by
  have hlow := h.waiting_nonneg
  have hmem : t.chbTs ∈ 0 :: (past ++ [TargetEvent.tick]).filterMap stamp := by
    simpa [stamp] using h.chb_mem
  have hfresh : TargetEvent.tick :: [] <:+ past ++ [TargetEvent.tick] := List.suffix_append _ _
  by_cases hwait : t.curWaitingInterval = 0
  · by_cases hsilent : t.lhbTs = t.chbTs
    · rw [updateAliveness_of_silent hwait hsilent, h.respFactor]
      exact ⟨rfl, hr, hint, hmem, h.lhb_le,
        .inr ⟨[], hfresh, by simp [ticks], fun _ _ he => absurd he List.not_mem_nil⟩⟩
    · rw [updateAliveness_of_heard hwait hsilent, h.respFactor]
      exact ⟨rfl, hr, hint, hmem, le_rfl,
        .inr ⟨[], hfresh, by simp [ticks], fun _ _ he => absurd he List.not_mem_nil⟩⟩
  · rw [updateAliveness_of_waiting (by omega) h.waiting_le]
    refine ⟨h.respFactor, by dsimp only; omega, ?_, hmem, h.lhb_le, ?_⟩
    · have := h.waiting_le
      dsimp only
      omega
    · rcases h.window with hfirst | ⟨window, ⟨before, hpast⟩, hticks, hquiet⟩
      · exact .inl hfirst
      · refine .inr ⟨window ++ [.tick], ⟨before, by simp [← hpast]⟩, ?_, fun heq e he => ?_⟩
        · simp only [ticks, List.count_append] at hticks ⊢
          simp
          omega
        · rcases List.mem_append.mp he with he | he
          · exact hquiet heq e he
          · exact List.mem_singleton.mp he

theorem Watched.run {past : List TargetEvent} (h : Watched r past t) (hr : 0 ≤ r)
    (hint : r ≤ 2147483647) (events : List TargetEvent) (hstamps : Increasing (past ++ events)) :
    Watched r (past ++ events) (t.run events) := by
  induction events using List.reverseRecOn with
  | nil => exact (List.append_nil past).symm ▸ h
  | append_singleton events e ih =>
    rw [← List.append_assoc] at hstamps ⊢
    rw [run_snoc]
    rw [Increasing, List.filterMap_append, ← List.cons_append, List.pairwise_append] at hstamps
    have hbefore := ih hstamps.1
    cases e with
    | received postTs =>
      exact hbefore.received (hstamps.2.2 _ hbefore.chb_mem postTs (by simp [stamp]))
    | tick => exact hbefore.tick hr hint

theorem Watched.markDead {past : List TargetEvent} (h : Watched r past t) :
    Watched r past t.markDead where
  respFactor := h.respFactor
  waiting_nonneg := h.waiting_nonneg
  waiting_le := h.waiting_le
  chb_mem := h.chb_mem
  lhb_le := h.lhb_le
  window := h.window.imp_left fun hfirst => ⟨hfirst.1, fun _ => rfl⟩

/-- Whatever ends the past with no more ticks than the countdown has counted is within the window. -/
theorem Watched.silent {past recent : List TargetEvent} (h : Watched r past t)
    (halive : t.alive = true) (hdead : t.updateAliveness.alive = false) (hrecent : recent <:+ past)
    (hticks : ticks recent ≤ r) : Silent recent := by
  obtain ⟨hwait, heq⟩ := compares_of_dies halive hdead
  rcases h.window with ⟨hzero, hnever⟩ | ⟨window, hwindow, hcount, hquiet⟩
  · cases halive.symm.trans (hnever (heq.symm.trans hzero))
  · rcases List.suffix_or_suffix_of_suffix hrecent hwindow with hin | hout
    · rcases List.suffix_cons_iff.mp hin with rfl | hin
      · simp only [ticks, List.count_cons_self] at hticks hcount
        omega
      · exact (hquiet heq).of_suffix hin
    · have hle : ticks (.tick :: window) ≤ ticks recent := hout.sublist.count_le _
      simp only [ticks, List.count_cons_self] at hle hticks hcount
      omega

/-- **The failure detector.** A tick takes a target from alive to dead only if no packet of it was
received since the `resp_factor + 1` ticks before began, and `2 * (resp_factor + 1)` ticks without a
packet leave it dead. -/
theorem failure_detector (clusterId : Int) (hr : 1 ≤ r) (hint : r ≤ 2147483647)
    (past : List TargetEvent) (hstamps : Increasing past) :
    let t := (registered clusterId r).run past
    (t.alive = true → t.updateAliveness.alive = false → ∀ recent, recent <:+ past →
      ticks recent ≤ r → Silent recent) ∧
    (t.curWaitingInterval ≤ r → ∀ n : Nat, 2 * (r + 1) ≤ n →
      (t.run (List.replicate n .tick)).alive = false) := by
  intro t
  have h : Watched r past t := (watched_registered clusterId r).run (by omega) hint past hstamps
  have hresp := h.respFactor
  refine ⟨fun halive hdead recent hrecent hticks => h.silent halive hdead hrecent hticks, ?_⟩
  intro hwait n hn
  exact run_ticks_of_lt n h.waiting_nonneg h.waiting_le (by omega) (by omega) (by omega)

/-- One packet, and as many ticks as lead up to the second comparison. -/
def onceHeard : List TargetEvent := .received 1 :: List.replicate 6 .tick

theorem failure_detector_onceHeard :
    Silent [.tick] ∧
      (((registered 2 1).run onceHeard).run (List.replicate 4 .tick)).alive = false := by
  have h := failure_detector 2 (r := 1) le_rfl (by decide) onceHeard (by decide)
  exact ⟨h.1 (by decide) (by decide) [.tick] (by decide) (by decide), h.2 (by decide) 4 (by decide)⟩

end TargetInfo

/-! ### The targets of a node -/

/-- What an event of a node is for one of its targets. -/
def Event.onTarget (lid : Nat) : Event → Option TargetEvent
  | .rx lid' ts => if lid' = lid then some (.received ts) else none
  | .tick => some .tick
  | _ => none

namespace Node

/-- The pacemaker emits, and the event does not end the run of the protocol. -/
def detects (n : Node) : Event → Prop
  | .stop | .pmStop => False
  | _ => n.sdev.pmState = .emitting

theorem step_target {n : Node} {e : Event} (h : n.detects e) (lid : Nat) :
    (n.step e).sdev.targets[lid]? =
      n.sdev.targets[lid]?.map (·.run (e.onTarget lid).toList) := by
  rw [step_targets]
  cases e with
  | rx lid' ts =>
    have hpm : n.sdev.pmState = .emitting := h
    rw [targetsAfter, if_pos hpm, List.getElem?_modify, Event.onTarget]
    split
    · rfl
    · exact (id_map _).trans (TargetInfo.map_run_nil _).symm
  | tick =>
    have hpm : n.sdev.pmState = .emitting := h
    rw [targetsAfter, if_pos hpm, List.getElem?_map]
    rfl
  | stop => cases h
  | pmStop => cases h
  | _ => exact (TargetInfo.map_run_nil _).symm

theorem run_target {n : Node} {events : List Event} (h : Meets step detects n events) (lid : Nat) :
    (run n events).sdev.targets[lid]? =
      n.sdev.targets[lid]?.map (·.run (events.filterMap (Event.onTarget lid))) := by
  induction events generalizing n with
  | nil => exact (TargetInfo.map_run_nil _).symm
  | cons e events ih =>
    have hevents : ∀ t : TargetInfo, (t.run (e.onTarget lid).toList).run
        (events.filterMap (Event.onTarget lid)) =
          t.run ((e :: events).filterMap (Event.onTarget lid)) := by
      intro t
      cases he : e.onTarget lid with
      | none => rw [List.filterMap_cons_none he]; rfl
      | some event => rw [List.filterMap_cons_some he]; rfl
    calc (run (n.step e) events).sdev.targets[lid]?
        = (n.step e).sdev.targets[lid]?.map (·.run (events.filterMap (Event.onTarget lid))) :=
          ih h.2
      _ = (n.sdev.targets[lid]?.map (·.run (e.onTarget lid).toList)).map
            (·.run (events.filterMap (Event.onTarget lid))) := by rw [step_target h.1]
      _ = n.sdev.targets[lid]?.map (·.run ((e :: events).filterMap (Event.onTarget lid))) := by
          rw [Option.map_map]
          exact congrArg (Option.map · _) (funext hevents)

end Node

end XlaneLkm
