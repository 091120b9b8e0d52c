import XlaneLkm.Logger
import XlaneLkm.Library.Run

/-!
# Full logs

A log of events and a log of time stamps take an entry while they have at most as many as their array has
slots, which is one too many. `write_in_hb_to_log` asks for less in the build that stores time stamps.
-/

namespace XlaneLkm

open Run (Meets meets_iff)

def Within (limit : Nat) (written : List Nat) : Prop := ∀ i ∈ written, i < limit

theorem within_cons {limit i : Nat} {written : List Nat} :
    Within limit (i :: written) ↔ i < limit ∧ Within limit written :=
  List.forall_mem_cons

/-! ### Events -/

inductive LoggerCall where
  | writeLog (type : LeEventType) (tcs : Nat)
  | stateTransitionTo (state : LoggerState)

namespace AsgardLogger

variable {slog : AsgardLogger}

def step (slog : AsgardLogger) : LoggerCall → AsgardLogger
  | .writeLog type tcs => (slog.writeLog type tcs).1
  | .stateTransitionTo state => slog.stateTransitionTo state

def InBounds (slog : AsgardLogger) : Prop := Within loggerEventLimit slog.written

/-- A full log rejects the event and keeps what it has. A logger that does not run returns 0. -/
def RejectsFull (slog : AsgardLogger) : LoggerCall → Prop
  | .writeLog type tcs =>
    slog.currentEntries ≥ loggerEventLimit →
      ((slog.writeLog type tcs).2 = none → slog.state ≠ .running) ∧
        (slog.writeLog type tcs).1.currentEntries = slog.currentEntries ∧
        (slog.writeLog type tcs).1.events = slog.events
  | .stateTransitionTo _ => True

/-- The event is not the one after the last slot. -/
def HasSlot (slog : AsgardLogger) : LoggerCall → Prop
  | .writeLog .. => slog.state = .running → slog.currentEntries ≠ loggerEventLimit
  | .stateTransitionTo _ => True

/-- A running logger whose slots are all taken writes behind the last one. -/
theorem writeLog_past_end (hrunning : slog.state = .running) (hlast : slog.currentEntries = loggerEventLimit)
    (type : LeEventType) (tcs : Nat) : ¬(slog.step (.writeLog type tcs)).InBounds := by
  intro hkept
  rw [step, writeLog, if_neg (not_not.mpr hrunning), if_neg (by omega), InBounds, within_cons] at hkept
  exact Nat.ne_of_lt hkept.1 hlast

theorem step_iff (h : slog.InBounds) (call : LoggerCall) :
    (slog.step call).InBounds ∧ slog.RejectsFull call ↔ slog.HasSlot call := by
  cases call with
  | stateTransitionTo state => exact iff_of_true ⟨h, trivial⟩ trivial
  | writeLog type tcs =>
    constructor
    · exact fun hkept hrunning hlast => writeLog_past_end hrunning hlast type tcs hkept.1
    · intro hslot
      rw [step, RejectsFull, writeLog]
      by_cases hrunning : slog.state = .running
      · rw [if_neg (not_not.mpr hrunning)]
        by_cases hfull : slog.currentEntries > loggerEventLimit
        · rw [if_pos hfull]
          exact ⟨h, fun _ => ⟨fun herr => absurd herr (Option.some_ne_none _), rfl, rfl⟩⟩
        · have hlt : slog.currentEntries < loggerEventLimit :=
            lt_of_le_of_ne (Nat.not_lt.mp hfull) (hslot hrunning)
          rw [if_neg hfull, InBounds, within_cons]
          exact ⟨⟨hlt, h⟩, fun hge => absurd hge (Nat.not_le.mpr hlt)⟩
      · rw [if_pos hrunning]
        exact ⟨h, fun _ => ⟨fun _ => hrunning, rfl, rfl⟩⟩

/-- A running logger takes events up to one more than its slots. -/
theorem run_writeLog (slog : AsgardLogger) (hrunning : slog.state = .running) (type : LeEventType)
    (tcs : Nat) {k : Nat} (hk : slog.currentEntries + k ≤ loggerEventLimit + 1) :
    let slog' := Run.run step slog (List.replicate k (.writeLog type tcs))
    slog'.state = .running ∧ slog'.currentEntries = slog.currentEntries + k := by
  refine Run.run_replicate_count step currentEntries (fun s => s.state = .running)
    (fun s hs hlt => ?_) hrunning hk
  rw [step, writeLog, if_neg (not_not.mpr hs), if_neg (by omega)]
  exact ⟨hs, rfl⟩

end AsgardLogger

/-! ### Time stamps -/

inductive TsCall where
  | writeTimestamp (logid : Fin asgardNumTsLogTypes) (cycles : Nat) (targetId : Int)
  | resetStats
  | tsStart
  | tsStop

namespace AsgardStats

variable {sdev : AsgardStats}

def step (sdev : AsgardStats) : TsCall → AsgardStats
  | .writeTimestamp logid cycles targetId => (sdev.asgardWriteTimestamp logid cycles targetId).1
  | .resetStats => sdev.asgardResetStats.1
  | .tsStart => sdev.asgardTsStart.1
  | .tsStop => sdev.asgardTsStop.1

def InBounds (sdev : AsgardStats) : Prop :=
  ∀ logid, Within timestampArrayLimit (sdev.timestampLogs logid).written

/-- A full log rejects the time stamp, and all logs keep what they have. -/
def RejectsFull (sdev : AsgardStats) : TsCall → Prop
  | .writeTimestamp logid cycles targetId =>
    (sdev.timestampLogs logid).currentTimestamps ≥ timestampArrayLimit →
      (sdev.asgardWriteTimestamp logid cycles targetId).2 ≠ none ∧
        (sdev.asgardWriteTimestamp logid cycles targetId).1.timestampLogs = sdev.timestampLogs
  | _ => True

/-- The time stamp is not the one after the last slot. -/
def HasSlot (sdev : AsgardStats) : TsCall → Prop
  | .writeTimestamp logid _ _ => (sdev.timestampLogs logid).currentTimestamps ≠ timestampArrayLimit
  | _ => True

/-- Apart from time stamps, no call writes to an item. -/
theorem inBounds_step (h : sdev.InBounds) {call : TsCall}
    (hcall : ∀ logid cycles targetId, call ≠ .writeTimestamp logid cycles targetId) :
    (sdev.step call).InBounds := by
  cases call with
  | writeTimestamp logid cycles targetId => exact absurd rfl (hcall logid cycles targetId)
  | resetStats =>
    rw [step, asgardResetStats]
    split_ifs <;> exact h
  | tsStart =>
    rw [step, asgardTsStart]
    split_ifs <;> exact h
  | tsStop =>
    rw [step, asgardTsStop]
    split_ifs <;> exact h

theorem asgardTsStop_timestampLogs (sdev : AsgardStats) :
    sdev.asgardTsStop.1.timestampLogs = sdev.timestampLogs := by
  rw [asgardTsStop]
  split_ifs <;> rfl

theorem writeTimestamp_written (logid : Fin asgardNumTsLogTypes) (cycles : Nat) (targetId : Int)
    (hroom : ¬(sdev.timestampLogs logid).currentTimestamps > timestampArrayLimit) (i) :
    ((sdev.asgardWriteTimestamp logid cycles targetId).1.timestampLogs i).written =
      if i = logid then
        (sdev.timestampLogs logid).currentTimestamps :: (sdev.timestampLogs logid).written
      else (sdev.timestampLogs i).written := by
  rw [asgardWriteTimestamp]
  dsimp only
  rw [if_neg hroom]
  by_cases hi : i = logid
  · dsimp only
    rw [if_pos hi, hi, Function.update_self]
  · dsimp only
    rw [if_neg hi, Function.update_of_ne hi]

/-- A log whose slots are all taken is written behind the last one. -/
theorem writeTimestamp_past_end {logid : Fin asgardNumTsLogTypes}
    (hlast : (sdev.timestampLogs logid).currentTimestamps = timestampArrayLimit) (cycles : Nat)
    (targetId : Int) : ¬(sdev.step (.writeTimestamp logid cycles targetId)).InBounds := by
  intro hkept
  have hwritten := hkept logid
  rw [step, writeTimestamp_written logid cycles targetId (by omega), if_pos rfl, within_cons] at hwritten
  exact Nat.ne_of_lt hwritten.1 hlast

theorem writeTimestamp_full (logid : Fin asgardNumTsLogTypes) (cycles : Nat) (targetId : Int)
    (hfull : (sdev.timestampLogs logid).currentTimestamps > timestampArrayLimit) :
    (sdev.asgardWriteTimestamp logid cycles targetId).2 ≠ none ∧
      (sdev.asgardWriteTimestamp logid cycles targetId).1.timestampLogs = sdev.timestampLogs := by
  rw [asgardWriteTimestamp]
  dsimp only
  rw [if_pos hfull]
  exact ⟨Option.some_ne_none _, sdev.asgardTsStop_timestampLogs⟩

theorem step_iff (h : sdev.InBounds) (call : TsCall) :
    (sdev.step call).InBounds ∧ sdev.RejectsFull call ↔ sdev.HasSlot call := by
  cases call with
  | resetStats => exact iff_of_true ⟨inBounds_step h (by simp), trivial⟩ trivial
  | tsStart => exact iff_of_true ⟨inBounds_step h (by simp), trivial⟩ trivial
  | tsStop => exact iff_of_true ⟨inBounds_step h (by simp), trivial⟩ trivial
  | writeTimestamp logid cycles targetId =>
    rw [step, RejectsFull, HasSlot]
    by_cases hfull : (sdev.timestampLogs logid).currentTimestamps > timestampArrayLimit
    · have hrejected := writeTimestamp_full logid cycles targetId hfull
      refine iff_of_true ⟨fun i => ?_, fun _ => hrejected⟩ (Nat.ne_of_gt hfull)
      rw [hrejected.2]
      exact h i
    · constructor
      · exact fun hkept hlast => writeTimestamp_past_end hlast cycles targetId hkept.1
      · intro hslot
        have hlt : (sdev.timestampLogs logid).currentTimestamps < timestampArrayLimit :=
          lt_of_le_of_ne (Nat.not_lt.mp hfull) hslot
        refine ⟨fun i => ?_, fun hge => absurd hge (Nat.not_le.mpr hlt)⟩
        rw [writeTimestamp_written logid cycles targetId hfull]
        by_cases hi : i = logid
        · rw [if_pos hi, within_cons]
          exact ⟨hlt, h logid⟩
        · rw [if_neg hi]
          exact h i

theorem run_writeTimestamp (sdev : AsgardStats) (logid : Fin asgardNumTsLogTypes) (cycles : Nat)
    (targetId : Int) {k : Nat}
    (hk : (sdev.timestampLogs logid).currentTimestamps + k ≤ timestampArrayLimit + 1) :
    ((Run.run step sdev (List.replicate k (.writeTimestamp logid cycles targetId))).timestampLogs
      logid).currentTimestamps = (sdev.timestampLogs logid).currentTimestamps + k := by
  refine (Run.run_replicate_count step (fun s => (s.timestampLogs logid).currentTimestamps)
    (fun _ => True) (fun s _ hlt => ⟨trivial, ?_⟩) trivial hk).2
  rw [step, asgardWriteTimestamp]
  dsimp only
  rw [if_neg (by omega)]
  dsimp only
  rw [Function.update_self]

end AsgardStats

/-- **Full logs.** All indices are within the arrays and full logs stay as they are, in every run of calls,
if and only if none of the calls comes when exactly all slots are taken. -/
theorem logs_in_bounds_iff (events : Nat → LoggerEvent)
    (items : Fin asgardNumTsLogTypes → Nat → AsgardTimestampItem) (calls : List LoggerCall)
    (tsCalls : List TsCall) :
    (Meets AsgardLogger.step (fun slog call => (slog.step call).InBounds ∧ slog.RejectsFull call)
        (.initLogger events) calls ↔
      Meets AsgardLogger.step AsgardLogger.HasSlot (.initLogger events) calls) ∧
    (Meets AsgardStats.step (fun sdev call => (sdev.step call).InBounds ∧ sdev.RejectsFull call)
        (.initTimestamping items) tsCalls ↔
      Meets AsgardStats.step AsgardStats.HasSlot (.initTimestamping items) tsCalls) := by
  constructor
  · apply meets_iff AsgardLogger.step (fun _ call h => AsgardLogger.step_iff h call)
    · exact fun _ call h hslot => ((AsgardLogger.step_iff h call).mpr hslot).1
    · exact fun i hi => absurd hi (List.not_mem_nil (a := i))
  · apply meets_iff AsgardStats.step (fun _ call h => AsgardStats.step_iff h call)
    · exact fun _ call h hslot => ((AsgardStats.step_iff h call).mpr hslot).1
    · exact fun _ i hi => absurd hi (List.not_mem_nil (a := i))

/-- **One entry too many.** A running logger writes its entry 100000, and so does a log of time stamps. -/
theorem logs_overrun :
    (¬∀ (events : Nat → LoggerEvent) (calls : List LoggerCall),
      Meets AsgardLogger.step (fun slog call => (slog.step call).InBounds ∧ slog.RejectsFull call)
        (.initLogger events) calls) ∧
    ¬∀ (items : Fin asgardNumTsLogTypes → Nat → AsgardTimestampItem) (tsCalls : List TsCall),
      Meets AsgardStats.step (fun sdev call => (sdev.step call).InBounds ∧ sdev.RejectsFull call)
        (.initTimestamping items) tsCalls := by
  constructor
  · intro hall
    have hmeets := hall (fun _ => ⟨0, .startConsensus⟩) (.stateTransitionTo .running ::
      (List.replicate loggerEventLimit (.writeLog .startConsensus 0) ++ [.writeLog .startConsensus 0]))
    have hlast := ((Run.meets_append _).mp hmeets.2).2.1.1
    have hrun := AsgardLogger.run_writeLog (k := loggerEventLimit)
      ((AsgardLogger.initLogger fun _ => ⟨0, .startConsensus⟩).stateTransitionTo .running) rfl
      .startConsensus 0 (Nat.zero_add loggerEventLimit ▸ Nat.le_succ _)
    exact AsgardLogger.writeLog_past_end hrun.1 (hrun.2.trans (Nat.zero_add _)) .startConsensus 0 hlast
  · intro hall
    let logid : Fin asgardNumTsLogTypes := ⟨0, by decide⟩
    have hmeets := hall (fun _ _ => ⟨0, 0⟩)
      (List.replicate timestampArrayLimit (.writeTimestamp logid 0 0) ++ [.writeTimestamp logid 0 0])
    have hlast := ((Run.meets_append _).mp hmeets).2.1.1
    have hrun := AsgardStats.run_writeTimestamp (k := timestampArrayLimit)
      (AsgardStats.initTimestamping fun _ _ => ⟨0, 0⟩) logid 0 0
      (Nat.zero_add timestampArrayLimit ▸ Nat.le_succ _)
    exact AsgardStats.writeTimestamp_past_end (hrun.trans (Nat.zero_add _)) 0 0 hlast

end XlaneLkm
