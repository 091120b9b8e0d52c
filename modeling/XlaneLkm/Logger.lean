import XlaneLkm.Types
import Mathlib.Logic.Function.Basic

/-!
# Loggers, time stamps and heartbeat metrics

`logger.c` in the build that computes metrics, and `kernel_ts.c`. A log is an array and the number of
its entries. `AsgardLogger.written` and `AsgardTimestampLogs.written` are history variables of ours.
-/

namespace XlaneLkm

open MachineInt

inductive LoggerState where
  | running | ready | uninit | logFull
  deriving DecidableEq

inductive LeEventType where
  | followerTimeout | candidateTimeout
  | followerAcceptNewLeader | candidateAcceptNewLeader | leaderAcceptNewLeader
  | followerBecomeCandidate | candidateBecomeLeader
  | startConsensus | voteForCandidate | candidateAcceptVote
  | replyAppendSuccess | replyAppendFail
  | consensusRequest | gotConsensusOnValue | startLogRep
  | ingressPacket
  deriving DecidableEq

/-- `struct logger_event`; `write_log` leaves the two other fields as they are. -/
structure LoggerEvent where
  timestampTcs : Nat
  type : LeEventType

structure AsgardLogger where
  state : LoggerState
  currentEntries : Nat
  events : Nat → LoggerEvent
  /-- Indices of the events written to, newest first. -/
  written : List Nat

namespace AsgardLogger

/-- The events come from the allocator as they are. -/
def initLogger (events : Nat → LoggerEvent) : AsgardLogger where
  state := .ready
  currentEntries := 0
  events := events
  written := []

/-- `logger_state_transition_to`. -/
def stateTransitionTo (slog : AsgardLogger) (state : LoggerState) : AsgardLogger :=
  { slog with state := state }

def writeLog (slog : AsgardLogger) (type : LeEventType) (tcs : Nat) : AsgardLogger × Option Errno :=
  if slog.state ≠ .running then (slog, none)
  else if slog.currentEntries > loggerEventLimit then (slog.stateTransitionTo .logFull, some .enomem)
  else
    ({ slog with
        events := Function.update slog.events slog.currentEntries ⟨tcs, type⟩
        currentEntries := slog.currentEntries + 1
        written := slog.currentEntries :: slog.written }, none)

end AsgardLogger

/-! ### Time stamps -/

inductive TsState where
  | running | ready | uninit | logFull
  deriving DecidableEq

structure AsgardTimestampItem where
  timestampTcs : Nat
  targetId : Int

structure AsgardTimestampLogs where
  currentTimestamps : Nat
  timestampItems : Nat → AsgardTimestampItem
  /-- Indices of the items written to, newest first. -/
  written : List Nat

/-- The time stamps of a device: `ts_state` and `stats`. -/
structure AsgardStats where
  tsState : TsState
  timestampLogs : Fin asgardNumTsLogTypes → AsgardTimestampLogs

namespace AsgardStats

/-- The items come from the allocator as they are. -/
def initTimestamping (items : Fin asgardNumTsLogTypes → Nat → AsgardTimestampItem) : AsgardStats where
  tsState := .ready
  timestampLogs logid := ⟨0, items logid, []⟩

def asgardTsStop (sdev : AsgardStats) : AsgardStats × Option Errno :=
  if sdev.tsState ≠ .running then (sdev, some .eperm) else ({ sdev with tsState := .ready }, none)

def asgardTsStart (sdev : AsgardStats) : AsgardStats × Option Errno :=
  if sdev.tsState ≠ .ready then (sdev, some .eperm) else ({ sdev with tsState := .running }, none)

def asgardWriteTimestamp (sdev : AsgardStats) (logid : Fin asgardNumTsLogTypes) (cycles : Nat)
    (targetId : Int) : AsgardStats × Option Errno :=
  let logs := sdev.timestampLogs logid
  if logs.currentTimestamps > timestampArrayLimit then
    ({ sdev.asgardTsStop.1 with tsState := .logFull }, some .enomem)
  else
    ({ sdev with
        timestampLogs := Function.update sdev.timestampLogs logid
          { timestampItems := Function.update logs.timestampItems logs.currentTimestamps
              ⟨cycles, targetId⟩
            currentTimestamps := logs.currentTimestamps + 1
            written := logs.currentTimestamps :: logs.written } }, none)

def asgardResetStats (sdev : AsgardStats) : AsgardStats × Option Errno :=
  if sdev.tsState = .running then (sdev, some .eperm)
  else if sdev.tsState ≠ .ready then (sdev, some .eperm)
  else
    ({ sdev with
        timestampLogs := fun logid => { sdev.timestampLogs logid with currentTimestamps := 0 } }, none)

end AsgardStats

/-! ### Heartbeat metrics -/

structure IngressHbMetrics where
  avgJitter : Int
  maxJitter : Int
  minJitter : Int
  hbCounter : Nat
  maxLatency : Int
  minLatency : Int
  avgLatency : Int
  lastTs : Nat
  lastDelta : Int

/-- As `init_asgard_device` sets them: `ULONG_MAX` goes to a field of type `int64_t`. Nothing sets
`last_delta`. -/
def IngressHbMetrics.init (lastDelta : Int) : IngressHbMetrics where
  avgJitter := 0
  maxJitter := 0
  minJitter := i64 18446744073709551615
  hbCounter := 0
  maxLatency := 0
  minLatency := i64 18446744073709551615
  avgLatency := 0
  lastTs := 0
  lastDelta := lastDelta

/-- What a device logs about the heartbeats it receives: the loggers of `struct asgard_ingress_logger`
by their states (`none` for NULL), `pminfo.hbi` and the metrics in `struct cluster_info`. -/
structure IngressLogger where
  perNodeLogger : Nat → Option LoggerState
  hbi : Nat
  hbMetrics : Nat → IngressHbMetrics

def calcAvg (avg newVal n : Int) : Int :=
  if n ≤ 0 then 0 else i64 (avg + (i64 (newVal - avg)).tdiv n)

/-- The latency and jitter part of `write_in_hb_to_log`, behind the increment of the counter. -/
def IngressHbMetrics.update (m : IngressHbMetrics) (hbi tcs : Nat) : IngressHbMetrics :=
  let delta := i64 (tcs - m.lastTs)
  let n := i64 (u64 (m.hbCounter - 1))
  let jitter := i64 (hbi - delta)
  { m with
    lastDelta := delta
    avgLatency := calcAvg m.avgLatency delta n
    maxLatency := if m.maxLatency < delta then delta else m.maxLatency
    minLatency := if m.minLatency > delta then delta else m.minLatency
    avgJitter := calcAvg m.avgJitter jitter n
    maxJitter := if m.maxJitter < jitter then jitter else m.maxJitter
    minJitter := if m.minJitter > jitter then jitter else m.minJitter }

/-- What `write_in_hb_to_log` does to the metrics of the node. -/
def IngressHbMetrics.received (m : IngressHbMetrics) (hbi tcs : Nat) : IngressHbMetrics :=
  let m := { m with hbCounter := u64 (m.hbCounter + 1) }
  let m := if m.lastTs ≠ 0 then m.update hbi tcs else m
  { m with lastTs := tcs }

def IngressLogger.writeInHbToLog (ailog : IngressLogger) (tcs : Nat) (nodeId : Int) :
    IngressLogger × Option Errno :=
  if nodeId < 0 ∨ nodeId ≥ clusterSize then (ailog, some .einval)
  else
    match ailog.perNodeLogger nodeId.toNat with
    | none => (ailog, some .einval)
    | some state =>
      if state ≠ .running then (ailog, none)
      else
        ({ ailog with
            hbMetrics := Function.update ailog.hbMetrics nodeId.toNat
              ((ailog.hbMetrics nodeId.toNat).received ailog.hbi tcs) }, none)

end XlaneLkm
