import XlaneLkm.Process

/-!
# Pacemaker and membership

The heartbeat part of `pacemaker.c`, `check_warmup_state` of `membership.c` and the synchronous part
of `pkthandler.c`. The records of a received packet are handled later, by a work item of their own.
-/

namespace XlaneLkm

open MachineInt

/-- `update_aliveness_states` for one target. -/
def TargetInfo.updateAliveness (t : TargetInfo) : TargetInfo :=
  if t.curWaitingInterval ≠ 0 then { t with curWaitingInterval := i32 (t.curWaitingInterval - 1) }
  else if t.lhbTs = t.chbTs then { t with alive := false, curWaitingInterval := t.respFactor }
  else { t with lhbTs := t.chbTs, curWaitingInterval := t.respFactor }

namespace Node

def getLowestAliveId (n : Node) : Nat :=
  n.sdev.targets.foldl (fun curLow t =>
    if t.alive ∧ curLow > u32 t.clusterId then u32 t.clusterId else curLow) n.sdev.clusterId

def updateLeader (n : Node) : Node :=
  if n.sdev.warmupState = .warmingUp then n
  else if n.sdev.curLeaderLid = -1 ∨ n.sdev.alive n.sdev.curLeaderLid.toNat = false then
    if n.getLowestAliveId = n.sdev.clusterId then
      if n.priv.nstate = .candidate ∧ n.priv.candidateCounter < 50 then
        { n with priv.candidateCounter := n.priv.candidateCounter + 1 }
      else n.nodeTransition .candidate
    else n
  else n

/-- `update_aliveness_states` for every target. -/
def updateAlivenessStates (n : Node) : Node :=
  { n with sdev.targets := n.sdev.targets.map TargetInfo.updateAliveness }

/-- `emit_pkts_scheduled`: every target gets a heartbeat, with or without a record. -/
def emitPktsScheduled (n : Node) : Node :=
  (List.range n.numOfTargets).foldl (fun n i => n.send (.target i) none) n

/-- The scheduled heartbeat of `do_pacemaker`, up to the update of the aliveness states. -/
def heartbeat (n : Node) : Node :=
  let n := { n with sdev.hbInterval := (n.sdev.hbInterval + 1) % 4294967296 }
  let n := n.emitPktsScheduled
  ((List.range n.numOfTargets).foldl preHbSetup n).updateAlivenessStates

def tick (n : Node) : Node :=
  if n.sdev.pmState ≠ .emitting then n
  else
    let n := n.heartbeat
    checkPendingLogRep (if n.priv.nstate ≠ .leader then n.updateLeader else n)

/-- What `check_warmup_state` does once enough targets are alive. -/
def finishWarmup (n : Node) : Node :=
  updateLeader { n.consensusStart with sdev.warmupState := .warmedUp }

/-- `check_warmup_state`: the return value tells whether the packet is dropped. -/
def checkWarmupState (n : Node) : Node × Bool :=
  if n.sdev.warmupState = .warmingUp then
    if n.numOfTargets < 2 then (n, true)
    else if n.sdev.targets.countP (fun t => t.alive) < 2 then (n, true)
    else (n.finishWarmup, false)
  else (n, false)

/-- `do_post_payload` for a registered peer, up to the work item it queues. -/
def doPostPayload (n : Node) (remoteLid : Nat) (postTs : Nat) : Node :=
  if n.sdev.pmState ≠ .emitting then n
  else
    let targets := n.sdev.targets.modify remoteLid fun t => { t with chbTs := postTs, alive := true }
    (checkWarmupState { n with sdev.targets := targets }).1

def preparePmLoop (n : Node) : Node :=
  if n.sdev.pmState = .emitting then n
  else { n with sdev.pmState := .emitting, sdev.warmupState := .warmingUp }

/-- What the pacemaker does on leaving its loop. -/
def postworkPmLoop (n : Node) : Node := n.consensusStop.asgardPmStop

/-- What `do_pacemaker` does if `hbi` is 0. -/
def failPmLoop (n : Node) : Node := { n with sdev.pmState := .failed }

end Node

end XlaneLkm
