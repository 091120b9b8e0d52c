import XlaneLkm.Replication

/-!
# The leader role

`leader.c` up to the packet handler, and the part of `pacemaker.c` that fills heartbeats. A leader
never touches `stable_idx`: `update_commit_idx` moves `commit_idx` and `last_applied` only.
-/

namespace XlaneLkm

open MachineInt

namespace SmLog

/-- The loop of `update_commit_idx` that clears valid flags, at index `i` with `k` iterations left. -/
def invalidateLoop (log : SmLog) (i : Int) : Nat → SmLog
  | 0 => log
  | k + 1 => invalidateLoop (log.invalidate i) (i + 1) k

/-- The second half of `update_commit_idx`, for the index `N` found by its first loop. -/
def leaderCommit (log : SmLog) (N : Int) : SmLog :=
  let prevCommitIdx := log.commitIdx
  let log := if log.commitIdx < N then { log with commitIdx := N, lastApplied := N } else log
  if log.lastApplied = log.lastIdx then log
  else log.invalidateLoop prevCommitIdx (log.commitIdx - prevCommitIdx).toNat

end SmLog

/-- The 32-bit word of four bytes in memory order. -/
def wordOfBytes (b0 b1 b2 b3 : UInt8) : UInt32 :=
  b0.toUInt32 + b1.toUInt32 * 256 + b2.toUInt32 * 65536 + b3.toUInt32 * 16777216

/-- `set_le_opcode_ad` into a zeroed payload. -/
def setLeOpcodeAd (opco : LeOpcode) (clusterId : Nat) (selfIp : UInt32) (selfMac : Vector UInt8 6) :
    ConRecord :=
  { setLeOpcode opco clusterId selfIp.toNat 0 0 with
    param3 := wordOfBytes selfMac[0] selfMac[1] selfMac[2] selfMac[3]
    param4 := wordOfBytes selfMac[4] selfMac[5] 0 0 }

@[simp]
theorem setLeOpcodeAd_opcodeVal (opco : LeOpcode) (clusterId : Nat) (selfIp : UInt32)
    (selfMac : Vector UInt8 6) :
    (setLeOpcodeAd opco clusterId selfIp selfMac).opcodeVal = some opco := by
  cases opco <;> rfl

namespace Node

def setupAliveMsg (n : Node) : ConRecord :=
  setLeOpcode .alive n.priv.term n.smLog.commitIdx n.smLog.stableIdx n.sdev.hbInterval

/-- What `pre_hb_setup` writes: `none` where it leaves the payload as it is. -/
def hbRecord (n : Node) : Option ConRecord :=
  if n.sdev.warmupState = .warmingUp then
    some (setLeOpcodeAd .advertise n.sdev.clusterId n.sdev.selfIp n.sdev.selfMac)
  else if n.sdev.isLeader then some n.setupAliveMsg
  else none

def preHbSetup (n : Node) (targetLid : Nat) : Node :=
  match n.hbRecord with
  | some record => n.send (.target targetLid) (some record)
  | none => n

/-- One round of `initialize_indices`. -/
def initializeIndex (n : Node) (i : Nat) : Node :=
  let idx := n.leaderIdx
  preHbSetup { n with leaderIdx := {
    nextIndex := Function.update idx.nextIndex i (i32 (n.smLog.stableIdx + 1))
    matchIndex := Function.update idx.matchIndex i (-1)
    numRetransmissions := Function.update idx.numRetransmissions i 0
    retransHead := Function.update idx.retransHead i []
    retransEntries := Function.update idx.retransEntries i 0 } } i

def initializeIndices (n : Node) : Node :=
  (List.range n.numOfTargets).foldl initializeIndex n

/-- `is_potential_commit_idx`: a target that is not alive counts as a hit. -/
def isPotentialCommitIdx (n : Node) (N : Int) : Bool :=
  let hits := (List.range n.numOfTargets).countP fun i =>
    n.sdev.alive i = false ∨ n.leaderIdx.matchIndex i ≥ N
  hits ≥ n.numOfTargets

/-- The first loop of `update_commit_idx` at target `i` with `k` targets left; `none` where the
function returns from inside the loop. -/
def commitCandidateLoop (n : Node) (i : Nat) (N : Int) : Nat → Option Int
  | 0 => some N
  | k + 1 =>
    let currentN := n.leaderIdx.matchIndex i
    if currentN = -1 then none
    else if currentN > n.smLog.lastIdx then none
    else if (n.smLog.entry currentN).term = u32 n.priv.term ∧ n.isPotentialCommitIdx currentN ∧
        currentN > N then
      commitCandidateLoop n (i + 1) currentN k
    else commitCandidateLoop n (i + 1) N k

def updateCommitIdx (n : Node) : Node :=
  if n.sdev.multicastEnable then n
  else
    match n.commitCandidateLoop 0 (-1) n.numOfTargets with
    | none => n
    | some N => { n with smLog := n.smLog.leaderCommit N }

def stopLeader (n : Node) : Node :=
  cleanRequestTransmissionLists { n with sdev.isLeader := false }

/-- The entry into LEADER is recorded before anything else happens. -/
def recordLead (n : Node) : Node :=
  { n with hist.leads := (n.priv.term, n.hist.voters) :: n.hist.leads }

def startLeader (n : Node) : Node :=
  let n := n.recordLead.initializeIndices
  let n := { n with sdev.isLeader := true, priv.candidateCounter := 0 }
  checkPendingLogRep ((List.range n.numOfTargets).foldl preHbSetup n)

end Node

end XlaneLkm
