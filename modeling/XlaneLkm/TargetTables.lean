import XlaneLkm.Membership

/-!
# Arrays indexed by target

The loops over the registered targets that use an array of `CLUSTER_SIZE` entries: those of
`struct state_machine_cmd_log` and the local one of `emit_pkts_non_scheduled`. Each access is recorded
with the index the code uses, in the order of the code.
-/

namespace XlaneLkm

inductive TargetTable where
  | nextIndex | matchIndex | numRetransmissions | retransListLock | retransHead | retransEntries
  | targetFire
  deriving DecidableEq

structure TableAccess where
  table : TargetTable
  index : Nat
  deriving DecidableEq

/-- What stands in a cell. The locks and the local array are not part of the indices. -/
def LeaderIndices.cell (idx : LeaderIndices) (a : TableAccess) : List Int :=
  match a.table with
  | .nextIndex => [idx.nextIndex a.index]
  | .matchIndex => [idx.matchIndex a.index]
  | .numRetransmissions => [idx.numRetransmissions a.index]
  | .retransHead => idx.retransHead a.index
  | .retransEntries => [idx.retransEntries a.index]
  | .retransListLock | .targetFire => []

namespace Node

def initializeIndicesAccesses (n : Node) : List TableAccess :=
  (List.range n.numOfTargets).flatMap fun i =>
    [⟨.nextIndex, i⟩, ⟨.matchIndex, i⟩, ⟨.numRetransmissions, i⟩, ⟨.retransListLock, i⟩,
      ⟨.retransHead, i⟩, ⟨.retransEntries, i⟩]

def isPotentialCommitIdxAccesses (n : Node) : List TableAccess :=
  (List.range n.numOfTargets).flatMap fun i =>
    if n.sdev.alive i = false then [] else [⟨.matchIndex, i⟩]

/-- The first loop of `update_commit_idx`, at target `i` with `k` targets left. -/
def commitCandidateAccesses (n : Node) (i : Nat) : Nat → List TableAccess
  | 0 => []
  | k + 1 =>
    let currentN := n.leaderIdx.matchIndex i
    ⟨.matchIndex, i⟩ ::
      if currentN = -1 then []
      else if currentN > n.smLog.lastIdx then []
      else
        (if (n.smLog.entry currentN).term = MachineInt.u32 n.priv.term then
          n.isPotentialCommitIdxAccesses else []) ++
        commitCandidateAccesses n (i + 1) k

def updateCommitIdxAccesses (n : Node) : List TableAccess :=
  if n.sdev.multicastEnable then [] else n.commitCandidateAccesses 0 n.numOfTargets

def queueRetransmissionAccesses (n : Node) (remoteLid : Nat) (retransIdx : Int) : List TableAccess :=
  [⟨.retransListLock, remoteLid⟩, ⟨.retransHead, remoteLid⟩] ++
    if retransIdx ∈ n.leaderIdx.retransHead remoteLid then []
    else [⟨.retransHead, remoteLid⟩, ⟨.numRetransmissions, remoteLid⟩, ⟨.retransEntries, remoteLid⟩]

end Node

/-! ### Out of schedule packets -/

/-- What `emit_pkts_non_scheduled` leaves: its local array, `pm_targets[i].fire`, and the targets it
emitted a packet to. -/
structure NonScheduled where
  targetFire : Nat → Bool
  fire : Nat → Bool
  emitted : List Nat

/-- The flags of the targets are a parameter, and so is what stands in the local array before. -/
def emitPktsNonScheduled (numOfTargets : Nat) (fire uninit : Nat → Bool) : NonScheduled :=
  let targetFire := (List.range numOfTargets).foldl (fun targetFire i =>
    Function.update targetFire i (fire i)) uninit
  { targetFire := targetFire
    emitted := (List.range numOfTargets).filter targetFire
    fire := (List.range numOfTargets).foldl (fun fire i =>
      if targetFire i then Function.update fire i false else fire) fire }

/-- Its three loops over the local array. -/
def emitPktsNonScheduledAccesses (numOfTargets : Nat) : List TableAccess :=
  let loop := (List.range numOfTargets).map (TableAccess.mk .targetFire)
  loop ++ loop ++ loop

/-! ### All of them -/

/-- An operation that iterates over the registered targets, or works for one of them. -/
inductive TableOp where
  | initializeIndices
  | isPotentialCommitIdx
  | updateCommitIdx
  | queueRetransmission (remoteLid : Nat) (retransIdx : Int)
  | emitPktsNonScheduled

namespace Node

/-- The target of the operation is a registered one. -/
def Offers (n : Node) : TableOp → Prop
  | .queueRetransmission remoteLid _ => remoteLid < n.numOfTargets
  | _ => True

def accesses (n : Node) : TableOp → List TableAccess
  | .initializeIndices => n.initializeIndicesAccesses
  | .isPotentialCommitIdx => n.isPotentialCommitIdxAccesses
  | .updateCommitIdx => n.updateCommitIdxAccesses
  | .queueRetransmission remoteLid retransIdx => n.queueRetransmissionAccesses remoteLid retransIdx
  | .emitPktsNonScheduled => emitPktsNonScheduledAccesses n.numOfTargets

end Node

end XlaneLkm
