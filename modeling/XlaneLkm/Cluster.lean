import XlaneLkm.Node
import Mathlib.Algebra.GroupWithZero.Nat

/-!
# A cluster

Nodes with distinct ids, each with all others as its targets. The network is what the nodes have
sent: any record ever handed to the payload of a target may arrive there at any time, any number of
times, or never. The arrival of a packet and the handling of its record are separate moves, since
the source puts a work queue between them.
-/

namespace XlaneLkm

open MachineInt

/-- Who is in the cluster. `peers i` is the target table of `i`: a local id is a position in it. -/
structure Members (ι : Type*) where
  cid : ι → Nat
  peers : ι → List ι
  cid_lt : ∀ i, cid i < 4294967296
  cid_injective : Function.Injective cid
  nodup_peers : ∀ i, (peers i).Nodup
  mem_peers : ∀ i j, j ∈ peers i ↔ j ≠ i

/-- A cluster before its first step. -/
structure Cluster (ι : Type*) extends Members ι where
  maxEntries : Int
  multicastEnable : Bool
  uninit : ι → Uninit
  selfIp : ι → UInt32
  selfMac : ι → Vector UInt8 6
  maxEntries_pos : 0 < maxEntries
  maxEntries_le : maxEntries ≤ 2147483647

/-- The states of all nodes. -/
structure World (ι : Type*) where
  node : ι → Node

namespace World

variable {ι : Type*} [DecidableEq ι]

def act (w : World ι) (i : ι) (e : Event) : World ι where
  node := Function.update w.node i ((w.node i).step e)

@[simp]
theorem act_self (w : World ι) (i : ι) (e : Event) :
    (w.act i e).node i = (w.node i).step e := Function.update_self _ _ _

theorem act_of_ne (w : World ι) {i j : ι} (e : Event) (h : j ≠ i) :
    (w.act i e).node j = w.node j := Function.update_of_ne h _ _

/-- What holds of every node but the acting one, and of that one after its step, holds of all. -/
theorem forall_act {w : World ι} {I : ι → Node → Prop} {i : ι} {e : Event}
    (hother : ∀ j, j ≠ i → I j (w.node j)) (hi : I i ((w.node i).step e)) (j : ι) :
    I j ((w.act i e).node j) := by
  by_cases hj : j = i
  · subst hj
    rw [act_self]
    exact hi
  · rw [act_of_ne w e hj]
    exact hother j hj

end World

inductive Move (ι : Type*) where
  /-- An event of one node alone. -/
  | act (i : ι) (e : Event)
  /-- A packet that `src` has sent arrives at `dst`. `k` is its position in `sent`. -/
  | arrive (dst src : ι) (k ts : Nat)
  /-- The record of a packet that `src` has sent is handled by `dst`. -/
  | deliver (dst src : ι) (k : Nat)

def Event.isLocal : Event → Bool
  | .rx _ _ => false
  | .handle _ _ => false
  | _ => true

namespace Cluster

section Configuration

variable {ι : Type*} (c : Cluster ι)

def config (i : ι) : Config where
  clusterId := c.cid i
  targets := (c.peers i).map fun j => i32 (c.cid j)
  maxEntries := c.maxEntries
  multicastEnable := c.multicastEnable
  selfIp := c.selfIp i
  selfMac := c.selfMac i
  maxEntries_pos := c.maxEntries_pos
  maxEntries_le := c.maxEntries_le

def init : World ι where
  node i := consensusInit (c.config i) (c.uninit i)

variable {c}

/-- The node has the configuration of `i`. -/
def IsConfigured (c : Cluster ι) (i : ι) (n : Node) : Prop :=
  n.sdev.config = (c.config i).sdev.config

theorem init_isConfigured (i : ι) : c.IsConfigured i (c.init.node i) := rfl

theorem IsConfigured.clusterId {i : ι} {n : Node} (h : c.IsConfigured i n) :
    n.sdev.clusterId = c.cid i := congrArg Prod.fst h

theorem IsConfigured.targets {i : ι} {n : Node} (h : c.IsConfigured i n) :
    n.sdev.targets.map TargetInfo.clusterId = (c.peers i).map fun j => i32 (c.cid j) := by
  have htargets : n.sdev.targets.map TargetInfo.clusterId =
      ((c.config i).targets.map registerPeer).map TargetInfo.clusterId :=
    congrArg (fun p => p.2.1) h
  rw [htargets, List.map_map]
  exact List.map_id _

theorem IsConfigured.numOfTargets {i : ι} {n : Node} (h : c.IsConfigured i n) :
    n.numOfTargets = (c.peers i).length := by
  simpa only [List.length_map, Node.numOfTargets, AsgardDevice.numOfTargets] using
    congrArg List.length h.targets

theorem IsConfigured.multicastEnable {i : ι} {n : Node} (h : c.IsConfigured i n) :
    n.sdev.multicastEnable = c.multicastEnable := congrArg (fun p => p.2.2) h

theorem IsConfigured.rclusterId {i j : ι} {n : Node} (h : c.IsConfigured i n) {lid : Nat}
    (hlid : (c.peers i)[lid]? = some j) : n.rclusterId lid = i32 (c.cid j) := by
  have hget := congrArg (fun l => l[lid]?) h.targets
  simp only [List.getElem?_map, hlid, Option.map_some] at hget
  obtain ⟨t, ht, hid⟩ := Option.map_eq_some_iff.mp hget
  simp only [Node.rclusterId, ht, hid]

end Configuration

variable {ι : Type*} [DecidableEq ι] (c : Cluster ι)

/-- The local id of `src` at `dst`. -/
def lid (dst src : ι) : Nat := (c.peers dst).idxOf src

/-- Whether a packet of `src` with this receiver gets to `dst`. -/
def reaches (src dst : ι) : Dest → Bool
  | .target lid => (c.peers src)[lid]? = some dst
  | .multicast => src ≠ dst

theorem reaches_target {src dst : ι} {l : Nat} :
    c.reaches src dst (.target l) ↔ (c.peers src)[l]? = some dst := decide_eq_true_iff

/-- The node a move acts on, and the event it sees. -/
def event (w : World ι) : Move ι → Option (ι × Event)
  | .act i e => if e.isLocal then some (i, e) else none
  | .arrive dst src k ts =>
    match (w.node src).sent[k]? with
    | some (dest, _) => if c.reaches src dst dest then some (dst, .rx (c.lid dst src) ts) else none
    | none => none
  | .deliver dst src k =>
    match (w.node src).sent[k]? with
    | some (dest, some pkt) =>
      if c.reaches src dst dest then some (dst, .handle (c.lid dst src) pkt) else none
    | _ => none

def step (w : World ι) (move : Move ι) : World ι :=
  match c.event w move with
  | some (i, e) => w.act i e
  | none => w

def run (moves : List (Move ι)) : World ι := Run.run c.step c.init moves

/-- A condition on the steps of nodes, as a condition on the moves of the cluster. -/
def everyNode (C : Node → Event → Prop) (w : World ι) (move : Move ι) : Prop :=
  ∀ p, c.event w move = some p → C (w.node p.1) p.2

instance (C : Node → Event → Prop) [∀ n e, Decidable (C n e)] (w : World ι) (move : Move ι) :
    Decidable (c.everyNode C w move) :=
  match h : c.event w move with
  | some p => decidable_of_iff (C (w.node p.1) p.2) (by simp [everyNode, h])
  | none => isTrue (by simp [everyNode, h])

/-! ### Lifting results about a node -/

variable {c} {w : World ι} {move : Move ι}

theorem step_of_event {i : ι} {e : Event} (h : c.event w move = some (i, e)) :
    c.step w move = w.act i e := by
  unfold step
  rw [h]

theorem step_of_no_event (h : c.event w move = none) : c.step w move = w := by
  unfold step
  rw [h]

/-- An invariant of every node is kept by a move if the node the move acts on keeps it. -/
theorem forall_node_step {I : ι → Node → Prop} (hw : ∀ i, I i (w.node i))
    (hstep : ∀ i e, c.event w move = some (i, e) → I i ((w.node i).step e)) (i : ι) :
    I i ((c.step w move).node i) := by
  cases hevent : c.event w move with
  | none => rw [step_of_no_event hevent]; exact hw i
  | some p =>
    rw [step_of_event (i := p.1) (e := p.2) hevent]
    exact World.forall_act (fun j _ => hw j) (hstep _ _ hevent) i

/-- A delivered record was sent, by a node that is not the receiver, to the receiver. -/
theorem event_handle {i : ι} {lid : Nat} {pkt : ConRecord}
    (h : c.event w move = some (i, .handle lid pkt)) :
    ∃ src dest, src ≠ i ∧ lid = c.lid i src ∧ (dest, some pkt) ∈ (w.node src).sent ∧
      c.reaches src i dest := by
  cases move with
  | act j e =>
    simp only [event] at h
    split at h
    case isTrue hlocal =>
      cases h
      cases hlocal
    case isFalse => cases h
  | arrive dst src k ts =>
    simp only [event] at h
    split at h
    · split at h
      · cases h
      · cases h
    · cases h
  | deliver dst src k =>
    simp only [event] at h
    split at h
    case h_1 dest record hk =>
      split at h
      case isTrue hreaches =>
        cases h
        refine ⟨src, dest, ?_, rfl, List.mem_of_getElem? hk, hreaches⟩
        rintro rfl
        cases dest with
        | target l =>
          have hmem := List.mem_of_getElem? (c.reaches_target.mp hreaches)
          exact (c.mem_peers src src).mp hmem rfl
        | multicast => simp [reaches] at hreaches
      case isFalse => cases h
    case h_2 => cases h

theorem peers_lid {dst src : ι} (h : src ≠ dst) : (c.peers dst)[c.lid dst src]? = some src := by
  have hmem := (c.mem_peers dst src).mpr h
  have hlt := List.idxOf_lt_length_iff.mpr hmem
  rw [lid, List.getElem?_eq_getElem hlt, List.getElem_idxOf]

end Cluster

/-! ### Three nodes

The cluster of the nodes 0, 1 and 2 with the ids 1, 2 and 3. -/

def threeMembers : Members (Fin 3) where
  cid i := i.val + 1
  peers i := (List.finRange 3).filter (· ≠ i)
  cid_lt i := by omega
  cid_injective i j h := by simpa [Fin.val_inj] using h
  nodup_peers i := (List.nodup_finRange 3).filter _
  mem_peers i j := by simp

instance neZero_three : NeZero 3 := ⟨by decide⟩

def threeNodes : Cluster (Fin 3) where
  toMembers := threeMembers
  maxEntries := maxConsensusLog
  multicastEnable := false
  uninit _ := zeroUninit
  selfIp _ := 0
  selfMac _ := Vector.replicate _ 0
  maxEntries_pos := maxConsensusLog_pos
  maxEntries_le := maxConsensusLog_le

/-- All nodes come up and hear of each other; node 0 is the first to nominate itself. -/
def threeJoining : List (Move (Fin 3)) :=
  [.act 0 .pmStart, .act 1 .pmStart, .act 2 .pmStart, .act 0 .tick, .act 1 .tick, .act 2 .tick,
    .arrive 0 1 1 1, .arrive 0 2 1 1, .arrive 1 0 1 1, .arrive 1 2 0 1, .arrive 2 0 0 1,
    .arrive 2 1 0 1]

/-- Node 1 and node 2 vote for node 0. -/
def oneElection : List (Move (Fin 3)) :=
  threeJoining ++ [.deliver 1 0 1, .deliver 2 0 0, .deliver 0 1 0, .deliver 0 2 0]

end XlaneLkm
