import XlaneLkm.WireNode
import XlaneLkm.Cluster

/-!
# A cluster on the wire

The cluster again, with packets for records: a network holds the frames that have left a network
device, and a frame that is addressed to a node may get there at any time, any number of times, or
never. Every node has one MAC address and knows those of the others.
-/

namespace XlaneLkm

open MachineInt

/-- A cluster whose nodes have network devices and registered protocol instances. -/
structure WireCluster (ι : Type*) extends Cluster ι where
  protos : ι → ProtoTable
  ins : ι → ProtoInstance
  selfMac_injective : Function.Injective selfMac

structure WireWorld (ι : Type*) where
  station : ι → WireNode

def WireWorld.set {ι : Type*} [DecidableEq ι] (w : WireWorld ι) (i : ι) (n : WireNode) : WireWorld ι where
  station := Function.update w.station i n

inductive WireMove (ι : Type*) where
  /-- An event of one node alone, other than a heartbeat. -/
  | act (i : ι) (e : Event)
  | tick (i : ι) (pings : Nat → Option PpRecord)
  | pp (i : ι) (j lid : Nat) (r : PpRecord)
  | emitNonScheduled (i : ι)
  | emitAsync (i : ι)
  /-- A frame that `src` has emitted gets to `dst`. `k` is its position in `emitted`. -/
  | arrive (dst src : ι) (k : Nat) (behind : Nat → UInt8) (cqeBcnt : UInt32) (postTs : Nat)
  | handle (i : ι) (k : Nat)

def Event.isTick : Event → Bool
  | .tick => true
  | _ => false

namespace WireCluster

variable {ι : Type*} [DecidableEq ι] (c : WireCluster ι)

def init : WireWorld ι where
  station i :=
    { node := c.toCluster.init.node i
      protos := c.protos i
      ins := c.ins i
      devAddr := c.selfMac i
      dstMac lid := ((c.peers i)[lid]?).map c.selfMac
      pktData _ := .zero
      fire _ := false
      hbPktData _ := .zero
      aapriv _ := .initAsgardAsyncQueue
      multicastAapriv := .initAsgardAsyncQueue
      asgardWq := []
      emitted := []
      events := [] }

def step (w : WireWorld ι) : WireMove ι → WireWorld ι
  | .act i e =>
    if e.isLocal ∧ e.isTick = false then w.set i ((w.station i).act e) else w
  | .tick i pings => w.set i ((w.station i).tick pings)
  | .pp i j lid r => w.set i ((w.station i).setupPpMsg j lid r)
  | .emitNonScheduled i => w.set i (w.station i).emitPktsNonScheduled
  | .emitAsync i => w.set i (w.station i).emitAsyncPkts
  | .arrive dst src k behind cqeBcnt postTs =>
    match (w.station src).emitted[k]? with
    | some (dest, frame) =>
      if c.reaches src dst dest then
        w.set dst ((w.station dst).asgardPostPayload frame behind cqeBcnt postTs)
      else w
    | none => w
  | .handle i k => w.set i ((w.station i).pktProcessHandler k)

def run (moves : List (WireMove ι)) : WireWorld ι := Run.run c.step c.init moves

end WireCluster

/-! ### Three nodes

The cluster of three nodes, each with one consensus instance and a MAC address of its own. -/

/-- One consensus instance, with the id 1. -/
def oneInstance : ProtoTable :=
  ((ProtoTable.init ⟨0, fun _ => 0, fun _ => none⟩).registerProtocolInstance 1 2 true).1

def stationMac (i : Fin 3) : Mac := #v[2, 0, 0, 0, 0, UInt8.ofNat i.val]

theorem stationMac_injective : Function.Injective stationMac := by
  intro i j
  revert i j
  decide

def threeStations (multicastEnable : Bool) : WireCluster (Fin 3) where
  toCluster := { threeNodes with
    multicastEnable := multicastEnable
    selfMac := stationMac }
  protos _ := oneInstance
  ins _ := ⟨1, .consensus⟩
  selfMac_injective := stationMac_injective

/-- Behind the data of a received packet. -/
def rubbish : Nat → UInt8 := fun _ => 255

def wireTick (i : Fin 3) : WireMove (Fin 3) := .tick i fun _ => none

def wireArrive (dst src : Fin 3) (k ts : Nat) : WireMove (Fin 3) := .arrive dst src k rubbish 1416 ts

/-- All nodes come up and hear of each other; node 0 nominates itself, gets both votes and leads. -/
def wireElection : List (WireMove (Fin 3)) :=
  [.act 0 .pmStart, .act 1 .pmStart, .act 2 .pmStart, wireTick 0, wireTick 1, wireTick 2,
    wireArrive 1 0 1 1, wireArrive 2 0 0 1, wireArrive 0 1 1 1, wireArrive 2 1 0 1, wireArrive 0 2 1 1,
    wireArrive 1 2 0 1, .emitNonScheduled 0, wireArrive 1 0 1 2, wireArrive 2 0 0 2, .handle 1 1,
    .handle 2 1, .emitNonScheduled 1, .emitNonScheduled 2, wireArrive 0 1 0 3, wireArrive 0 2 0 3,
    .handle 0 1, .handle 0 1]

end XlaneLkm
