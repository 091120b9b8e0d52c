import XlaneLkm.Advertisement
import XlaneLkm.AsyncQueue

/-!
# A node and its packets

The way of a record through the payloads of a node and through its network device. `setup_le_msg`,
`reply_append` and `start_leader` write into the payload of a target that is sent when its `fire` is
set, the pacemaker writes into the one of the next heartbeat, log replication into one that
waits in an asynchronous queue. A received packet is copied, its sender looked up by MAC address, and
its records are handled later from a work queue.

What the protocol does to its own state stays with `Node`: a step of it tells by `sent` what it has to
write. The ping-pong protocol is here by the records it puts beside those of the consensus protocol.
-/

namespace XlaneLkm

open ByteMemory MachineInt

abbrev Mac := Vector UInt8 6

namespace Wire

/-- The loop of `set_ae_data` over the chunks of a record. -/
def putEntries (entries : Nat → DataChunk) (curPtr j : Nat) : Nat → (Nat → UInt8) → Nat → UInt8
  | 0, m => m
  | k + 1, m => putEntries entries (curPtr + 4 + 4) (j + 1) k (copyChunk m curPtr (entries j))

/-- What `set_le_opcode` and `set_ae_data` write for a record. -/
def putRecord (p : Nat) (r : ConRecord) (m : Nat → UInt8) : Nat → UInt8 :=
  let m := write m (getConProtoOpcodePtr p) 2 r.opcode.toNat
  let m := write m (getConProtoParam1Ptr p) 4 r.param1.toNat
  let m := write m (getConProtoParam2Ptr p) 4 r.param2.toNat
  let m := write m (getConProtoParam3Ptr p) 4 r.param3.toNat
  let m := write m (getConProtoParam4Ptr p) 4 r.param4.toNat
  if r.opcodeVal = some .append then
    let m := write m (getConAeNumEntriesPtr p) 4 r.numEntries.toNat
    let m := write m (getConAePrevLeaderCommitIdxPtr p) 4 r.leaderCommitIdx.toNat
    putEntries r.entries (getConProtoEntriesStartPtr p) 0 r.numEntries.toNat m
  else m

end Wire

/-- A record of the ping-pong protocol. -/
structure PpRecord where
  opcode : Wire.PpOpcode
  id : UInt64
  t1 : UInt64
  t2 : UInt64

namespace AsgardPayload

/-- Fresh from `ACMALLOC`, or after `memset`. -/
def zero : AsgardPayload := ⟨0, fun _ => 0⟩

/-- `asgard_reserve_proto` and what the protocol writes into the record it gets. -/
def put (spay : AsgardPayload) (instanceId protoSize : UInt16)
    (fill : Nat → (Nat → UInt8) → Nat → UInt8) : AsgardPayload :=
  match spay.asgardReserveProto instanceId protoSize with
  | (spay, none) => spay
  | (spay, some p) => { spay with protoData := fill p spay.protoData }

/-- A message of leader election. -/
def putLe (spay : AsgardPayload) (instanceId : UInt16) (r : ConRecord) : AsgardPayload :=
  spay.put instanceId (UInt16.ofNat asgardProtoConPayloadSz) fun p => Wire.putRecord p r

def putAppend (spay : AsgardPayload) (instanceId : UInt16) (r : ConRecord) : AsgardPayload :=
  spay.put instanceId r.pktSize fun p => Wire.putRecord p r

def putPp (spay : AsgardPayload) (instanceId : UInt16) (r : PpRecord) : AsgardPayload :=
  spay.put instanceId (UInt16.ofNat asgardProtoPpPayloadSz) fun p =>
    Wire.setPpOpcode p r.opcode r.id r.t1 r.t2

end AsgardPayload

/-- A packet on the network: the source address of its Ethernet header, and its user data. -/
structure Frame where
  srcMac : Mac
  payload : AsgardPayload

/-- The copy a receiver makes, with what its memory holds behind it. -/
def Frame.received (frame : Frame) (behind : Nat → UInt8) : AsgardPayload :=
  { frame.payload with
    protoData := fun q => if q < sizeofProtoData then frame.payload.protoData q else behind q }

/-- `struct pkt_work_data`. -/
structure PktWorkData where
  remoteLid : Nat
  rclusterId : Int
  userData : AsgardPayload
  bcnt : UInt32

structure WireNode where
  node : Node
  protos : ProtoTable
  /-- `priv->ins`. -/
  ins : ProtoInstance
  devAddr : Mac
  dstMac : Nat → Option Mac
  pktData : Nat → AsgardPayload
  fire : Nat → Bool
  hbPktData : Nat → AsgardPayload
  aapriv : Nat → AsyncQueue AsgardPayload
  /-- By the `pkt_data.payload` of its packets: `setup_append_multicast_msg` writes elsewhere. -/
  multicastAapriv : AsyncQueue AsgardPayload
  asgardWq : List PktWorkData
  /-- What has left through the network device, newest first. -/
  emitted : List (Dest × Frame)
  /-- History: the events of the protocol so far. -/
  events : List Event

/-- The target table of a receiver, with the position of the sender: `compare_mac` looks at byte `i`
and those before it. -/
def compareMacFrom (m1 m2 : Mac) : Nat → Int
  | 0 => 0
  | i + 1 => if m1.getD i 0 ≠ m2.getD i 0 then -1 else compareMacFrom m1 m2 i

def compareMac (m1 m2 : Mac) : Int := compareMacFrom m1 m2 6

/-- What a step has added to `sent`, oldest first. -/
def newSends (before after : Node) : List (Dest × Option ConRecord) :=
  (after.sent.take (after.sent.length - before.sent.length)).reverse

/-- Whether the log replication work of the event is a retransmission. -/
def Event.retrans (n : Node) : Event → Bool
  | .work k => ((n.leaderWq[k]?).map (·.retrans)).getD false
  | _ => false

namespace WireNode

/-- The loop of `get_cluster_ids_by_mac` at target `i` with `k` targets left. -/
def clusterIdsLoop (n : WireNode) (remoteMac : Mac) (i : Nat) : Nat → Option (Nat × Int)
  | 0 => none
  | k + 1 =>
    match n.dstMac i with
    | none => clusterIdsLoop n remoteMac (i + 1) k
    | some mac =>
      if compareMac mac remoteMac = 0 then some (i, n.node.rclusterId i)
      else clusterIdsLoop n remoteMac (i + 1) k

/-- `get_cluster_ids_by_mac`: local id and cluster id, `none` for -1. -/
def getClusterIdsByMac (n : WireNode) (remoteMac : Mac) : Option (Nat × Int) :=
  n.clusterIdsLoop remoteMac 0 n.node.numOfTargets

/-! ### Writing -/

def updatePktData (n : WireNode) (lid : Nat) (f : AsgardPayload → AsgardPayload) : WireNode :=
  { n with pktData := Function.update n.pktData lid (f (n.pktData lid)) }

def setFire (n : WireNode) (lid : Nat) : WireNode := { n with fire := Function.update n.fire lid true }

/-- The end of `do_prepare_log_replication`. -/
def queueAppend (n : WireNode) (lid : Nat) (r : ConRecord) (retrans : Bool) : WireNode :=
  let apkt := AsgardPayload.zero.putAppend (UInt16.ofNat n.ins.instanceId) r
  let queue := if retrans then (n.aapriv lid).pushFrontAsyncPkt apkt
    else (n.aapriv lid).enqueueAsyncPkt apkt
  { n with aapriv := Function.update n.aapriv lid queue.ringAaDoorbell }

/-- One record of `sent` is written where the function that sends it puts it. -/
def transmit (retrans : Bool) (n : WireNode) : Dest × Option ConRecord → WireNode
  | (.target lid, some r) =>
    match r.opcodeVal with
    | some .append => n.queueAppend lid r retrans
    | some .advertise => n.updatePktData lid fun spay =>
        (spay.setupClusterJoinAdvertisement (i32 n.node.sdev.clusterId) n.node.sdev.selfIp
          n.node.sdev.selfMac).1
    | some .nomi | some .vote | some .appendReply =>
        (n.updatePktData lid (·.putLe (UInt16.ofNat n.ins.instanceId) r)).setFire lid
    | _ => n.updatePktData lid (·.putLe (UInt16.ofNat n.ins.instanceId) r)
  -- the record is written into the packet buffer, which `pkt_data.payload` replaces on emission
  | (.multicast, some _) =>
    { n with multicastAapriv := (n.multicastAapriv.enqueueAsyncPkt .zero).ringAaDoorbell }
  | (_, none) => n

/-- The node has gone on to `node` with the event, and what it has sent since `before` is written. -/
def goOn (n : WireNode) (e : Event) (before node : Node) : WireNode :=
  (newSends before node).foldl (transmit (e.retrans n.node)) { n with
    node := node
    events := n.events ++ [e] }

def act (n : WireNode) (e : Event) : WireNode := n.goOn e n.node (n.node.step e)

/-! ### The pacemaker -/

/-- `asgard_update_skb_payload` and `asgard_send_skb`. -/
def emit (n : WireNode) (dest : Dest) (payload : AsgardPayload) : WireNode :=
  { n with emitted := (dest, ⟨n.devAddr, payload⟩) :: n.emitted }

/-- One round of `emit_pkts_scheduled`. -/
def emitHb (n : WireNode) (i : Nat) : WireNode :=
  { (n.emit (.target i) (n.hbPktData i)) with hbPktData := Function.update n.hbPktData i .zero }

/-- One round of the loop of `pre_hb_setup` over the protocol instances; `ping` is what `setup_ping_msg`
writes, if anything. -/
def setupProto (n : WireNode) (node : Node) (ping : Option PpRecord) (spay : AsgardPayload) (j : Nat) :
    AsgardPayload :=
  match n.protos.protos j with
  | some ⟨instanceId, .consensus⟩ =>
    if node.sdev.isLeader then spay.putLe (UInt16.ofNat instanceId) node.setupAliveMsg else spay
  | some ⟨instanceId, .pp⟩ =>
    match ping with
    | some r => spay.putPp (UInt16.ofNat instanceId) r
    | none => spay
  | _ => spay

def setupProtos (n : WireNode) (node : Node) (ping : Option PpRecord) (spay : AsgardPayload) :
    AsgardPayload :=
  (List.range n.protos.numOfProtoInstances).foldl (n.setupProto node ping) spay

/-- One round of the loop over `pre_hb_setup` in `do_pacemaker`. -/
def preHb (node : Node) (pings : Nat → Option PpRecord) (n : WireNode) (i : Nat) : WireNode :=
  let payload := node.preHbPayload (n.setupProtos node (pings i)) (n.hbPktData i)
  { n with hbPktData := Function.update n.hbPktData i payload }

/-- A scheduled heartbeat of `do_pacemaker`. -/
def tick (n : WireNode) (pings : Nat → Option PpRecord) : WireNode :=
  if n.node.sdev.pmState ≠ .emitting then n
  else
    let targets := List.range n.node.numOfTargets
    let hb := n.node.heartbeat
    (targets.foldl (preHb hb pings) (targets.foldl emitHb n)).goOn .tick hb n.node.tick

/-- One round of `emit_pkts_non_scheduled`. -/
def emitFired (n : WireNode) (i : Nat) : WireNode :=
  if n.fire i then
    { (n.emit (.target i) (n.pktData i)) with
      pktData := Function.update n.pktData i .zero
      fire := Function.update n.fire i false }
  else n

def emitPktsNonScheduled (n : WireNode) : WireNode :=
  if n.node.sdev.pmState ≠ .emitting then n
  else (List.range n.node.numOfTargets).foldl emitFired n

/-- One round of `emit_async_unicast_pkts`. -/
def emitAsyncUnicast (n : WireNode) (i : Nat) : WireNode :=
  if (n.aapriv i).doorbell > 0 then
    let (queue, curApkt) := (n.aapriv i).dequeueAsyncPkt
    let n := { n with
      aapriv := Function.update n.aapriv i { queue with doorbell := i32 (queue.doorbell - 1) } }
    match curApkt with
    | none => n
    | some payload => n.emit (.target i) payload
  else n

def emitAsyncMulticastPkt (n : WireNode) : WireNode :=
  if n.multicastAapriv.doorbell > 0 then
    let (queue, curApkt) := n.multicastAapriv.dequeueAsyncPkt
    let n := { n with multicastAapriv := { queue with doorbell := i32 (queue.doorbell - 1) } }
    match curApkt with
    | none => n
    | some payload => n.emit .multicast payload
  else n

def emitAsyncPkts (n : WireNode) : WireNode :=
  if n.node.sdev.pmState ≠ .emitting then n
  else if n.node.sdev.multicastEnable then n.emitAsyncMulticastPkt
  else (List.range n.node.numOfTargets).foldl emitAsyncUnicast n

/-! ### Receiving -/

/-- `asgard_post_payload` for a packet of a registered sender. -/
def asgardPostPayload (n : WireNode) (frame : Frame) (behind : Nat → UInt8) (cqeBcnt : UInt32)
    (postTs : Nat) : WireNode :=
  if n.node.sdev.pmState ≠ .emitting then n
  else
    match n.getClusterIdsByMac frame.srcMac with
    | none => n
    | some (remoteLid, rclusterId) =>
      let targets := n.node.sdev.targets.modify remoteLid fun t =>
        { t with chbTs := postTs, alive := true }
      match Node.checkWarmupState { n.node with sdev.targets := targets } with
      | (node, true) => n.goOn (.rx remoteLid postTs) n.node node
      | (node, false) =>
        let n := n.goOn (.rx remoteLid postTs) n.node node
        { n with asgardWq := n.asgardWq ++ [⟨remoteLid, rclusterId, frame.received behind, cqeBcnt⟩] }

/-- `post_payload` of the instance a record is handed to. What the ping-pong protocol answers is a move
of its own. -/
def postPayload (work : PktWorkData) (n : WireNode) (call : PostPayload) : WireNode :=
  if call.ins.protoType = .consensus ∧ work.remoteLid < n.node.numOfTargets then
    let pkt := Wire.conRecord work.userData.protoData call.payload
    n.goOn (.handle work.remoteLid pkt) n.node ((n.node.noteVote work.remoteLid pkt).consensusPostPayload
      work.remoteLid work.rclusterId pkt)
  else n

/-- `pkt_process_handler` for the `k`-th work item. -/
def pktProcessHandler (n : WireNode) (k : Nat) : WireNode :=
  match n.asgardWq[k]? with
  | none => n
  | some work =>
    (n.protos.handleSubPayloads work.userData.protoData 0 work.userData.protocolsIncluded.toNat
      work.bcnt).foldl (postPayload work) { n with asgardWq := n.asgardWq.eraseIdx k }

/-- `setup_pp_msg` of the instance at `j`, and `setup_ping_msg` where `start_leader` calls it. -/
def setupPpMsg (n : WireNode) (j lid : Nat) (r : PpRecord) : WireNode :=
  match n.protos.protos j with
  | some ⟨instanceId, .pp⟩ => n.updatePktData lid (·.putPp (UInt16.ofNat instanceId) r)
  | _ => n

end WireNode

end XlaneLkm
