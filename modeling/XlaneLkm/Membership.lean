import XlaneLkm.Node

/-!
# Membership

`membership.c`, the two calls that register peers, and `asgard_post_ts`. A device keeps what it knows
of its peers twice: in the table of targets, which elections read, and in `struct cluster_info`, a page
that user space reads.
-/

namespace XlaneLkm

open MachineInt

/-- `state` of `struct cluster_member_info`. -/
inductive MemberState where
  | dead | alive | neverSeen
  deriving DecidableEq

/-- `struct cluster_info`. Its own role, its timestamp and its metrics are left out. A counter changes
by one at a time and is not reduced to 32 bits. -/
structure ClusterInfo where
  clusterSelfId : Int
  overallClusterMember : Int
  activeClusterMember : Int
  deadClusterMember : Int
  clusterJoins : Int
  clusterDropouts : Int
  /-- `member_info[local_id].state`. -/
  memberState : Nat → MemberState
  /-- `member_info[local_id].global_cluster_id`. -/
  globalClusterId : Nat → Int

namespace ClusterInfo

def addClusterMember (ci : ClusterInfo) (clusterId : Int) (localId : Nat) (initState : MemberState) :
    ClusterInfo :=
  if localId > maxClusterMember then ci
  else
    { ci with
      memberState := Function.update ci.memberState localId initState
      globalClusterId := Function.update ci.globalClusterId localId clusterId
      overallClusterMember := ci.overallClusterMember + 1 }

/-- `update_cluster_member`. A local id is a position in the table of targets, so the check for a
negative one is left out. -/
def updateClusterMember (ci : ClusterInfo) (localId : Nat) (state : MemberState) : ClusterInfo :=
  if localId > maxClusterMember then ci
  else
    let prevState := ci.memberState localId
    if state ≠ prevState then
      let ci :=
        if state = .dead ∧ prevState ≠ .neverSeen then
          { ci with
            deadClusterMember := ci.deadClusterMember + 1
            clusterDropouts := ci.clusterDropouts + 1 }
        else ci
      let ci :=
        if state = .alive then
          { ci with
            deadClusterMember :=
              if prevState = .neverSeen then ci.deadClusterMember else ci.deadClusterMember - 1
            activeClusterMember := ci.activeClusterMember + 1
            clusterJoins := ci.clusterJoins + 1 }
        else ci
      { ci with memberState := Function.update ci.memberState localId state }
    else ci

end ClusterInfo

/-- `update_aliveness_states` finds the target dead. -/
def TargetInfo.timesOut (t : TargetInfo) : Prop := t.curWaitingInterval = 0 ∧ t.lhbTs = t.chbTs

instance TargetInfo.timesOut.decidable (t : TargetInfo) : Decidable t.timesOut :=
  inferInstanceAs (Decidable (_ ∧ _))

/-- What a packet, or its timestamp, does to the target it comes from. -/
def TargetInfo.received (t : TargetInfo) (postTs : Nat) : TargetInfo :=
  { t with chbTs := postTs, alive := true }

/-- A device and what it shows to user space. -/
structure Host where
  node : Node
  ci : ClusterInfo

/-- A tuple of the target list: an address that is local to the device names its own cluster id. -/
structure TargetEntry where
  isLocal : Bool
  ip : UInt32
  clusterId : Int

inductive HostEvent where
  | node (e : Event)
  /-- An ADVERTISE of a sender that is not registered. Nothing initialises the pointer that stands for
  its MAC address; `mac` tells whether it is NULL. -/
  | advertise (clusterId : Int) (ip : UInt32) (mac : Bool)
  /-- A write to the target list: its tuples up to the first that cannot be parsed. -/
  | targetWrite (entries : List TargetEntry)
  /-- A timestamp of the NIC. -/
  | postTs (cycles : Nat) (ctype : Int)

namespace Host

/-- The position of a new peer is the number of targets in both callers. -/
def registerPeerByIp (h : Host) (ip : UInt32) (clusterId : Int) : Host × Option Errno :=
  if u32 clusterId = h.node.sdev.clusterId then
    ({ h with node.sdev.selfIp := ip }, some .einval)
  else if h.node.numOfTargets ≥ maxRemoteSources then (h, some .einval)
  else
    ({ node := { h.node with sdev.targets := h.node.sdev.targets ++ [registerPeer clusterId] }
       ci := h.ci.addClusterMember clusterId h.node.numOfTargets .neverSeen }, none)

def peerIsRegistered (h : Host) (clusterId : Int) : Bool :=
  h.node.sdev.targets.any fun t => t.clusterId = clusterId

/-- `do_post_payload` for a packet of an unregistered sender. -/
def advertise (h : Host) (clusterId : Int) (ip : UInt32) (mac : Bool) : Host :=
  if h.node.sdev.pmState ≠ .emitting then h
  else if h.peerIsRegistered clusterId then h
  else if clusterId < 0 ∨ ip = 0 ∨ mac = false then h
  else (h.registerPeerByIp ip clusterId).1

/-- One tuple of `asgard_target_write`, with `register_peer`. -/
def writeTarget (h : Host) (entry : TargetEntry) : Host :=
  if entry.isLocal then
    { node := { h.node with sdev.clusterId := u32 entry.clusterId }
      ci := { h.ci with clusterSelfId := entry.clusterId } }
  else (h.registerPeerByIp entry.ip entry.clusterId).1

def asgardTargetWrite (h : Host) (entries : List TargetEntry) : Host :=
  entries.foldl writeTarget { h with node.sdev.targets := [] }

/-- `asgard_post_ts`: channel 2 is the leader's. -/
def asgardPostTs (h : Host) (cycles : Nat) (ctype : Int) : Host :=
  if ctype = 2 ∧ h.node.sdev.curLeaderLid ≠ -1 then
    let targets := h.node.sdev.targets.modify h.node.sdev.curLeaderLid.toNat (·.received cycles)
    { h with node.sdev.targets := targets }
  else h

/-- The target at the position is found dead. -/
def timesOutAt (h : Host) (i : Nat) : Prop := ∃ t ∈ h.node.sdev.targets[i]?, t.timesOut

instance timesOutAt.decidable (h : Host) : DecidablePred h.timesOutAt := fun i =>
  inferInstanceAs (Decidable (∃ t ∈ h.node.sdev.targets[i]?, t.timesOut))

/-- What `update_aliveness_states` publishes for the target at the position. -/
def checkMember (h : Host) (ci : ClusterInfo) (i : Nat) : ClusterInfo :=
  if h.timesOutAt i then ci.updateClusterMember i .dead else ci

/-- What an event of the node publishes. The loop of `asgard_pm_stop` over the members has its
condition the wrong way round and never runs. -/
def published (h : Host) : Event → ClusterInfo
  | .rx lid _ =>
    if lid < h.node.numOfTargets ∧ h.node.sdev.pmState = .emitting then
      h.ci.updateClusterMember lid .alive
    else h.ci
  | .tick =>
    if h.node.sdev.pmState = .emitting then
      (List.range h.node.numOfTargets).foldl h.checkMember h.ci
    else h.ci
  | _ => h.ci

def step (h : Host) : HostEvent → Host
  | .node e => { node := h.node.step e, ci := h.published e }
  | .advertise clusterId ip mac => h.advertise clusterId ip mac
  | .targetWrite entries => h.asgardTargetWrite entries
  | .postTs cycles ctype => h.asgardPostTs cycles ctype

/-- The kernel build, before any peer is registered. -/
def init (c : Config) (u : Uninit) : Host where
  node := consensusInit { c with targets := [] } u
  ci :=
    { clusterSelfId := c.clusterId
      overallClusterMember := 1
      activeClusterMember := 0
      deadClusterMember := 0
      clusterJoins := 0
      clusterDropouts := 0
      memberState := fun _ => .dead
      globalClusterId := fun _ => 0 }

def run (h : Host) (events : List HostEvent) : Host := Run.run step h events

end Host

end XlaneLkm
