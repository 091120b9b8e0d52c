import XlaneLkm.WireCluster
import XlaneLkm.PmCtrl

/-!
# The loop of the pacemaker

`do_pacemaker`, round after round. A round reads the clock once, and may send what is scheduled, what is
out of schedule, or one asynchronous packet for each target. Between two rounds the other threads of
the module do what they do to the device.

Every start of the pacemaker creates a thread, if the state allows it. All of them are bound to one CPU,
and the one in the loop does not give it away: a thread that is created while another is still in its
loop waits until that one has left.

`hold_fire` is set only while `setup_nomination` writes its messages, and nothing sets
`multicast_pkt_data_oos_fire`: no round finds either of them set.
-/

namespace XlaneLkm

open MachineInt

def Event.isPacemaker : Event → Bool
  | .tick | .pmStart | .pmStop | .pmHalt | .pmFail => true
  | _ => false

/-- What other threads than the pacemaker do to a device. -/
inductive StationMove where
  | act (e : Event)
  | pp (j lid : Nat) (r : PpRecord)
  | post (frame : Frame) (behind : Nat → UInt8) (cqeBcnt : UInt32) (postTs : Nat)
  | handle (k : Nat)

/-- The end of the consensus protocol. -/
def StationMove.isStop : StationMove → Bool
  | .act .stop => true
  | _ => false

namespace WireNode

def move (n : WireNode) : StationMove → WireNode
  | .act e => if e.isLocal ∧ e.isPacemaker = false then n.act e else n
  | .pp j lid r => n.setupPpMsg j lid r
  | .post frame behind cqeBcnt postTs => n.asgardPostPayload frame behind cqeBcnt postTs
  | .handle k => n.pktProcessHandler k

/-! ### What a round looks at -/

def outOfScheduleTx (n : WireNode) : Bool := (List.range n.node.numOfTargets).any n.fire

def checkAsyncDoor (n : WireNode) : Bool :=
  if n.node.sdev.multicastEnable then n.multicastAapriv.doorbell ≠ 0
  else (List.range n.node.numOfTargets).any fun i => (n.aapriv i).doorbell ≠ 0

/-- Whether `emit_async_pkts` returns an error: only `emit_async_multicast_pkt` does. -/
def asyncFails (n : WireNode) : Bool :=
  n.node.sdev.multicastEnable ∧ n.multicastAapriv.doorbell > 0 ∧
    n.multicastAapriv.headOfAsyncPktQueue.isEmpty

end WireNode

/-- The device and what `do_pacemaker` keeps from round to round. -/
structure PmLoop where
  station : WireNode
  timing : PmTiming
  /-- The copy of `hbi` that is made on entering the loop. -/
  interval : Nat
  prevTime : Nat
  errors : Nat
  /-- Whether a thread is in the loop. -/
  active : Bool
  /-- The threads that were created and have not entered `do_pacemaker` yet. -/
  created : Nat
  /-- History: the last reading of the clock. -/
  curTime : Nat
  /-- History: the readings at which heartbeats were sent in this loop, newest first. -/
  beats : List Nat

inductive PmEvent where
  /-- `asgard_pm_start_loop`. -/
  | start
  /-- A thread that was created enters `do_pacemaker`, with the clock at `curTime`. -/
  | enter (curTime : Nat)
  /-- The device is online for the `k`-th packet of the round if `link k`. -/
  | round (curTime : Nat) (link : Nat → Bool) (pings : Nat → Option PpRecord)
  /-- `asgard_pm_stop` by the user. -/
  | stop
  /-- Writes to `hbi` and `waiting_window`. -/
  | configure (timing : PmTiming)
  | other (move : StationMove)

namespace PmLoop

def init (station : WireNode) (timing : PmTiming) : PmLoop where
  station := station
  timing := timing
  interval := 0
  prevTime := 0
  errors := 0
  active := false
  created := 0
  curTime := 0
  beats := []

/-- `validate_pm` and the creation of the thread. -/
def asgardPmStartLoop (l : PmLoop) : PmLoop :=
  if l.station.node.sdev.pmState ≠ .ready then l else { l with created := l.created + 1 }

/-- `do_pacemaker` up to its loop. The state of the pacemaker is not looked at again. -/
def doPacemaker (l : PmLoop) (curTime : Nat) : PmLoop :=
  if l.active ∨ l.created = 0 then l
  else if l.timing.hbi = 0 then
    { l with
      station := l.station.act .pmFail
      created := l.created - 1 }
  else
    { l with
      station := l.station.act .pmStart
      interval := l.timing.hbi
      prevTime := curTime
      errors := 0
      active := true
      created := l.created - 1
      curTime := curTime
      beats := [] }

def postworkPmLoop (l : PmLoop) : PmLoop :=
  { l with
    station := l.station.act .pmStop
    active := false }

/-- `asgard_send_skb` counts the packets in a row that find the device offline. -/
def sendErrors (link : Nat → Bool) (k errors : Nat) : Nat :=
  (List.range k).foldl (fun errors j => if link j then 0 else errors + 1) errors

/-- The round has handed the packets to the device that `station` has more. -/
def sends (l : PmLoop) (link : Nat → Bool) (station : WireNode) : PmLoop :=
  { l with
    station := station
    errors := sendErrors link (station.emitted.length - l.station.emitted.length) l.errors }

/-- What a round does below its checks. -/
def emitRound (l : PmLoop) (link : Nat → Bool) (pings : Nat → Option PpRecord) : PmLoop :=
  match l.timing.round l.interval l.prevTime l.curTime with
  | .scheduled =>
    { l.sends link (l.station.tick pings) with
      prevTime := l.curTime
      beats := l.curTime :: l.beats }
  | .quiet => l
  | .unscheduled =>
    if l.station.outOfScheduleTx then l.sends link l.station.emitPktsNonScheduled
    else if l.station.checkAsyncDoor then
      if l.station.asyncFails then
        { l with
          station := l.station.act .pmHalt
          active := false }
      else l.sends link l.station.emitAsyncPkts
    else l

/-- One round of the loop. -/
def round (l : PmLoop) (curTime : Nat) (link : Nat → Bool) (pings : Nat → Option PpRecord) : PmLoop :=
  if l.active = false then l
  else if l.station.node.sdev.pmState ≠ .emitting then l.postworkPmLoop
  else if l.errors > 1000 then { l with curTime := curTime }.postworkPmLoop
  else { l with curTime := curTime }.emitRound link pings

def step (l : PmLoop) : PmEvent → PmLoop
  | .start => l.asgardPmStartLoop
  | .enter curTime => l.doPacemaker curTime
  | .round curTime link pings => l.round curTime link pings
  | .stop => { l with station := l.station.act .pmHalt }
  | .configure timing => { l with timing := timing }
  | .other move => { l with station := l.station.move move }

def run (l : PmLoop) (events : List PmEvent) : PmLoop := Run.run step l events

end PmLoop

end XlaneLkm
