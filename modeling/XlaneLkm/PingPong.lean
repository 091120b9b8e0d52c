import XlaneLkm.Wire

/-!
# Ping pong

`pingpong.c`: numbered pings go out with the heartbeats, and a node notes when the pong of a round comes
back. `PingPong.written` is a history variable of ours. A local id is a position in the table of
targets, so the checks for a negative one are left out.
-/

namespace XlaneLkm

open ByteMemory MachineInt

namespace Wire

def getPpProtoOpcodePtr (p : Nat) : Nat := p + 2 + 2

def getPpNPtr (p : Nat) : Nat := p + 2 + 2 + 2

def getPpT1Ptr (p : Nat) : Nat := p + 2 + 2 + 2 + 8

def readU64 (m : Nat → UInt8) (p : Nat) : UInt64 := UInt64.ofNat (read m p 8)

end Wire

inductive PingpongState where
  | uninit | ready | running | stopped | full
  deriving DecidableEq

structure PingRoundTrip where
  n : UInt64
  ts1 : UInt64
  ts4 : UInt64

structure PingPongRoundTrip where
  receivedPongs : Nat
  scheduledPings : Nat
  roundTripData : Nat → PingRoundTrip

/-- A round of a target. -/
structure Round where
  targetLid : Nat
  roundId : Nat
  deriving DecidableEq

/-- `struct pingpong_priv` with the instance id and the number of targets. -/
structure PingPong where
  instanceId : UInt16
  numOfTargets : Nat
  state : PingpongState
  targetsRtMeta : Nat → PingPongRoundTrip
  /-- Rounds whose data was written to, newest first. -/
  written : List Round

namespace PingPong

/-- `pingpong_init`. What the allocator gives is a parameter, and so is what stands behind the array. -/
def pingpongInit (instanceId : UInt16) (numOfTargets : Nat) (uninit : Nat → PingPongRoundTrip) :
    PingPong where
  instanceId := instanceId
  numOfTargets := numOfTargets
  state := .ready
  targetsRtMeta i :=
    if i < clusterSize then ⟨0, 0, (uninit i).roundTripData⟩ else uninit i
  written := []

/-- `setup_pp_msg`, which returns 0 always; `spay` is the packet of the target. -/
def setupPpMsg (pp : PingPong) (spay : AsgardPayload) (opcode : Wire.PpOpcode) (id t1 : UInt64)
    (t2 : Int) : AsgardPayload :=
  match spay.asgardReserveProto pp.instanceId (UInt16.ofNat asgardProtoPpPayloadSz) with
  | (spay, none) => spay
  | (spay, some p) =>
    { spay with protoData := Wire.setPpOpcode p opcode id t1 (UInt64.ofNat (u64 t2)) spay.protoData }

def handlePong (pp : PingPong) (remoteLid : Nat) (roundId : UInt16) (ots : UInt64) : PingPong :=
  if remoteLid > pp.numOfTargets then pp
  else if roundId.toNat > maxPingPongRoundTrips then pp
  else
    let trip := pp.targetsRtMeta remoteLid
    { pp with
      targetsRtMeta := Function.update pp.targetsRtMeta remoteLid
        { trip with
          roundTripData := Function.update trip.roundTripData roundId.toNat
            { trip.roundTripData roundId.toNat with
              ts4 := ots
              n := roundId.toUInt64 }
          receivedPongs := trip.receivedPongs + 1 }
      written := ⟨remoteLid, roundId.toNat⟩ :: pp.written }

/-- `pingpong_post_payload` for the record at `payload` of a received packet. -/
def pingpongPostPayload (pp : PingPong) (remoteLid : Nat) (m : Nat → UInt8) (payload : Nat)
    (ots : UInt64) (spay : AsgardPayload) : PingPong × AsgardPayload :=
  if pp.state ≠ .running then (pp, spay)
  else
    let opcode := (Wire.readU16 m (Wire.getPpProtoOpcodePtr payload)).toNat
    -- the variables have 16 bits, the fields 64
    let ppId := (Wire.readU64 m (Wire.getPpNPtr payload)).toUInt16
    let ppT1 := (Wire.readU64 m (Wire.getPpT1Ptr payload)).toUInt16
    if opcode = Wire.PpOpcode.ping.code then
      (pp, pp.setupPpMsg spay .pong ppId.toUInt64 ppT1.toUInt64 0)
    else if opcode = Wire.PpOpcode.pong.code then (pp.handlePong remoteLid ppId ots, spay)
    else (pp, spay)

def addTs1ToLocalStore (pp : PingPong) (targetLid : Nat) (ts1 : UInt64) : PingPong :=
  if targetLid > pp.numOfTargets then pp
  else
    let trip := pp.targetsRtMeta targetLid
    if trip.scheduledPings ≥ maxPingPongRoundTrips then pp
    else
      { pp with
        targetsRtMeta := Function.update pp.targetsRtMeta targetLid
          { trip with
            roundTripData := Function.update trip.roundTripData trip.scheduledPings
              { trip.roundTripData trip.scheduledPings with ts1 := ts1 } }
        written := ⟨targetLid, trip.scheduledPings⟩ :: pp.written }

/-- `cur_target_trip->scheduled_pings++`. -/
def countPing (pp : PingPong) (targetLid : Nat) : PingPong :=
  let trip := pp.targetsRtMeta targetLid
  { pp with
    targetsRtMeta := Function.update pp.targetsRtMeta targetLid
      { trip with scheduledPings := trip.scheduledPings + 1 } }

/-- `setup_ping_msg`; `ts1` is the time stamp taken in it. -/
def setupPingMsg (pp : PingPong) (spay : AsgardPayload) (targetLid : Nat) (ts1 : UInt64) :
    (PingPong × AsgardPayload) × Int :=
  if pp.state ≠ .running then ((pp, spay), 0)
  else if targetLid > pp.numOfTargets then ((pp, spay), -1)
  else
    let scheduledPings := (pp.targetsRtMeta targetLid).scheduledPings
    if scheduledPings ≥ maxPingPongRoundTrips then (({ pp with state := .stopped }, spay), 0)
    else
      match spay.asgardReserveProto pp.instanceId (UInt16.ofNat asgardProtoPpPayloadSz) with
      | (spay, none) => ((pp, spay), -1)
      | (spay, some p) =>
        let protoData := Wire.setPpOpcode p .ping (UInt64.ofNat scheduledPings) ts1 0 spay.protoData
        (((pp.addTs1ToLocalStore targetLid ts1).countPing targetLid, { spay with protoData }), 0)

end PingPong

/-- What happens to a ping pong instance. The packet that a message goes to comes with the event. -/
inductive PingPongEvent where
  | start
  | stop
  | postPayload (remoteLid : Nat) (m : Nat → UInt8) (payload : Nat) (ots : UInt64)
      (spay : AsgardPayload)
  | setupPing (spay : AsgardPayload) (targetLid : Nat) (ts1 : UInt64)

namespace PingPong

def step (pp : PingPong) : PingPongEvent → PingPong
  | .start => { pp with state := .running }
  | .stop => { pp with state := .stopped }
  | .postPayload remoteLid m payload ots spay =>
    (pp.pingpongPostPayload remoteLid m payload ots spay).1
  | .setupPing spay targetLid ts1 => (pp.setupPingMsg spay targetLid ts1).1.1

end PingPong

end XlaneLkm
