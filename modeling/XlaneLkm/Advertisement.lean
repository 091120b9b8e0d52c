import XlaneLkm.Membership
import XlaneLkm.Wire

/-!
# Advertisements in bytes

A node that is not in a cluster yet puts its cluster id, its IP and its MAC address into its heartbeats
(`pacemaker.c`), and a receiver that does not know the sender looks for them (`pkthandler.c`). The
sender writes into the first record, the receiver is given the whole `struct asgard_payload`.
-/

namespace XlaneLkm

open ByteMemory MachineInt

namespace Wire

def setLeOpcodeAd (p : Nat) (opco : LeOpcode) (clusterId selfIp : Int) (selfMac : Vector UInt8 6)
    (m : Nat → UInt8) : Nat → UInt8 :=
  let m := write m (getConProtoOpcodePtr p) 2 opco.code
  let m := write m (getConProtoParam1Ptr p) 4 (u32 clusterId)
  let m := write m (getConProtoParam2Ptr p) 4 (u32 selfIp)
  copy m (getConProtoParam3Ptr p) 6 fun i => selfMac.getD i 0

def getProtoStartSubsPtr (p : Nat) : Nat := p + 2

def extractClusterIdFromAd (m : Nat → UInt8) (payload : Nat) : Int :=
  if (readU16 m (getConProtoOpcodePtr payload)).toNat ≠ LeOpcode.advertise.code then -1
  else asI32 (readU32 m (getConProtoParam1Ptr payload))

def extractClusterIpFromAd (m : Nat → UInt8) (payload : Nat) : UInt32 :=
  if (readU16 m (getConProtoOpcodePtr payload)).toNat ≠ LeOpcode.advertise.code then 0
  else readU32 m (getConProtoParam2Ptr payload)

end Wire

namespace AsgardPayload

/-- The bytes of the structure: `protocols_included`, and `proto_data` behind it. -/
def bytes (spay : AsgardPayload) : Nat → UInt8 :=
  write (fun q => spay.protoData (q - 2)) 0 2 spay.protocolsIncluded.toNat

def setupClusterJoinAdvertisement (spay : AsgardPayload) (advertiseId : Int) (ip : UInt32)
    (mac : Vector UInt8 6) : AsgardPayload × Int :=
  match spay.asgardReserveProto 1 (UInt16.ofNat asgardProtoConPayloadSz) with
  | (spay, none) => (spay, -1)
  | (spay, some p) =>
    ({ spay with
        protoData := Wire.setLeOpcodeAd p .advertise advertiseId (i32 ip.toNat) mac spay.protoData }, 0)

end AsgardPayload

/-- `pre_hb_setup` on the bytes of a payload; `setupProtos` is the loop over the protocol instances,
which need the cluster to be warmed up. -/
def Node.preHbPayload (n : Node) (setupProtos : AsgardPayload → AsgardPayload) (spay : AsgardPayload) :
    AsgardPayload :=
  if n.sdev.warmupState = .warmingUp then
    (spay.setupClusterJoinAdvertisement (i32 n.sdev.clusterId) n.sdev.selfIp n.sdev.selfMac).1
  else setupProtos spay

/-- `do_post_payload` with `remote_lid = -1` on the bytes of the packet; as in `Host.advertise`, `mac`
tells whether the uninitialised `cluster_mac_ad` is NULL. -/
def Host.postUnregistered (h : Host) (userData : Nat → UInt8) (mac : Bool) : Host :=
  if (Wire.readU16 userData (Wire.getConProtoOpcodePtr 0)).toNat = LeOpcode.advertise.code then
    let clusterIdAd := Wire.extractClusterIdFromAd userData (Wire.getProtoStartSubsPtr 0)
    if h.peerIsRegistered clusterIdAd then h
    else
      let clusterIpAd := Wire.extractClusterIpFromAd userData (Wire.getProtoStartSubsPtr 0)
      if clusterIdAd < 0 ∨ clusterIpAd = 0 ∨ mac = false then h
      else (h.registerPeerByIp clusterIpAd clusterIdAd).1
  else h

end XlaneLkm
