import XlaneLkm.Advertisement
import XlaneLkm.Proof.Wire

/-!
# No advertisement is recognised

The fields of the first record are where the receiver looks for them. But it looks for the opcode first,
and takes it from the packet as if this were a record: what stands there is the size of the first
record.
-/

namespace XlaneLkm

open ByteMemory MachineInt

open Wire

/-- What an advertisement arrives as is what the event `advertise` says, if it is recognised. -/
theorem Host.postUnregistered_eq (h : Host) (userData : Nat → UInt8) (mac : Bool)
    (hemitting : h.node.sdev.pmState = .emitting) : h.postUnregistered userData mac =
      if (readU16 userData (getConProtoOpcodePtr 0)).toNat = LeOpcode.advertise.code then
        h.advertise (extractClusterIdFromAd userData (getProtoStartSubsPtr 0))
          (extractClusterIpFromAd userData (getProtoStartSubsPtr 0)) mac
      else h := by
  rw [postUnregistered, advertise, if_neg (not_not.mpr hemitting)]

namespace AsgardPayload

variable {spay : AsgardPayload}

theorem read_bytes (spay : AsgardPayload) (p k : Nat) :
    read spay.bytes (p + 2) k = read spay.protoData p k := by
  rw [bytes, read_write_of_disjoint (by omega), read_shift]

/-- A payload that only advertisements have been put into. -/
def Advertises (spay : AsgardPayload) : Prop :=
  spay.protocolsIncluded = 0 ∨ getProtoTypeVal spay.protoData 0 = 1

theorem Advertises.reserve (h : spay.Advertises) : ∃ included,
    spay.asgardReserveProto 1 (UInt16.ofNat asgardProtoConPayloadSz) =
      (⟨included, setHeader spay.protoData 0 1 (UInt16.ofNat asgardProtoConPayloadSz)⟩, some 0) := by
  by_cases hempty : spay.protocolsIncluded = 0
  · exact ⟨1, reserve_empty hempty 1 (by decide)⟩
  · have htype := h.resolve_left hempty
    have hpos : spay.protocolsIncluded.toNat ≠ 0 := fun hzero => hempty (UInt16.toNat_inj.mp hzero)
    obtain ⟨k, hk⟩ := Nat.exists_eq_succ_of_ne_zero hpos
    refine ⟨spay.protocolsIncluded, ?_⟩
    rw [asgardReserveProto, hk, findProto, if_pos htype]

end AsgardPayload

namespace Wire

theorem setLeOpcodeAd_fields (opco : LeOpcode) (clusterId selfIp : Int) (selfMac : Vector UInt8 6)
    (m : Nat → UInt8) :
    getProtoTypeVal (setLeOpcodeAd 0 opco clusterId selfIp selfMac m) 0 = getProtoTypeVal m 0 ∧
      getProtoOffsetVal (setLeOpcodeAd 0 opco clusterId selfIp selfMac m) 0 = getProtoOffsetVal m 0 ∧
      readU16 (setLeOpcodeAd 0 opco clusterId selfIp selfMac m) 4 = UInt16.ofNat opco.code ∧
      readU32 (setLeOpcodeAd 0 opco clusterId selfIp selfMac m) 6 = toU32 clusterId ∧
      readU32 (setLeOpcodeAd 0 opco clusterId selfIp selfMac m) 10 = toU32 selfIp := by
  have hcode : opco.code < 65536 := by cases opco <;> decide
  have hmac : ∀ m q l, q + l ≤ 14 → read (copy m 14 6 fun i => selfMac.getD i 0) q l = read m q l :=
    fun m q l h => read_copy_of_disjoint (.inl h)
  have hmac16 : ∀ m q, q + 2 ≤ 14 →
      readU16 (copy m 14 6 fun i => selfMac.getD i 0) q = readU16 m q := fun m q h =>
    congrArg UInt16.ofNat (hmac m q 2 h)
  have hmac32 : ∀ m q, q + 4 ≤ 14 →
      readU32 (copy m 14 6 fun i => selfMac.getD i 0) q = readU32 m q := fun m q h =>
    congrArg UInt32.ofNat (hmac m q 4 h)
  have hmacType : ∀ m, getProtoTypeVal (copy m 14 6 fun i => selfMac.getD i 0) 0 =
      getProtoTypeVal m 0 := fun m => congrArg UInt16.ofNat (hmac m 0 2 (by omega))
  have hmacOffset : ∀ m, getProtoOffsetVal (copy m 14 6 fun i => selfMac.getD i 0) 0 =
      getProtoOffsetVal m 0 := fun m => congrArg UInt16.ofNat (hmac m (0 + 2) 2 (by omega))
  simp (disch := first | omega | exact u32_lt _ | exact hcode) only [setLeOpcodeAd,
    getConProtoOpcodePtr, getConProtoParam1Ptr, getConProtoParam2Ptr, getConProtoParam3Ptr,
    Nat.zero_add, Nat.reduceAdd, hmac16, hmac32, hmacType, hmacOffset, getProtoTypeVal_write_of_le,
    getProtoOffsetVal_write_of_le, readU16_write, readU16_write_of_disjoint, readU32_write,
    readU32_write_of_disjoint, toU32, and_self]

end Wire

/-- Each advertisement is put where the last one was. -/
theorem AsgardPayload.Advertises.preHbPayload {spay : AsgardPayload} (h : spay.Advertises) {n : Node}
    (hwarmup : n.sdev.warmupState = .warmingUp) (setupProtos : AsgardPayload → AsgardPayload) :
    (n.preHbPayload setupProtos spay).Advertises := by
  obtain ⟨included, hreserve⟩ := h.reserve
  rw [Node.preHbPayload, if_pos hwarmup, setupClusterJoinAdvertisement, hreserve]
  exact .inr ((setLeOpcodeAd_fields ..).1.trans (header_setHeader ..).1)

/-- **No receiver understands a join advertisement.** Whatever the sender and the receiver are, the
first record has the cluster id and the IP of the sender where they are extracted, and the receiver
does nothing with them. -/
theorem Host.postUnregistered_preHbPayload (n : Node) (hwarmup : n.sdev.warmupState = .warmingUp)
    (setupProtos : AsgardPayload → AsgardPayload) (spay : AsgardPayload) (hspay : spay.Advertises)
    (h : Host) (mac : Bool) (hnew : h.peerIsRegistered (i32 n.sdev.clusterId) = false) :
    let userData := (n.preHbPayload setupProtos spay).bytes
    extractClusterIdFromAd userData (getProtoStartSubsPtr 0) = i32 n.sdev.clusterId ∧
      extractClusterIpFromAd userData (getProtoStartSubsPtr 0) = n.sdev.selfIp ∧
      h.postUnregistered userData mac = h ∧
      (h.postUnregistered userData mac).peerIsRegistered (i32 n.sdev.clusterId) = false := by
  obtain ⟨included, hreserve⟩ := hspay.reserve
  obtain ⟨-, hsize⟩ := header_setHeader spay.protoData 0 1 (UInt16.ofNat asgardProtoConPayloadSz)
  obtain ⟨-, hoffset, hopcode, hid, hip⟩ := setLeOpcodeAd_fields .advertise (i32 n.sdev.clusterId)
    (i32 n.sdev.selfIp.toNat) n.sdev.selfMac
    (setHeader spay.protoData 0 1 (UInt16.ofNat asgardProtoConPayloadSz))
  have hpayload : n.preHbPayload setupProtos spay = ⟨included, Wire.setLeOpcodeAd 0 .advertise
      (i32 n.sdev.clusterId) (i32 n.sdev.selfIp.toNat) n.sdev.selfMac
      (setHeader spay.protoData 0 1 (UInt16.ofNat asgardProtoConPayloadSz))⟩ := by
    rw [Node.preHbPayload, if_pos hwarmup, AsgardPayload.setupClusterJoinAdvertisement, hreserve]
  intro userData
  have hread16 : ∀ p, readU16 userData (p + 2) = readU16 (n.preHbPayload setupProtos spay).protoData p :=
    fun p => congrArg UInt16.ofNat (AsgardPayload.read_bytes _ p 2)
  have hread32 : ∀ p, readU32 userData (p + 2) = readU32 (n.preHbPayload setupProtos spay).protoData p :=
    fun p => congrArg UInt32.ofNat (AsgardPayload.read_bytes _ p 4)
  rw [hpayload] at hread16 hread32
  have hrecord : (readU16 userData (getConProtoOpcodePtr (getProtoStartSubsPtr 0))).toNat =
      LeOpcode.advertise.code := by
    rw [← UInt16.toNat_ofNat_of_lt' (n := LeOpcode.advertise.code) (by decide)]
    exact congrArg UInt16.toNat ((hread16 4).trans hopcode)
  have hpacket : (readU16 userData (getConProtoOpcodePtr 0)).toNat = asgardProtoConPayloadSz :=
    congrArg UInt16.toNat ((hread16 2).trans (hoffset.trans hsize))
  have hignored : h.postUnregistered userData mac = h := by
    rw [Host.postUnregistered, hpacket]
    exact if_neg (by decide)
  refine ⟨?_, ?_, hignored, hignored.symm ▸ hnew⟩
  · rw [extractClusterIdFromAd, if_neg (not_not.mpr hrecord)]
    calc asI32 (readU32 userData (6 + 2))
        = asI32 (toU32 (i32 n.sdev.clusterId)) := congrArg asI32 ((hread32 6).trans hid)
      _ = i32 n.sdev.clusterId := by rw [asI32_toU32, i32_i32]
  · rw [extractClusterIpFromAd, if_neg (not_not.mpr hrecord)]
    calc readU32 userData (10 + 2)
        = toU32 (i32 n.sdev.selfIp.toNat) := (hread32 10).trans hip
      _ = n.sdev.selfIp := by rw [toU32, u32_i32, u32_toNat, UInt32.ofNat_toNat]

def joiner : Node :=
  consensusInit { smallConfig 7 [] with selfIp := 167772167, selfMac := #v[2, 0, 0, 0, 0, 7] } zeroUninit

def alone : Host := .init (smallConfig 1 []) zeroUninit

theorem joiner_not_registered :
    joiner.sdev.warmupState = .warmingUp ∧ 0 ≤ i32 joiner.sdev.clusterId ∧ joiner.sdev.selfIp ≠ 0 ∧
      alone.peerIsRegistered (i32 joiner.sdev.clusterId) = false ∧
      alone.node.numOfTargets < maxRemoteSources ∧
      (alone.postUnregistered (joiner.preHbPayload (fun spay => spay) ⟨0, fun _ => 0⟩).bytes
        true).peerIsRegistered (i32 joiner.sdev.clusterId) = false := by
  decide

theorem Host.postUnregistered_preHbPayload_joiner :
    (alone.postUnregistered (joiner.preHbPayload (fun spay => spay) ⟨0, fun _ => 0⟩).bytes
      true).peerIsRegistered (i32 joiner.sdev.clusterId) = false :=
  (Host.postUnregistered_preHbPayload joiner rfl (fun spay => spay) ⟨0, fun _ => 0⟩ (.inl rfl) alone
    true rfl).2.2.2

end XlaneLkm
