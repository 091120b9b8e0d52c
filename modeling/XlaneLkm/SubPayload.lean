import XlaneLkm.Leader
import XlaneLkm.Proto
import XlaneLkm.Library.ByteMemory

/-!
# Records in the bytes of a packet

`asgard_reserve_proto` of `payload.c` and the walk of `handle_sub_payloads` in `pkthandler.c`, with
the two messages a heartbeat carries. A pointer into `proto_data` is its distance from the first byte;
what stands behind the array is part of the memory too, since nothing below stops at its end.
-/

namespace XlaneLkm

open ByteMemory MachineInt

def getProtoTypeVal (m : Nat → UInt8) (p : Nat) : UInt16 := UInt16.ofNat (read m p 2)

def getProtoOffsetVal (m : Nat → UInt8) (p : Nat) : UInt16 := UInt16.ofNat (read m (p + 2) 2)

/-- Id and offset of the record at `p`. -/
def setHeader (m : Nat → UInt8) (p : Nat) (instanceId protoSize : UInt16) : Nat → UInt8 :=
  write (write m p 2 instanceId.toNat) (p + 2) 2 protoSize.toNat

structure AsgardPayload where
  protocolsIncluded : UInt16
  protoData : Nat → UInt8

namespace AsgardPayload

/-- The loop of `asgard_reserve_proto` over `included` records from `p` on: whether one of them is of
the instance, and where it starts or else where the chain ends. -/
def findProto (m : Nat → UInt8) (instanceId : UInt16) : Nat → Nat → Bool × Nat
  | 0, p => (false, p)
  | included + 1, p =>
    if getProtoTypeVal m p = instanceId then (true, p)
    else findProto m instanceId included (p + (getProtoOffsetVal m p).toNat)

/-- `asgard_reserve_proto`: the payload and the record, `none` for NULL. -/
def asgardReserveProto (spay : AsgardPayload) (instanceId protoSize : UInt16) :
    AsgardPayload × Option Nat :=
  match findProto spay.protoData instanceId spay.protocolsIncluded.toNat 0 with
  | (true, p) => ({ spay with protoData := setHeader spay.protoData p instanceId protoSize }, some p)
  | (false, p) =>
    if i32 (p + protoSize.toNat) > maxAsgardPayloadBytes then (spay, none)
    else
      ({ protocolsIncluded := spay.protocolsIncluded + 1
         protoData := setHeader spay.protoData p instanceId protoSize }, some p)

def invalidateProtoData (spay : AsgardPayload) : AsgardPayload :=
  { spay with protocolsIncluded := 0 }

end AsgardPayload

/-- A record of a protocol: its size, and what the protocol writes once it has the record. It may write
past the end of the record, as `set_ae_data` does, but neither into the header nor before it. -/
structure SubRecord where
  ins : ProtoInstance
  protoSize : UInt16
  fill : Nat → (Nat → UInt8) → Nat → UInt8
  header_le : 4 ≤ protoSize.toNat
  fill_before : ∀ p m q, q < p + 4 → fill p m q = m q

namespace SubRecord

def typeVal (r : SubRecord) : UInt16 := UInt16.ofNat r.ins.instanceId

/-- Length of a chain of records. -/
def chainSize : List SubRecord → Nat
  | [] => 0
  | r :: records => r.protoSize.toNat + chainSize records

end SubRecord

namespace AsgardPayload

/-- A protocol reserves its record and fills it. -/
def addRecord (spay : AsgardPayload) (r : SubRecord) : Option AsgardPayload :=
  match spay.asgardReserveProto r.typeVal r.protoSize with
  | (_, none) => none
  | (spay, some p) => some { spay with protoData := r.fill p spay.protoData }

def includeAll (spay : AsgardPayload) : List SubRecord → Option AsgardPayload
  | [] => some spay
  | r :: records => (spay.addRecord r).bind fun spay => spay.includeAll records

end AsgardPayload

/-- A call of `post_payload`: the instance and the record it is given. -/
structure PostPayload where
  ins : ProtoInstance
  payload : Nat
  deriving DecidableEq

/-- The loop of `handle_sub_payloads`: the headers it reads, in order. -/
def headersRead (m : Nat → UInt8) : Nat → Nat → UInt32 → List Nat
  | 0, _, _ => []
  | instances + 1, curPayloadPtr, curBcnt =>
    if curBcnt ≤ 0 then []
    else
      let curOffset := getProtoOffsetVal m curPayloadPtr
      curPayloadPtr ::
        headersRead m instances (curPayloadPtr + curOffset.toNat) (curBcnt - curOffset.toUInt32)

theorem headersRead_of_pos {m : Nat → UInt8} {instances p : Nat} {bcnt : UInt32}
    (h : 0 < bcnt.toNat) : headersRead m (instances + 1) p bcnt =
    p :: headersRead m instances (p + (getProtoOffsetVal m p).toNat)
      (bcnt - (getProtoOffsetVal m p).toUInt32) := by
  have hpos : ¬bcnt ≤ 0 := by
    rw [UInt32.le_iff_toNat_le]
    exact Nat.not_le.mpr h
  rw [headersRead, if_neg hpos]

def subPayloadHeaders (m : Nat → UInt8) (payload instances : Nat) (bcnt : UInt32) : List Nat :=
  if instances > 4 then [] else headersRead m instances payload bcnt

namespace ProtoTable

/-- The call made for the header at `curPayloadPtr`, `none` when there is no such instance. -/
def postRecord (t : ProtoTable) (m : Nat → UInt8) (payload curPayloadPtr : Nat) :
    Option PostPayload :=
  match t.getProtoInstance (getProtoTypeVal m curPayloadPtr) with
  | none => none
  -- `payload`, not `cur_payload_ptr`
  | some ins => some ⟨ins, payload⟩

/-- `handle_sub_payloads`: the calls of `post_payload`, in order. -/
def handleSubPayloads (t : ProtoTable) (m : Nat → UInt8) (payload instances : Nat) (bcnt : UInt32) :
    List PostPayload :=
  (subPayloadHeaders m payload instances bcnt).filterMap (t.postRecord m payload)

end ProtoTable

/-! ### The records of a heartbeat -/

namespace Wire

def setLeOpcode (p : Nat) (opco : LeOpcode) (p1 p2 p3 p4 : Int) (m : Nat → UInt8) : Nat → UInt8 :=
  let m := write m (p + 4) 2 opco.code
  let m := write m (p + 6) 4 (u32 p1)
  let m := write m (p + 10) 4 (u32 p2)
  let m := write m (p + 14) 4 (u32 p3)
  write m (p + 18) 4 (u32 p4)

inductive PpOpcode where
  | ping | pong

def PpOpcode.code : PpOpcode → Nat
  | .ping => 10
  | .pong => 11

def setPpOpcode (p : Nat) (opco : PpOpcode) (id t1 t2 : UInt64) (m : Nat → UInt8) : Nat → UInt8 :=
  let m := write m (p + 4) 2 opco.code
  let m := write m (p + 6) 8 id.toNat
  let m := write m (p + 14) 8 t1.toNat
  write m (p + 22) 8 t2.toNat

end Wire

namespace SubRecord

/-- `setup_alive_msg`. -/
def alive (n : Node) (ins : ProtoInstance) : SubRecord where
  ins := ins
  protoSize := UInt16.ofNat asgardProtoConPayloadSz
  fill p := Wire.setLeOpcode p .alive n.priv.term n.smLog.commitIdx n.smLog.stableIdx n.sdev.hbInterval
  header_le := by decide
  fill_before p m q h := by
    simp only [Wire.setLeOpcode]
    iterate 5 rw [write_outside (by omega)]

/-- `setup_ping_msg`. -/
def ping (ins : ProtoInstance) (scheduledPings ts1 : UInt64) : SubRecord where
  ins := ins
  protoSize := UInt16.ofNat asgardProtoPpPayloadSz
  fill p := Wire.setPpOpcode p .ping scheduledPings ts1 0
  header_le := by decide
  fill_before p m q h := by
    simp only [Wire.setPpOpcode]
    iterate 4 rw [write_outside (by omega)]

end SubRecord

end XlaneLkm
