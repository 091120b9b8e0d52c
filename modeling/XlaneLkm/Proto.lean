import XlaneLkm.Parameters
import Mathlib.Algebra.GroupWithZero.Nat
import Mathlib.Logic.Function.Basic

/-!
# Protocol instances

`proto.c` with `generate_protocol_instance` of `libasraft.c`, `get_proto_instance` of `pkthandler.c`
and `clear_protocol_instances` of `module.c`. Instances are registered under an id and found by it
when a packet arrives.
-/

namespace XlaneLkm

/-- `enum asgard_protocol_type`. -/
inductive ProtocolType where
  | echo | fd | consensus | pp
  deriving DecidableEq

instance neZero_maxProtoInstances : NeZero maxProtoInstances := ⟨Nat.succ_ne_zero 7⟩

structure ProtoInstance where
  instanceId : Fin maxProtoInstances
  protoType : ProtocolType
  deriving DecidableEq

/-- The protocol instances in `struct asgard_device`. The `none` of an entry of `protos` is NULL. -/
structure ProtoTable where
  numOfProtoInstances : Nat
  instanceIdMapping : Nat → Int
  protos : Nat → Option ProtoInstance

/-- `generate_protocol_instance`: failure detector and echo are commented out. -/
def generateProtocolInstance (protocolId : Int) : Option ProtocolType :=
  if protocolId = 2 then some .consensus
  else if protocolId = 3 then some .pp
  else none

namespace ProtoTable

/-- A table in zeroed memory. -/
def emptyTable : ProtoTable := ⟨0, fun _ => 0, fun _ => none⟩

/-- Every id within the array is unmapped. -/
def unmapAll (mapping : Nat → Int) : Nat → Int :=
  fun i => if i < maxProtoInstances then -1 else mapping i

/-- What `init_asgard_device` makes of the memory it finds. -/
def init (t : ProtoTable) : ProtoTable :=
  { t with numOfProtoInstances := 0, instanceIdMapping := unmapAll t.instanceIdMapping }

/-- `register_protocol_instance`, where the `init` operation of the new instance succeeds or not:
the table, and whether `return 0` is reached. -/
def registerProtocolInstance (t : ProtoTable) (instanceId : Fin maxProtoInstances)
    (protocolId : Int) (initOk : Bool) : ProtoTable × Bool :=
  let idx := t.numOfProtoInstances
  if idx ≥ maxProtoInstances then (t, false)
  else if t.instanceIdMapping instanceId ≠ -1 then (t, false)
  else
    match generateProtocolInstance protocolId with
    | none => ({ t with protos := Function.update t.protos idx none }, false)
    | some protoType =>
      let t := { t with
        protos := Function.update t.protos idx (some ⟨instanceId, protoType⟩)
        instanceIdMapping := Function.update t.instanceIdMapping instanceId idx }
      if initOk then ({ t with numOfProtoInstances := idx + 1 }, true) else (t, false)

/-- `clear_protocol_instances`, which does nothing while the pacemaker runs. -/
def clearProtocolInstances (t : ProtoTable) (emitting : Bool) : ProtoTable :=
  if t.numOfProtoInstances > maxProtoInstances then t
  else if emitting then t
  else { t with numOfProtoInstances := 0, instanceIdMapping := unmapAll t.instanceIdMapping }

def getProtoInstance (t : ProtoTable) (protoId : UInt16) : Option ProtoInstance :=
  if t.numOfProtoInstances = 0 then none
  else if protoId.toNat > t.numOfProtoInstances then none
  else
    let idx := t.instanceIdMapping protoId.toNat
    if idx < 0 ∨ idx ≥ t.numOfProtoInstances then none else t.protos idx.toNat

/-- Configuration of a device. -/
inductive Setting where
  | register (instanceId : Fin maxProtoInstances) (protocolId : Int) (initOk : Bool)
  | clear (emitting : Bool)

def configure (t : ProtoTable) : Setting → ProtoTable
  | .register instanceId protocolId initOk =>
    (t.registerProtocolInstance instanceId protocolId initOk).1
  | .clear emitting => t.clearProtocolInstances emitting

end ProtoTable

end XlaneLkm
