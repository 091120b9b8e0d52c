import XlaneLkm.Node
import XlaneLkm.SubPayload
import XlaneLkm.Library.Run

/-!
# Sub-payloads and their protocols

The walk of the receiver over a packet follows the offsets `asgard_reserve_proto` wrote, so it finds
every record of the chain, whatever the protocols put behind the headers. It looks up the instance of
each, and gives all of them the first record.
-/

namespace XlaneLkm

open ByteMemory MachineInt

/-! ### Registered instances -/

namespace ProtoTable

variable {t : ProtoTable} {ins : ProtoInstance}

/-- Every registered instance is mapped under its id. -/
structure Mapped (t : ProtoTable) : Prop where
  num_le : t.numOfProtoInstances ≤ maxProtoInstances
  mapping : ∀ idx < t.numOfProtoInstances, ∃ ins, t.protos idx = some ins ∧
    t.instanceIdMapping ins.instanceId = idx

/-- The instance is in the table. -/
def Registered (t : ProtoTable) (ins : ProtoInstance) : Prop :=
  ∃ idx < t.numOfProtoInstances, t.protos idx = some ins

theorem mapped_unmapAll (t : ProtoTable) : t.init.Mapped :=
  ⟨Nat.zero_le _, nofun⟩

/-- A slot past the registered ones and an unmapped id are free to use. -/
theorem Mapped.update (h : t.Mapped) (instanceId : Fin maxProtoInstances)
    (hfree : t.instanceIdMapping instanceId = -1) (o : Option ProtoInstance) (idx : Nat)
    (hidx : idx < t.numOfProtoInstances) :
    ∃ ins, Function.update t.protos t.numOfProtoInstances o idx = some ins ∧
      Function.update t.instanceIdMapping instanceId t.numOfProtoInstances ins.instanceId = idx := by
  obtain ⟨ins, hins, hmap⟩ := h.mapping idx hidx
  have hne : (ins.instanceId : Nat) ≠ instanceId := by
    intro heq
    rw [heq, hfree] at hmap
    omega
  exact ⟨ins, by rw [Function.update_of_ne hidx.ne, hins], by rw [Function.update_of_ne hne, hmap]⟩

theorem Mapped.register (h : t.Mapped) (instanceId : Fin maxProtoInstances) (protocolId : Int)
    (initOk : Bool) : (t.registerProtocolInstance instanceId protocolId initOk).1.Mapped := by
  unfold registerProtocolInstance
  dsimp only
  split
  · exact h
  case isFalse hroom =>
  split
  · exact h
  case isFalse hfree =>
  have hkeeps := h.update instanceId (not_not.mp hfree)
  split
  · refine ⟨h.num_le, fun idx hidx => ?_⟩
    obtain ⟨ins, hins, hmap⟩ := h.mapping idx hidx
    exact ⟨ins, (Function.update_of_ne hidx.ne _ _).trans hins, hmap⟩
  case h_2 protoType _ =>
  split
  · refine ⟨by dsimp only; omega, fun idx hidx => ?_⟩
    rcases Nat.lt_succ_iff_lt_or_eq.mp hidx with hold | rfl
    · exact hkeeps _ idx hold
    · exact ⟨⟨instanceId, protoType⟩, Function.update_self .., Function.update_self ..⟩
  · exact ⟨h.num_le, hkeeps _⟩

theorem Mapped.configure (h : t.Mapped) (s : Setting) : (t.configure s).Mapped := by
  cases s with
  | register instanceId protocolId initOk => exact h.register instanceId protocolId initOk
  | clear emitting =>
    simp only [ProtoTable.configure, clearProtocolInstances]
    split_ifs
    · exact h
    · exact h
    · exact ⟨Nat.zero_le _, nofun⟩

theorem mapped_run (t : ProtoTable) (settings : List Setting) :
    (Run.run configure t.init settings).Mapped :=
  Run.invariant_run configure (fun _ s h => h.configure s) (mapped_unmapAll t) settings

/-- `get_proto_instance` finds a registered instance, unless its id is above their number. -/
theorem Mapped.getProtoInstance_registered (h : t.Mapped) (hins : t.Registered ins) :
    t.getProtoInstance (UInt16.ofNat ins.instanceId) =
      if ins.instanceId ≤ t.numOfProtoInstances then some ins else none := by
  obtain ⟨idx, hidx, hproto⟩ := hins
  obtain ⟨ins', hins', hmap⟩ := h.mapping idx hidx
  obtain rfl : ins = ins' := Option.some.inj (hproto.symm.trans hins')
  have hid : (UInt16.ofNat ins.instanceId).toNat = ins.instanceId := by
    have hlt : ins.instanceId.val < 8 := ins.instanceId.isLt
    rw [UInt16.toNat_ofNat']
    omega
  simp only [getProtoInstance, hid, hmap]
  split
  · omega
  split
  · rw [if_neg (by omega)]
  · rw [if_neg (by omega), if_pos (by omega), Int.toNat_natCast, hproto]

end ProtoTable

/-! ### Chains of records -/

open SubRecord

/-- The headers of the records stand one behind the other from `p` on. -/
def Chain (m : Nat → UInt8) : Nat → List SubRecord → Prop
  | _, [] => True
  | p, r :: records => getProtoTypeVal m p = r.typeVal ∧ getProtoOffsetVal m p = r.protoSize ∧
      Chain m (p + r.protoSize.toNat) records

theorem header_congr {m m' : Nat → UInt8} {p : Nat} (h : ∀ q, p ≤ q → q < p + 4 → m q = m' q) :
    getProtoTypeVal m p = getProtoTypeVal m' p ∧ getProtoOffsetVal m p = getProtoOffsetVal m' p :=
  ⟨congrArg UInt16.ofNat (read_congr fun q hlow hhigh => h q hlow (by omega)),
    congrArg UInt16.ofNat (read_congr fun q hlow hhigh => h q (by omega) (by omega))⟩

theorem ofNat_mod (w : UInt16) : UInt16.ofNat (w.toNat % 256 ^ 2) = w := by
  have hlt : w.toNat % 256 ^ 2 = w.toNat := Nat.mod_eq_of_lt w.toNat_lt
  rw [hlt, UInt16.ofNat_toNat]

theorem header_setHeader (m : Nat → UInt8) (p : Nat) (instanceId protoSize : UInt16) :
    getProtoTypeVal (setHeader m p instanceId protoSize) p = instanceId ∧
      getProtoOffsetVal (setHeader m p instanceId protoSize) p = protoSize := by
  constructor
  · rw [getProtoTypeVal, setHeader, read_write_of_disjoint (by omega), read_write, ofNat_mod]
  · rw [getProtoOffsetVal, setHeader, read_write, ofNat_mod]

theorem setHeader_outside {m : Nat → UInt8} {p q : Nat} {instanceId protoSize : UInt16}
    (h : q < p ∨ p + 4 ≤ q) : setHeader m p instanceId protoSize q = m q := by
  rw [setHeader, write_outside (by omega), write_outside (by omega)]

theorem Chain.congr {m m' : Nat → UInt8} {p : Nat} {records : List SubRecord}
    (h : ∀ q, p ≤ q → q < p + chainSize records → m q = m' q) (hchain : Chain m p records) :
    Chain m' p records := by
  induction records generalizing p with
  | nil => trivial
  | cons r records ih =>
    obtain ⟨htype, hoffset, hrest⟩ := hchain
    have hheader := r.header_le
    have hsame : ∀ q, p ≤ q → q < p + 4 → m q = m' q := fun q hlow hhigh =>
      h q hlow (by rw [chainSize]; omega)
    obtain ⟨hsameType, hsameOffset⟩ := header_congr hsame
    exact ⟨hsameType.symm.trans htype, hsameOffset.symm.trans hoffset,
      ih (fun q hlow hhigh => h q (by omega) (by rw [chainSize]; omega)) hrest⟩

theorem chain_append {m : Nat → UInt8} {p : Nat} {records : List SubRecord} {r : SubRecord}
    (hchain : Chain m p records) (htype : getProtoTypeVal m (p + chainSize records) = r.typeVal)
    (hoffset : getProtoOffsetVal m (p + chainSize records) = r.protoSize) :
    Chain m p (records ++ [r]) := by
  induction records generalizing p with
  | nil => exact ⟨htype, hoffset, trivial⟩
  | cons r' records ih =>
    obtain ⟨htype', hoffset', hrest⟩ := hchain
    rw [chainSize, ← Nat.add_assoc] at htype hoffset
    exact ⟨htype', hoffset', ih hrest htype hoffset⟩

namespace AsgardPayload

variable {spay spay' : AsgardPayload} {records : List SubRecord} {r : SubRecord}

theorem findProto_chain {m : Nat → UInt8} {p : Nat} {instanceId : UInt16}
    (hchain : Chain m p records) (hnew : ∀ r ∈ records, r.typeVal ≠ instanceId) :
    findProto m instanceId records.length p = (false, p + chainSize records) := by
  induction records generalizing p with
  | nil => rfl
  | cons r records ih =>
    obtain ⟨htype, hoffset, hrest⟩ := hchain
    have hne : r.typeVal ≠ instanceId := hnew r List.mem_cons_self
    rw [List.length_cons, findProto, htype, if_neg hne, hoffset,
      ih hrest fun r hr => hnew r (List.mem_cons_of_mem _ hr), chainSize, Nat.add_assoc]

/-- The payload holds the records, one behind the other. -/
structure Holds (spay : AsgardPayload) (records : List SubRecord) : Prop where
  included : spay.protocolsIncluded.toNat = records.length
  chain : Chain spay.protoData 0 records

theorem holds_invalidate (spay : AsgardPayload) : spay.invalidateProtoData.Holds [] := ⟨rfl, trivial⟩

/-- **A new record goes to the end of the chain**, and nothing its protocol writes touches the headers
before. -/
theorem Holds.add (h : spay.Holds records) (hlen : records.length < 65535)
    (hnew : ∀ r' ∈ records, r'.typeVal ≠ r.typeVal) (hadd : spay.addRecord r = some spay') :
    spay'.Holds (records ++ [r]) := by
  unfold addRecord asgardReserveProto at hadd
  rw [h.included, findProto_chain h.chain hnew, Nat.zero_add] at hadd
  dsimp only at hadd
  split at hadd
  · cases hadd
  case h_2 heq =>
  split_ifs at heq
  · cases heq
  obtain ⟨rfl, hp⟩ := Prod.mk.inj heq
  obtain rfl := Option.some.inj hp
  obtain rfl := Option.some.inj hadd
  constructor
  · have hnum := h.included
    simp only [UInt16.toNat_add, List.length_append, List.length_singleton]
    change (spay.protocolsIncluded.toNat + 1) % 65536 = _
    omega
  · dsimp only
    obtain ⟨htype, hoffset⟩ := header_setHeader spay.protoData (chainSize records) r.typeVal r.protoSize
    obtain ⟨hfillType, hfillOffset⟩ := header_congr (p := chainSize records) fun q _ hhigh =>
      r.fill_before (chainSize records) (setHeader spay.protoData (chainSize records) r.typeVal
        r.protoSize) q hhigh
    refine chain_append (h.chain.congr fun q _ hhigh => ?_) ?_ ?_
    · rw [r.fill_before _ _ _ (by omega), setHeader_outside (by omega)]
    · rw [Nat.zero_add, hfillType, htype]
    · rw [Nat.zero_add, hfillOffset, hoffset]

/-- In a payload without records the reservation is the size check that the APPEND messages are modelled
with, and the record starts at the first byte. -/
theorem asgardReserveProto_invalidate (spay : AsgardPayload) (instanceId : UInt16) (size : Int) :
    (spay.invalidateProtoData.asgardReserveProto instanceId (UInt16.ofNat (u32 size))).2 =
      (XlaneLkm.asgardReserveProto size).map fun _ => 0 := by
  have hlt := (UInt16.ofNat (u32 size)).toNat_lt
  have hsize : i32 ((0 : Nat) + (UInt16.ofNat (u32 size)).toNat : Int) =
      (UInt16.ofNat (u32 size)).toNat := by
    rw [i32_eq_self] <;> omega
  have hcheck : ((UInt16.ofNat (u32 size)).toNat : Int) > maxAsgardPayloadBytes ↔
      (UInt16.ofNat (u32 size)).toNat > maxAsgardPayloadBytes := Int.ofNat_lt
  change (if i32 _ > _ then (_, none) else (_, some 0) : AsgardPayload × Option Nat).2 = _
  rw [hsize]
  simp only [XlaneLkm.asgardReserveProto, hcheck]
  split <;> rfl

theorem typeVal_injective {r r' : SubRecord} (h : r.typeVal = r'.typeVal) :
    r.ins.instanceId = r'.ins.instanceId := by
  have hlt : r.ins.instanceId.val < 8 := r.ins.instanceId.isLt
  have hlt' : r'.ins.instanceId.val < 8 := r'.ins.instanceId.isLt
  have heq := congrArg UInt16.toNat h
  simp only [typeVal, UInt16.toNat_ofNat'] at heq
  exact Fin.ext (by omega)

theorem Holds.addAll {before : List SubRecord} (h : spay.Holds before)
    (hlen : (before ++ records).length ≤ 65535)
    (hdistinct : ((before ++ records).map fun r => r.ins.instanceId).Nodup)
    (hadd : spay.includeAll records = some spay') : spay'.Holds (before ++ records) := by
  induction records generalizing spay before with
  | nil =>
    obtain rfl := Option.some.inj hadd
    rwa [List.append_nil]
  | cons r records ih =>
    obtain ⟨next, hnext, hrest⟩ := Option.bind_eq_some_iff.mp hadd
    have hsplit : before ++ r :: records = before ++ [r] ++ records := by simp
    rw [hsplit] at hlen hdistinct ⊢
    have hnew : ∀ r' ∈ before, r'.typeVal ≠ r.typeVal := by
      intro r' hr' heq
      rw [List.map_append, List.map_append] at hdistinct
      have hpair := (List.nodup_append.mp (List.nodup_append.mp hdistinct).1).2.2
      exact hpair _ (List.mem_map_of_mem hr') _ (List.mem_singleton_self _) (typeVal_injective heq)
    have hroom : before.length < 65535 := by
      simp only [List.length_append, List.length_singleton] at hlen
      omega
    exact ih (h.add hroom hnew hnext) hlen hdistinct hrest

end AsgardPayload

/-! ### The walk of the receiver -/

namespace ProtoTable

variable {t : ProtoTable} {m : Nat → UInt8} {records : List SubRecord}

/-- The calls that give every instance its own record. -/
def ownRecords : Nat → List SubRecord → List PostPayload
  | _, [] => []
  | p, r :: records => ⟨r.ins, p⟩ :: ownRecords (p + r.protoSize.toNat) records

/-- Each instance of the packet is called once, in order, and with its own record. -/
def ReachesOwn (t : ProtoTable) (spay : AsgardPayload) (bcnt : UInt32) (records : List SubRecord) :
    Prop :=
  t.handleSubPayloads spay.protoData 0 spay.protocolsIncluded.toNat bcnt = ownRecords 0 records

/-- **The walk agrees with the reservations**: it comes to every record of the chain, and calls the
instances that `get_proto_instance` finds, with the start of the packet. -/
theorem Mapped.headersRead_chain (h : t.Mapped) (payload : Nat) {p : Nat} {bcnt : UInt32}
    (hchain : Chain m p records) (hregistered : ∀ r ∈ records, t.Registered r.ins)
    (hbcnt : chainSize records ≤ bcnt.toNat) :
    (headersRead m records.length p bcnt).filterMap (t.postRecord m payload) =
      (records.filter fun r => r.ins.instanceId ≤ t.numOfProtoInstances).map
        fun r => ⟨r.ins, payload⟩ := by
  induction records generalizing p bcnt with
  | nil => rfl
  | cons r records ih =>
    obtain ⟨htype, hoffset, hrest⟩ := hchain
    have hheader := r.header_le
    rw [chainSize] at hbcnt
    have hleft : (bcnt - r.protoSize.toUInt32).toNat = bcnt.toNat - r.protoSize.toNat := by
      rw [UInt32.toNat_sub_of_le _ _ (UInt32.le_iff_toNat_le.mpr (by rw [UInt16.toNat_toUInt32]; omega)),
        UInt16.toNat_toUInt32]
    have hfound : t.getProtoInstance r.typeVal =
        if r.ins.instanceId ≤ t.numOfProtoInstances then some r.ins else none :=
      h.getProtoInstance_registered (hregistered r List.mem_cons_self)
    have hrest := ih hrest (fun r hr => hregistered r (List.mem_cons_of_mem _ hr))
      (show chainSize records ≤ (bcnt - r.protoSize.toUInt32).toNat by omega)
    rw [List.length_cons, headersRead_of_pos (by omega), hoffset, List.filterMap_cons, hrest,
      postRecord, htype, hfound]
    by_cases hid : r.ins.instanceId ≤ t.numOfProtoInstances
    · simp only [List.filter_cons, hid, decide_true, if_true, List.map_cons]
    · simp only [List.filter_cons, hid, decide_false, if_false, Bool.false_eq_true]

/-- **Each sub-payload reaches its own protocol exactly in packets with at most one record**, whose
instance has an id up to the number of instances. -/
theorem sub_payloads_iff (t : ProtoTable) (settings : List Setting) (spay spay' : AsgardPayload)
    (records : List SubRecord) (hlen : records.length ≤ 4)
    (hregistered : ∀ r ∈ records, (Run.run configure t.init settings).Registered r.ins)
    (hdistinct : (records.map fun r => r.ins.instanceId).Nodup)
    (hadd : spay.invalidateProtoData.includeAll records = some spay') (bcnt : UInt32)
    (hbcnt : chainSize records ≤ bcnt.toNat) :
    (Run.run configure t.init settings).ReachesOwn spay' bcnt records ↔
      records = [] ∨ ∃ r, records = [r] ∧
        r.ins.instanceId ≤ (Run.run configure t.init settings).numOfProtoInstances := by
  have hmapped := mapped_run t settings
  generalize Run.run configure t.init settings = t at *
  have hholds : spay'.Holds records := spay.holds_invalidate.addAll (by simp; omega) hdistinct hadd
  have hwalk := hmapped.headersRead_chain 0 hholds.chain hregistered hbcnt
  rw [ReachesOwn, handleSubPayloads, subPayloadHeaders, hholds.included, if_neg (by omega), hwalk]
  match records with
  | [] => simp [ownRecords]
  | [r] =>
    by_cases hid : r.ins.instanceId ≤ t.numOfProtoInstances
    · simp [ownRecords, hid]
    · simp [ownRecords, hid]
  | r :: r' :: records =>
    -- the second call would have to be given the second record
    have hheader := r.header_le
    constructor
    · intro heq
      have hmem : (⟨r'.ins, 0 + r.protoSize.toNat⟩ : PostPayload) ∈ ownRecords 0 (r :: r' :: records) :=
        List.mem_cons_of_mem _ List.mem_cons_self
      rw [← heq] at hmem
      obtain ⟨_, _, hcall⟩ := List.mem_map.mp hmem
      have hstart := congrArg PostPayload.payload hcall
      dsimp only at hstart
      omega
    · simp

/-- Consensus under id 1, ping-pong under id 2. -/
def twoInstances : List Setting := [.register 1 2 true, .register 2 3 true]

def emptyPayload : AsgardPayload := ⟨0, fun _ => 0⟩

/-- The leader of term 1. -/
def heartbeatLeader : Node := Node.run (consensusInit (smallConfig 1 [2, 3]) zeroUninit)
  (joining ++
    [.handle 0 (setLeOpcode .vote 1 0 0 0), .handle 1 (setLeOpcode .vote 1 0 0 0)])

def leaderAlive : SubRecord := alive heartbeatLeader ⟨1, .consensus⟩

def leaderPing : SubRecord := ping ⟨2, .pp⟩ 0 1000

theorem alive_fits : (emptyPayload.invalidateProtoData.includeAll [leaderAlive]).isSome := by
  decide +kernel

theorem sub_payloads_iff_alive :
    (Run.run configure emptyTable.init twoInstances).ReachesOwn
        ((emptyPayload.invalidateProtoData.includeAll [leaderAlive]).get alive_fits) 1418 [leaderAlive] ↔
      [leaderAlive] = [] ∨ ∃ r, [leaderAlive] = [r] ∧
        r.ins.instanceId ≤ (Run.run configure emptyTable.init twoInstances).numOfProtoInstances :=
  sub_payloads_iff emptyTable twoInstances emptyPayload _ [leaderAlive] (by decide)
    (List.forall_mem_singleton.mpr ⟨0, by decide, by decide⟩) (by decide)
    (Option.some_get alive_fits).symm 1418 (by decide)

theorem alive_and_ping_fit :
    (emptyPayload.invalidateProtoData.includeAll [leaderAlive, leaderPing]).isSome := by
  decide +kernel

/-- The ping-pong instance is given the ALIVE that stands before its ping. -/
theorem ping_gets_alive :
    ¬ ∀ (t : ProtoTable) (settings : List Setting) (spay spay' : AsgardPayload)
      (records : List SubRecord), records.length ≤ 4 →
      (∀ r ∈ records, (Run.run configure t.init settings).Registered r.ins) →
      (records.map fun r => r.ins.instanceId).Nodup →
      spay.invalidateProtoData.includeAll records = some spay' → ∀ bcnt : UInt32,
      chainSize records ≤ bcnt.toNat →
      (Run.run configure t.init settings).ReachesOwn spay' bcnt records := by
  intro h
  have hown := h emptyTable twoInstances emptyPayload _ [leaderAlive, leaderPing] (by decide)
    (List.forall_mem_cons.mpr ⟨⟨0, by decide, by decide⟩,
      List.forall_mem_singleton.mpr ⟨1, by decide, by decide⟩⟩) (by decide)
    (Option.some_get alive_and_ping_fit).symm 1418 (by decide)
  revert hown
  unfold ReachesOwn
  decide +kernel

end ProtoTable

end XlaneLkm
