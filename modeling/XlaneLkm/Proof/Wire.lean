import XlaneLkm.Wire
import XlaneLkm.Proof.Appending
import XlaneLkm.Proof.SubPayloads

/-!
# The wire format of the consensus protocol

What `set_ae_data` and `set_le_opcode` write is what the accessors of the receiver read. The record of
bytes is the record the messages are modelled with, and the reservation keeps its header.
-/

namespace XlaneLkm

open ByteMemory MachineInt

namespace Wire

variable {m m' : Nat → UInt8} {p q k l : Nat}

/-! ### Fields -/

theorem readU16_write (m : Nat → UInt8) (p : Nat) {v : Nat} (hv : v < 65536) :
    readU16 (write m p 2 v) p = UInt16.ofNat v := by
  have hmod : v % 256 ^ 2 = v := Nat.mod_eq_of_lt hv
  rw [readU16, read_write, hmod]

theorem readU16_write_of_disjoint {v : Nat} (h : q + 2 ≤ p ∨ p + k ≤ q) :
    readU16 (write m p k v) q = readU16 m q := by
  rw [readU16, read_write_of_disjoint h, readU16]

theorem readU32_write (m : Nat → UInt8) (p : Nat) {v : Nat} (hv : v < 4294967296) :
    readU32 (write m p 4 v) p = UInt32.ofNat v := by
  have hmod : v % 256 ^ 4 = v := Nat.mod_eq_of_lt hv
  rw [readU32, read_write, hmod]

theorem readU32_write_of_disjoint {v : Nat} (h : q + 4 ≤ p ∨ p + k ≤ q) :
    readU32 (write m p k v) q = readU32 m q := by
  rw [readU32, read_write_of_disjoint h, readU32]

theorem getProtoTypeVal_write_of_le {v : Nat} (h : p + 4 ≤ q) :
    getProtoTypeVal (write m q k v) p = getProtoTypeVal m p := by
  rw [getProtoTypeVal, read_write_of_disjoint (by omega), getProtoTypeVal]

theorem getProtoOffsetVal_write_of_le {v : Nat} (h : p + 4 ≤ q) :
    getProtoOffsetVal (write m q k v) p = getProtoOffsetVal m p := by
  rw [getProtoOffsetVal, read_write_of_disjoint (by omega), getProtoOffsetVal]

theorem chunkAt_congr (h : ∀ i < asgChunkSize, m (p + i) = m' (p + i)) :
    chunkAt m p = chunkAt m' p :=
  congrArg DataChunk.mk (congrArg Vector.ofFn (funext fun i => h i i.isLt))

theorem chunkAt_write_of_le {v : Nat} (h : q + k ≤ p) : chunkAt (write m q k v) p = chunkAt m p :=
  chunkAt_congr fun _ _ => write_outside (by omega)

/-! ### Entries -/

theorem chunkAt_copyChunk (m : Nat → UInt8) (p : Nat) (chunk : DataChunk) :
    chunkAt (copyChunk m p chunk) p = chunk := by
  have hbyte : ∀ i : Fin asgChunkSize, copyChunk m p chunk (p + i) = chunk.data.get i := by
    intro i
    rw [copyChunk, copy_inside i.isLt]
    exact Array.getD_eq_getD_getElem?.trans (by simp [Vector.get])
  obtain ⟨data⟩ := chunk
  refine congrArg DataChunk.mk (Vector.ext fun i hi => ?_)
  rw [Vector.getElem_ofFn]
  exact hbyte ⟨i, hi⟩

theorem setEntries_outside (log : SmLog) (i : Int) (h : q < p ∨ p + asgChunkSize * k ≤ q) :
    setEntries log i p k m q = m q := by
  induction k generalizing i p m with
  | zero => rfl
  | succ k ih =>
    rw [Nat.mul_succ] at h
    have hsize : asgChunkSize = 4 + 4 := rfl
    rw [setEntries, ih (i + 1) (by omega), copyChunk, copy_outside (by omega)]

/-- The `j`-th chunk behind the fixed part is the command `j` places after the first. -/
theorem chunkAt_setEntries (log : SmLog) (i : Int) {j : Nat} (hj : j < k) :
    chunkAt (setEntries log i p k m) (p + asgChunkSize * j) = (log.entry (i + j)).dataChunk := by
  induction k generalizing i p m j with
  | zero => exact absurd hj (Nat.not_lt_zero j)
  | succ k ih =>
    have hsize : asgChunkSize = 4 + 4 := rfl
    rw [setEntries]
    cases j with
    | zero =>
      have hbefore : ∀ b < asgChunkSize, setEntries log (i + 1) (p + 4 + 4) k
          (copyChunk m p (log.entry i).dataChunk) (p + b) =
          copyChunk m p (log.entry i).dataChunk (p + b) := fun b hb =>
        setEntries_outside log (i + 1) (.inl (by omega))
      rw [Nat.mul_zero, Nat.add_zero p, chunkAt_congr hbefore, chunkAt_copyChunk, Int.natCast_zero,
        Int.add_zero]
    | succ j =>
      have hplace : p + asgChunkSize * (j + 1) = p + 4 + 4 + asgChunkSize * j := by
        rw [Nat.mul_succ]
        omega
      have hidx : i + (j + 1 : Nat) = i + 1 + j := by omega
      rw [hplace, hidx]
      exact ih (i + 1) (Nat.lt_of_succ_lt_succ hj)

theorem readU32_setEntries (log : SmLog) (i : Int) (h : q + 4 ≤ p) :
    readU32 (setEntries log i p k m) q = readU32 m q :=
  congrArg UInt32.ofNat (read_congr fun _ _ _ => setEntries_outside log i (.inl (by omega)))

theorem readU16_setEntries (log : SmLog) (i : Int) (h : q + 2 ≤ p) :
    readU16 (setEntries log i p k m) q = readU16 m q :=
  congrArg UInt16.ofNat (read_congr fun _ _ _ => setEntries_outside log i (.inl (by omega)))

/-! ### Records -/

/-- The fixed part stands in the record at `p`, and nothing else has changed. -/
structure FixedPart (m : Nat → UInt8) (p : Nat) (term leaderId firstIdx prevLogTerm
    leaderCommitIdx included : Int) (fixed : Nat → UInt8) : Prop where
  outside : ∀ q, q < p + 4 ∨ p + 30 ≤ q → fixed q = m q
  opcode : readU16 fixed (p + 4) = UInt16.ofNat LeOpcode.append.code
  term : readU32 fixed (p + 6) = toU32 term
  leaderId : readU32 fixed (p + 10) = toU32 leaderId
  prevLogIdx : readU32 fixed (p + 14) = toU32 (firstIdx - 1)
  prevLogTerm : readU32 fixed (p + 18) = toU32 prevLogTerm
  leaderCommitIdx : readU32 fixed (p + 22) = toU32 leaderCommitIdx
  numEntries : readU32 fixed (p + 26) = toU32 included

/-- The writes of `set_ae_data` before its checks. -/
def writeFixed (p : Nat) (term leaderId firstIdx prevLogTerm leaderCommitIdx num : Int)
    (m : Nat → UInt8) : Nat → UInt8 :=
  let m := write m (p + 4) 2 LeOpcode.append.code
  let m := write m (p + 6) 4 (u32 term)
  let m := write m (p + 10) 4 (u32 leaderId)
  let m := write m (p + 14) 4 (u32 (firstIdx - 1))
  let m := write m (p + 18) 4 (u32 prevLogTerm)
  let m := write m (p + 26) 4 (u32 num)
  write m (p + 22) 4 (u32 leaderCommitIdx)

section Fixed

variable (m : Nat → UInt8) (p : Nat) (term leaderId firstIdx prevLogTerm leaderCommitIdx num : Int)

theorem fixedPart_writeFixed :
    FixedPart m p term leaderId firstIdx prevLogTerm leaderCommitIdx num
      (writeFixed p term leaderId firstIdx prevLogTerm leaderCommitIdx num m) := by
  have hcode : LeOpcode.append.code < 65536 := by decide
  constructor
  · intro q hq
    simp only [writeFixed]
    iterate 7 rw [write_outside (by omega)]
  all_goals simp (disch := first | omega | exact u32_lt _ | exact hcode) only [writeFixed,
    readU16_write, readU16_write_of_disjoint, readU32_write, readU32_write_of_disjoint, toU32]

variable {m p term leaderId firstIdx prevLogTerm leaderCommitIdx num}

theorem FixedPart.clear {fixed : Nat → UInt8}
    (h : FixedPart m p term leaderId firstIdx prevLogTerm leaderCommitIdx num fixed) :
    FixedPart m p term leaderId firstIdx prevLogTerm leaderCommitIdx 0
      (write fixed (p + 26) 4 0) where
  outside q hq := by rw [write_outside (by omega), h.outside q hq]
  opcode := by rw [readU16_write_of_disjoint (by omega), h.opcode]
  term := by rw [readU32_write_of_disjoint (by omega), h.term]
  leaderId := by rw [readU32_write_of_disjoint (by omega), h.leaderId]
  prevLogIdx := by rw [readU32_write_of_disjoint (by omega), h.prevLogIdx]
  prevLogTerm := by rw [readU32_write_of_disjoint (by omega), h.prevLogTerm]
  leaderCommitIdx := by rw [readU32_write_of_disjoint (by omega), h.leaderCommitIdx]
  numEntries := readU32_write fixed (p + 26) (by decide)

end Fixed

theorem setAeData_eq (p : Nat) (term leaderId firstIdx prevLogTerm leaderCommitIdx : Int)
    (log : SmLog) (num : Int) (m : Nat → UInt8) : ∃ fixed,
    setAeData p term leaderId firstIdx prevLogTerm leaderCommitIdx log num m =
        setEntries log firstIdx (p + 30) (copiedEntries log firstIdx num) fixed ∧
      FixedPart m p term leaderId firstIdx prevLogTerm leaderCommitIdx
        (includedEntries log firstIdx num) fixed := by
  have hfixed := fixedPart_writeFixed m p term leaderId firstIdx prevLogTerm leaderCommitIdx num
  have hzero := hfixed.clear
  unfold copiedEntries includedEntries
  by_cases hnum : num = 0
  · rw [if_pos hnum, if_pos rfl]
    exact ⟨_, if_pos hnum, hnum ▸ hfixed⟩
  by_cases hfirst : firstIdx > log.lastIdx
  · rw [if_neg hnum, if_pos hfirst, if_pos rfl]
    exact ⟨_, (if_neg hnum).trans (if_pos hfirst), hzero⟩
  by_cases hlast : i32 (firstIdx + (num - 1)) > log.lastIdx
  · rw [if_neg hnum, if_neg hfirst, if_pos hlast, if_pos rfl]
    exact ⟨_, (if_neg hnum).trans ((if_neg hfirst).trans (if_pos hlast)), hzero⟩
  · rw [if_neg hnum, if_neg hfirst, if_neg hlast, if_neg hnum]
    exact ⟨_, (if_neg hnum).trans ((if_neg hfirst).trans (if_neg hlast)), hfixed⟩

/-- **The bytes of an APPEND are the record it is modelled with.** Behind the entries stands what was
there before. -/
theorem conRecord_setAeData (p : Nat) (term leaderId firstIdx prevLogTerm leaderCommitIdx : Int)
    (log : SmLog) (num : Int) (m : Nat → UInt8) :
    conRecord (setAeData p term leaderId firstIdx prevLogTerm leaderCommitIdx log num m) p =
      { XlaneLkm.setAeData (getProtoOffsetVal m p) term leaderId firstIdx prevLogTerm
          leaderCommitIdx log num with
        entries := fun k => if k < copiedEntries log firstIdx num
          then (log.entry (firstIdx + k)).dataChunk else chunkAt m (p + 30 + asgChunkSize * k) } := by
  obtain ⟨fixed, heq, hfixed⟩ := setAeData_eq p term leaderId firstIdx prevLogTerm leaderCommitIdx
    log num m
  have hoffset : getProtoOffsetVal (setEntries log firstIdx (p + 30)
      (copiedEntries log firstIdx num) fixed) p = getProtoOffsetVal m p :=
    calc getProtoOffsetVal (setEntries log firstIdx (p + 30) _ fixed) p
        = getProtoOffsetVal fixed p :=
          (header_congr fun q _ hhigh => setEntries_outside log firstIdx (.inl (by omega))).2
      _ = getProtoOffsetVal m p :=
          (header_congr fun q _ hhigh => hfixed.outside q (.inl hhigh)).2
  rw [heq, conRecord, XlaneLkm.setAeData, ConRecord.mk.injEq]
  simp (disch := omega) only [getConProtoOpcodePtr, getConProtoParam1Ptr, getConProtoParam2Ptr,
    getConProtoParam3Ptr, getConProtoParam4Ptr, getConAePrevLeaderCommitIdxPtr,
    getConAeNumEntriesPtr, getConProtoEntriesStartPtr, Nat.add_assoc, Nat.reduceAdd]
  refine ⟨hoffset, ?_, ?_, ?_, ?_, ?_, ?_, ?_, funext fun k => ?_⟩
  · exact (readU16_setEntries log firstIdx (by omega)).trans hfixed.opcode
  · exact (readU32_setEntries log firstIdx (by omega)).trans hfixed.term
  · exact (readU32_setEntries log firstIdx (by omega)).trans hfixed.leaderId
  · exact (readU32_setEntries log firstIdx (by omega)).trans hfixed.prevLogIdx
  · exact (readU32_setEntries log firstIdx (by omega)).trans hfixed.prevLogTerm
  · exact (readU32_setEntries log firstIdx (by omega)).trans hfixed.leaderCommitIdx
  · exact (readU32_setEntries log firstIdx (by omega)).trans hfixed.numEntries
  · rw [← Nat.add_assoc]
    split
    case isTrue hk => exact chunkAt_setEntries log firstIdx hk
    case isFalse hk =>
      refine chunkAt_congr fun b hb => ?_
      have hplace : asgChunkSize * copiedEntries log firstIdx num ≤ asgChunkSize * k :=
        Nat.mul_le_mul_left _ (by omega)
      rw [setEntries_outside log firstIdx (.inr (by omega)), hfixed.outside _ (.inr (by omega))]

/-- **The bytes of the messages of leader election are the record they are modelled with.** -/
theorem conRecord_setLeOpcode (p : Nat) (opco : LeOpcode) (p1 p2 p3 p4 : Int) (m : Nat → UInt8) :
    conRecord (setLeOpcode p opco p1 p2 p3 p4 m) p =
      { XlaneLkm.setLeOpcode opco p1 p2 p3 p4 with
        pktSize := getProtoOffsetVal m p
        leaderCommitIdx := readU32 m (p + 22)
        numEntries := readU32 m (p + 26)
        entries := fun k => chunkAt m (p + 30 + asgChunkSize * k) } := by
  have hcode : opco.code < 65536 := by cases opco <;> decide
  simp (disch := first | omega | exact u32_lt _ | exact hcode) only [conRecord, setLeOpcode,
    XlaneLkm.setLeOpcode, getConProtoOpcodePtr, getConProtoParam1Ptr, getConProtoParam2Ptr,
    getConProtoParam3Ptr, getConProtoParam4Ptr, getConAePrevLeaderCommitIdxPtr,
    getConAeNumEntriesPtr, getConProtoEntriesStartPtr, Nat.add_assoc, Nat.reduceAdd,
    getProtoOffsetVal_write_of_le, readU16_write, readU16_write_of_disjoint, readU32_write,
    readU32_write_of_disjoint, chunkAt_write_of_le, toU32]

theorem chunkAt_fresh (instanceId protoSize : UInt16) (h : 4 ≤ p) :
    chunkAt (setHeader (fun _ => 0) 0 instanceId protoSize) p = DataChunk.zero := by
  have hzero : chunkAt (setHeader (fun _ => 0) 0 instanceId protoSize) p = chunkAt (fun _ => 0) p :=
    chunkAt_congr fun _ _ => setHeader_outside (.inr (by omega))
  rw [hzero, chunkAt, DataChunk.zero]
  exact congrArg DataChunk.mk (Vector.ext fun i hi => by simp)

theorem conRecord_setAeData_fresh (instanceId protoSize : UInt16)
    (term leaderId firstIdx prevLogTerm leaderCommitIdx : Int) (log : SmLog) (num : Int) :
    conRecord (setAeData 0 term leaderId firstIdx prevLogTerm leaderCommitIdx log num
        (setHeader (fun _ => 0) 0 instanceId protoSize)) 0 =
      XlaneLkm.setAeData protoSize term leaderId firstIdx prevLogTerm leaderCommitIdx log num := by
  obtain ⟨-, hoffset⟩ := header_setHeader (fun _ => 0) 0 instanceId protoSize
  rw [conRecord_setAeData, hoffset, XlaneLkm.setAeData, ConRecord.mk.injEq]
  refine ⟨rfl, rfl, rfl, rfl, rfl, rfl, rfl, rfl, funext fun k => ?_⟩
  rw [chunkAt_fresh instanceId protoSize (by omega)]

theorem conRecord_setLeOpcode_fresh (instanceId : UInt16) (opco : LeOpcode) (p1 p2 p3 p4 : Int) :
    conRecord (setLeOpcode 0 opco p1 p2 p3 p4
        (setHeader (fun _ => 0) 0 instanceId (UInt16.ofNat asgardProtoConPayloadSz))) 0 =
      XlaneLkm.setLeOpcode opco p1 p2 p3 p4 := by
  obtain ⟨-, hoffset⟩ := header_setHeader (fun _ => 0) 0 instanceId
    (UInt16.ofNat asgardProtoConPayloadSz)
  have hread : ∀ q, 4 ≤ q → readU32 (setHeader (fun _ => 0) 0 instanceId
      (UInt16.ofNat asgardProtoConPayloadSz)) q = readU32 (fun _ => 0) q := fun q hq =>
    congrArg UInt32.ofNat (read_congr fun _ _ _ => setHeader_outside (.inr (by omega)))
  rw [conRecord_setLeOpcode, hoffset, hread _ (by omega), hread _ (by omega),
    XlaneLkm.setLeOpcode, ConRecord.mk.injEq]
  exact ⟨rfl, rfl, rfl, rfl, rfl, rfl, rfl, rfl,
    funext fun k => chunkAt_fresh instanceId _ (by omega)⟩

/-! ### Headers -/

theorem header_setAeData (p : Nat) (term leaderId firstIdx prevLogTerm leaderCommitIdx : Int)
    (log : SmLog) (num : Int) (m : Nat → UInt8) :
    getProtoTypeVal (setAeData p term leaderId firstIdx prevLogTerm leaderCommitIdx log num m) p =
      getProtoTypeVal m p := by
  obtain ⟨fixed, heq, hfixed⟩ := setAeData_eq p term leaderId firstIdx prevLogTerm leaderCommitIdx
    log num m
  rw [heq]
  calc getProtoTypeVal (setEntries log firstIdx (p + 30) (copiedEntries log firstIdx num) fixed) p
      = getProtoTypeVal fixed p :=
        (header_congr fun q _ hhigh => setEntries_outside log firstIdx (.inl (by omega))).1
    _ = getProtoTypeVal m p := (header_congr fun q _ hhigh => hfixed.outside q (.inl hhigh)).1

theorem header_setLeOpcode (p : Nat) (opco : LeOpcode) (p1 p2 p3 p4 : Int) (m : Nat → UInt8) :
    getProtoTypeVal (setLeOpcode p opco p1 p2 p3 p4 m) p = getProtoTypeVal m p := by
  simp (disch := omega) only [setLeOpcode, getProtoTypeVal_write_of_le]

theorem reserve_empty {spay : AsgardPayload} (hempty : spay.protocolsIncluded = 0)
    (instanceId : UInt16) {protoSize : UInt16} (hsize : protoSize.toNat ≤ maxAsgardPayloadBytes) :
    spay.asgardReserveProto instanceId protoSize =
      (⟨1, setHeader spay.protoData 0 instanceId protoSize⟩, some 0) := by
  have hlt := protoSize.toNat_lt
  have hroom : ¬i32 ((0 : Nat) + protoSize.toNat : Int) > maxAsgardPayloadBytes := by
    rw [i32_eq_self (by omega) (by omega)]
    omega
  obtain ⟨included, data⟩ := spay
  obtain rfl : included = 0 := hempty
  exact if_neg hroom

/-! ### Round trip -/

/-- What the accessors of the receiver read from an APPEND. -/
structure ReadsAppend (m : Nat → UInt8) (p : Nat) (instanceId : UInt16) (term leaderId next
    prevLogTerm commitIdx : Int) (log : SmLog) (num : Nat) : Prop where
  instanceId : getProtoTypeVal m p = instanceId
  offset : ((getProtoOffsetVal m p).toNat : Int) = asgardProtoConAeBaseSz + num * aeEntrySize
  opcode : (conRecord m p).opcodeVal = some .append
  term : asI32 (conRecord m p).param1 = term
  leaderId : (conRecord m p).param2 = toU32 leaderId
  prevLogIdx : asI32 (readU32 m (getConAePrevLogIdxPtr p)) = next - 1
  prevLogTerm : readU32 m (getConAePrevLogTermPtr p) = toU32 prevLogTerm
  leaderCommitIdx : asI32 (conRecord m p).leaderCommitIdx = commitIdx
  numEntries : (conRecord m p).numEntries.toNat = num
  entries : ∀ k < num, (conRecord m p).entries k = (log.entry (next + k)).dataChunk

/-- What the accessors of the receiver read from a message of leader election. -/
structure ReadsOpcode (m : Nat → UInt8) (p : Nat) (instanceId : UInt16) (opco : LeOpcode)
    (p1 p2 p3 p4 : Int) : Prop where
  instanceId : getProtoTypeVal m p = instanceId
  offset : (getProtoOffsetVal m p).toNat = asgardProtoConPayloadSz
  opcode : (conRecord m p).opcodeVal = some opco
  param1 : (conRecord m p).param1 = toU32 p1
  param2 : (conRecord m p).param2 = toU32 p2
  param3 : (conRecord m p).param3 = toU32 p3
  param4 : (conRecord m p).param4 = toU32 p4

end Wire

namespace SmLog

theorem storeRange_congr (log : SmLog) {chunk chunk' : Nat → DataChunk} (term first : Int) {k : Nat}
    (h : ∀ j < k, chunk j = chunk' j) :
    log.storeRange chunk term first k = log.storeRange chunk' term first k := by
  induction k with
  | zero => rfl
  | succ k ih =>
    rw [storeRange, storeRange, h k (Nat.lt_succ_self k),
      ih fun j hj => h j (Nat.lt_succ_of_lt hj)]

theorem appendCommands_eq (log : SmLog) (pkt : ConRecord) (term first : Int) {num : Nat}
    (hnum : 0 < num) (hfirst : 0 ≤ first) (hlast : first + num - 1 < 2147483647) {pktSize : Int}
    (hsize : num * aeEntrySize + asgardProtoConAeBaseSz ≤ pktSize) (hpkt : pktSize < 65536)
    (unstable : Bool) :
    log.appendCommands pkt term num pktSize first unstable =
      if first < log.commitIdx then (log, some .eproto)
      else (if unstable then log.storeRange pkt.entries term first num
        else (log.storeRange pkt.entries term first num).updateStableIdx, none) := by
  have hbytes : num * aeEntrySize = num * 8 := rfl
  have hbase : asgardProtoConAeBaseSz = 20 := rfl
  have hfits : ¬i32 (i32 (num * aeEntrySize) + asgardProtoConAeBaseSz) > pktSize := by
    rw [i32_eq_self (x := num * aeEntrySize) (by omega) (by omega),
      i32_eq_self (by omega) (by omega)]
    omega
  have hend : i32 (first + num - 1) = first + num - 1 := i32_eq_self (by omega) (by omega)
  have hcount : (first + num - 1 - first + 1).toNat = num := by omega
  simp only [appendCommands, if_neg hfits, hend, hcount, if_neg hlast.ne]
  by_cases hcommit : first < log.commitIdx
  · obtain ⟨k, rfl⟩ := Nat.exists_eq_succ_of_ne_zero hnum.ne'
    simp only [appendLoop, appendCommand, if_pos hcommit]
  · rw [log.appendLoop_eq pkt term first fun _ => not_lt.mp hcommit, if_neg hcommit]

end SmLog

namespace Wire

variable {m : Nat → UInt8} {p num : Nat} {instanceId : UInt16} {log : SmLog}
  {term leaderId next prevLogTerm commitIdx : Int}

/-- **A receiver of the bytes stores the commands of the leader**, in order, or nothing. -/
theorem ReadsAppend.appendCommands
    (h : ReadsAppend m p instanceId term leaderId next prevLogTerm commitIdx log num)
    (hnum : 0 < num) (hmax : (num : Int) ≤ maxAeEntriesPerPkt) (hnext : 0 ≤ next)
    (hlast : next + num - 1 < 2147483647) (recv : SmLog) (recvTerm : Int) (unstable : Bool) :
    recv.appendCommands (conRecord m p) recvTerm (i32 (conRecord m p).numEntries.toNat)
        (getProtoOffsetVal m p).toNat (i32 (asI32 (readU32 m (getConAePrevLogIdxPtr p)) + 1))
        unstable =
      if next < recv.commitIdx then (recv, some .eproto)
      else
        let stored := recv.storeRange (fun k => (log.entry (next + k)).dataChunk) recvTerm next num
        (if unstable then stored else stored.updateStableIdx, none) := by
  have hmax : num ≤ 100 := Int.ofNat_le.mp hmax
  have hbytes : num * aeEntrySize = num * 8 := rfl
  have hbase : asgardProtoConAeBaseSz = 20 := rfl
  have hstart : i32 (next - 1 + 1) = next := by
    rw [Int.sub_add_cancel, i32_eq_self (by omega) (by omega)]
  rw [h.numEntries, h.prevLogIdx, h.offset, hstart, i32_eq_self (x := num) (by omega) (by omega),
    recv.appendCommands_eq (conRecord m p) recvTerm next hnum hnext hlast (by omega) (by omega),
    recv.storeRange_congr recvTerm next h.entries]

theorem readsOpcode_setLeOpcode {spay : AsgardPayload} (hempty : spay.protocolsIncluded = 0)
    (instanceId : UInt16) (opco : LeOpcode) (p1 p2 p3 p4 : Int) : ∃ spay',
    spay.asgardReserveProto instanceId (UInt16.ofNat asgardProtoConPayloadSz) = (spay', some 0) ∧
      ReadsOpcode (setLeOpcode 0 opco p1 p2 p3 p4 spay'.protoData) 0 instanceId opco p1 p2 p3 p4 := by
  obtain ⟨htype, hoffset⟩ := header_setHeader spay.protoData 0 instanceId
    (UInt16.ofNat asgardProtoConPayloadSz)
  refine ⟨_, reserve_empty hempty instanceId (by decide), ?_⟩
  have hrecord := conRecord_setLeOpcode 0 opco p1 p2 p3 p4
    (setHeader spay.protoData 0 instanceId (UInt16.ofNat asgardProtoConPayloadSz))
  constructor
  · rw [header_setLeOpcode, htype]
  · have hsize := congrArg ConRecord.pktSize hrecord
    rw [conRecord] at hsize
    calc (getProtoOffsetVal _ 0).toNat
        = (UInt16.ofNat asgardProtoConPayloadSz).toNat :=
          congrArg UInt16.toNat (hsize.trans hoffset)
      _ = asgardProtoConPayloadSz := by decide
  · rw [hrecord]
    exact setLeOpcode_opcodeVal opco p1 p2 p3 p4
  all_goals rw [hrecord]; rfl

theorem readsAppend_setAeData {spay : AsgardPayload} (hempty : spay.protocolsIncluded = 0)
    (instanceId : UInt16) (log : SmLog) (leaderId prevLogTerm : Int) (hterm : i32 term = term)
    (hcommit : i32 commitIdx = commitIdx) (hnext : 0 ≤ next) (hnum : 0 < num)
    (hmax : (num : Int) ≤ maxAeEntriesPerPkt) (hwithin : next + num - 1 ≤ log.lastIdx)
    (hlast : log.lastIdx < 2147483647) : ∃ spay',
    spay.asgardReserveProto instanceId
        (UInt16.ofNat (u32 (asgardProtoConAeBaseSz + num * aeEntrySize))) = (spay', some 0) ∧
      ReadsAppend (setAeData 0 term leaderId next prevLogTerm commitIdx log num spay'.protoData) 0
        instanceId term leaderId next prevLogTerm commitIdx log num := by
  have hmax : num ≤ 100 := Int.ofNat_le.mp hmax
  have hbytes : asgardProtoConAeBaseSz + num * aeEntrySize = (20 + num * 8 : Nat) := by
    rw [asgardProtoConAeBaseSz, aeEntrySize]
    omega
  have hsize : (UInt16.ofNat (u32 (asgardProtoConAeBaseSz + num * aeEntrySize))).toNat =
      20 + num * 8 := by
    rw [hbytes, u32_natCast (by omega), UInt16.toNat_ofNat']
    omega
  have hroom : 20 + num * 8 ≤ maxAsgardPayloadBytes := by
    rw [maxAsgardPayloadBytes]
    omega
  obtain ⟨htype, hoffset⟩ := header_setHeader spay.protoData 0 instanceId
    (UInt16.ofNat (u32 (asgardProtoConAeBaseSz + num * aeEntrySize)))
  refine ⟨_, reserve_empty hempty instanceId (hsize.trans_le hroom), ?_⟩
  have hincluded := includedEntries_eq hnext (Int.natCast_pos.mpr hnum) hwithin (by omega)
  have hcopied : copiedEntries log next num = num :=
    copiedEntries_eq hnext (Int.natCast_pos.mpr hnum) hwithin hlast
  have hrecord := conRecord_setAeData 0 term leaderId next prevLogTerm commitIdx log num
    (setHeader spay.protoData 0 instanceId
      (UInt16.ofNat (u32 (asgardProtoConAeBaseSz + num * aeEntrySize))))
  have hfield {α : Type} (f : ConRecord → α) := congrArg f hrecord
  have hnumEntries := hfield ConRecord.numEntries
  have hentries := hfield ConRecord.entries
  change _ = toU32 (includedEntries log next num) at hnumEntries
  rw [hincluded] at hnumEntries
  rw [hcopied] at hentries
  constructor
  · rw [header_setAeData, htype]
  · have heq : getProtoOffsetVal _ 0 = _ := (hfield ConRecord.pktSize).trans hoffset
    rw [heq, hsize, hbytes]
  · rw [hrecord]
    exact LeOpcode.ofCode_code .append
  · rw [hfield ConRecord.param1]
    exact (asI32_toU32 term).trans hterm
  · exact hfield ConRecord.param2
  · have heq : readU32 _ (getConAePrevLogIdxPtr 0) = _ := hfield ConRecord.param3
    rw [heq]
    calc asI32 (toU32 (next - 1))
        = i32 (next - 1) := asI32_toU32 (next - 1)
      _ = next - 1 := i32_eq_self (by omega) (by omega)
  · exact hfield ConRecord.param4
  · rw [hfield ConRecord.leaderCommitIdx]
    exact (asI32_toU32 commitIdx).trans hcommit
  · rw [hnumEntries, toU32_toNat, u32_natCast (by omega)]
  · intro k hk
    rw [hentries]
    exact if_pos hk

/-- **The wire format of the protocol is read as it is written.** From an empty payload on, the
receiver finds the header of the reservation, and the fields and entries of an APPEND, or the
parameters of any message of leader election. -/
theorem wire_round_trip (spay : AsgardPayload) (hempty : spay.protocolsIncluded = 0)
    (instanceId : UInt16) (log : SmLog) (term leaderId next prevLogTerm commitIdx : Int) (num : Nat)
    (hterm : i32 term = term) (hcommit : i32 commitIdx = commitIdx) (hnext : 0 ≤ next)
    (hnum : 0 < num) (hmax : (num : Int) ≤ maxAeEntriesPerPkt)
    (hwithin : next + num - 1 ≤ log.lastIdx) (hlast : log.lastIdx < 2147483647) :
    (∃ spay', spay.asgardReserveProto instanceId
        (UInt16.ofNat (u32 (asgardProtoConAeBaseSz + num * aeEntrySize))) = (spay', some 0) ∧
      let m := setAeData 0 term leaderId next prevLogTerm commitIdx log num spay'.protoData
      ReadsAppend m 0 instanceId term leaderId next prevLogTerm commitIdx log num ∧
        ∀ (recv : SmLog) (recvTerm : Int) (unstable : Bool),
          recv.appendCommands (conRecord m 0) recvTerm (i32 (conRecord m 0).numEntries.toNat)
              (getProtoOffsetVal m 0).toNat (i32 (asI32 (readU32 m (getConAePrevLogIdxPtr 0)) + 1))
              unstable =
            if next < recv.commitIdx then (recv, some .eproto)
            else
              let stored :=
                recv.storeRange (fun k => (log.entry (next + k)).dataChunk) recvTerm next num
              (if unstable then stored else stored.updateStableIdx, none)) ∧
      ∀ (opco : LeOpcode) (p1 p2 p3 p4 : Int), ∃ spay',
        spay.asgardReserveProto instanceId (UInt16.ofNat asgardProtoConPayloadSz) =
            (spay', some 0) ∧
          ReadsOpcode (setLeOpcode 0 opco p1 p2 p3 p4 spay'.protoData) 0 instanceId opco
            p1 p2 p3 p4 := by
  obtain ⟨spay', hreserve, hreads⟩ := readsAppend_setAeData hempty instanceId log leaderId
    prevLogTerm hterm hcommit hnext hnum hmax hwithin hlast
  exact ⟨⟨spay', hreserve, hreads, hreads.appendCommands hnum hmax hnext (by omega)⟩,
    readsOpcode_setLeOpcode hempty instanceId⟩

/-- A log of four entries. -/
def fourEntries : SmLog where
  lastApplied := -1
  lastIdx := 3
  commitIdx := 0
  stableIdx := 3
  nextRetransReqIdx := -2
  maxEntries := 4
  entries k := ⟨true, 1, ⟨Vector.replicate _ (UInt8.ofNat k)⟩⟩
  history := []

theorem wire_round_trip_two_entries : ∃ spay',
    (⟨0, fun _ => 255⟩ : AsgardPayload).asgardReserveProto 3 (UInt16.ofNat (u32 36)) =
        (spay', some 0) ∧
      ReadsAppend (setAeData 0 7 1 2 5 (-1) fourEntries 2 spay'.protoData) 0 3 7 1 2 5 (-1)
        fourEntries 2 := by
  obtain ⟨⟨spay', hreserve, hreads, -⟩, -⟩ := wire_round_trip ⟨0, fun _ => 255⟩ rfl 3
    fourEntries 7 1 2 5 (-1) 2 (by decide) (by decide) (by decide) (by decide) (by decide) (by decide)
    (by decide)
  exact ⟨spay', hreserve, hreads⟩

/-- Behind the last index there is, the bound of the copying loop is negative. The entry is announced,
and the receiver reads what stood there before. -/
theorem last_index_not_copied :
    ¬ ∀ (spay : AsgardPayload) (instanceId : UInt16) (log : SmLog)
      (term leaderId next prevLogTerm commitIdx : Int) (num : Nat), spay.protocolsIncluded = 0 →
      i32 term = term → i32 commitIdx = commitIdx → 0 ≤ next → 0 < num →
      (num : Int) ≤ maxAeEntriesPerPkt → next + num - 1 ≤ log.lastIdx → log.lastIdx ≤ 2147483647 →
      ∃ spay', spay.asgardReserveProto instanceId
          (UInt16.ofNat (u32 (asgardProtoConAeBaseSz + num * aeEntrySize))) = (spay', some 0) ∧
        ReadsAppend (setAeData 0 term leaderId next prevLogTerm commitIdx log num spay'.protoData) 0
          instanceId term leaderId next prevLogTerm commitIdx log num := by
  intro h
  obtain ⟨spay', hreserve, hreads⟩ := h ⟨0, fun _ => 255⟩ 3 { fourEntries with lastIdx := 2147483647 }
    7 1 2147483647 5 (-1) 1 rfl (by decide) (by decide) (by decide) (by decide) (by decide)
    (by decide) (by decide)
  have hsame := (reserve_empty rfl 3 (by decide)).symm.trans hreserve
  obtain rfl := (Prod.mk.inj hsame).1
  have hentry := hreads.entries 0 (by decide)
  revert hentry
  decide +kernel

end Wire

end XlaneLkm
