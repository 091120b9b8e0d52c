import XlaneLkm.WireNode
import XlaneLkm.Proof.SameMessage
import XlaneLkm.Proof.Wire

/-!
# Records in payloads

A record that is put into a payload reads back as the same message, for what `set_le_opcode` and
`set_ae_data` write. The first record of a payload is the only one a receiver looks at, and no record
that is added later touches it.
-/

namespace XlaneLkm

open ByteMemory MachineInt

namespace Wire

variable {m m' : Nat → UInt8} {p q k j l : Nat} {entries entries' : Nat → DataChunk}

/-! ### What is written -/

theorem putEntries_outside (h : q < p ∨ p + asgChunkSize * k ≤ q) :
    putEntries entries p j k m q = m q := by
  induction k generalizing p j m with
  | zero => rfl
  | succ k ih =>
    rw [Nat.mul_succ] at h
    have hsize : asgChunkSize = 4 + 4 := rfl
    rw [putEntries, ih (by omega), copyChunk, copy_outside (by omega)]

theorem chunkAt_putEntries (hl : l < k) :
    chunkAt (putEntries entries p j k m) (p + asgChunkSize * l) = entries (j + l) := by
  induction k generalizing p j m l with
  | zero => exact absurd hl (Nat.not_lt_zero l)
  | succ k ih =>
    have hsize : asgChunkSize = 4 + 4 := rfl
    rw [putEntries]
    cases l with
    | zero =>
      have hbefore : ∀ b < asgChunkSize, putEntries entries (p + 4 + 4) (j + 1) k
          (copyChunk m p (entries j)) (p + b) = copyChunk m p (entries j) (p + b) := by
        intro b hb
        exact putEntries_outside (.inl (by omega))
      rw [Nat.mul_zero, Nat.add_zero p, chunkAt_congr hbefore, chunkAt_copyChunk, Nat.add_zero]
    | succ l =>
      have hplace : p + asgChunkSize * (l + 1) = p + 4 + 4 + asgChunkSize * l := by
        rw [Nat.mul_succ]
        omega
      rw [hplace, show j + (l + 1) = j + 1 + l by omega]
      exact ih (Nat.lt_of_succ_lt_succ hl)

theorem putEntries_congr (h : ∀ l < k, entries (j + l) = entries' (j + l)) :
    putEntries entries p j k m = putEntries entries' p j k m := by
  induction k generalizing p j m with
  | zero => rfl
  | succ k ih =>
    have hfirst : entries j = entries' j := h 0 (Nat.succ_pos k)
    rw [putEntries, putEntries, hfirst]
    apply ih
    intro l hl
    have hnext := h (l + 1) (by omega)
    rwa [← Nat.add_assoc, Nat.add_right_comm] at hnext

theorem copyChunk_zero (h : ∀ q, p ≤ q → m q = 0) : copyChunk m p DataChunk.zero = m := by
  funext q
  by_cases hq : p ≤ q ∧ q < p + asgChunkSize
  · have hbyte : (DataChunk.zero.data.getD (q - p) 0 : UInt8) = 0 :=
      Array.getD_eq_getD_getElem?.trans (by
        simp only [DataChunk.zero, Vector.toArray_replicate]
        rw [Array.getElem?_replicate]
        split <;> rfl)
    rw [copyChunk, copy, if_pos hq, h q hq.1, hbyte]
  · rw [copyChunk, copy, if_neg hq]

/-- Chunks of zeros leave zeroed memory as it is. -/
theorem putEntries_zero (h : ∀ q, p ≤ q → m q = 0) (hzero : ∀ l < k, entries (j + l) = DataChunk.zero) :
    putEntries entries p j k m = m := by
  induction k generalizing p j with
  | zero => rfl
  | succ k ih =>
    have hfirst : entries j = DataChunk.zero := hzero 0 (Nat.succ_pos k)
    rw [putEntries, hfirst, copyChunk_zero h]
    apply ih
    · exact fun q hq => h q (by omega)
    · intro l hl
      have hnext := hzero (l + 1) (by omega)
      rwa [← Nat.add_assoc, Nat.add_right_comm] at hnext

theorem setEntries_eq (log : SmLog) (first : Int) :
    setEntries log (first + j) p k m =
      putEntries (fun l => (log.entry (first + l)).dataChunk) p j k m := by
  induction k generalizing p j m with
  | zero => rfl
  | succ k ih =>
    rw [setEntries, putEntries, show first + (j : Int) + 1 = first + (j + 1 : Nat) by omega]
    exact ih

/-- The part of a record that the messages of leader election have too. -/
def putParams (p : Nat) (r : ConRecord) (m : Nat → UInt8) : Nat → UInt8 :=
  let m := write m (p + 4) 2 r.opcode.toNat
  let m := write m (p + 6) 4 r.param1.toNat
  let m := write m (p + 10) 4 r.param2.toNat
  let m := write m (p + 14) 4 r.param3.toNat
  write m (p + 18) 4 r.param4.toNat

theorem putRecord_of_ne {r : ConRecord} (h : r.opcodeVal ≠ some .append) :
    putRecord p r m = putParams p r m := if_neg h

theorem putRecord_append {r : ConRecord} (h : r.opcodeVal = some .append) :
    putRecord p r m = putEntries r.entries (p + 30) 0 r.numEntries.toNat
      (write (write (putParams p r m) (p + 26) 4 r.numEntries.toNat) (p + 22) 4
        r.leaderCommitIdx.toNat) := if_pos h

theorem putParams_outside {r : ConRecord} (h : q < p + 4 ∨ p + 22 ≤ q) : putParams p r m q = m q := by
  simp only [putParams]
  iterate 5 rw [write_outside (by omega)]

/-- Where the last byte of a record is written. -/
def recordEnd (r : ConRecord) : Nat :=
  if r.opcodeVal = some .append then 30 + asgChunkSize * r.numEntries.toNat else 22

theorem putRecord_outside {r : ConRecord} (h : q < p + 4 ∨ p + recordEnd r ≤ q) :
    putRecord p r m q = m q := by
  by_cases hop : r.opcodeVal = some .append
  · rw [recordEnd, if_pos hop] at h
    rw [putRecord_append hop, putEntries_outside (by omega), write_outside (by omega),
      write_outside (by omega), putParams_outside (by omega)]
  · rw [recordEnd, if_neg hop] at h
    rw [putRecord_of_ne hop, putParams_outside h]

/-! ### What is read -/

/-- The parameters of `r` stand in the record at `p`. -/
structure HasParams (m : Nat → UInt8) (p : Nat) (r : ConRecord) : Prop where
  opcode : (conRecord m p).opcode = r.opcode
  param1 : (conRecord m p).param1 = r.param1
  param2 : (conRecord m p).param2 = r.param2
  param3 : (conRecord m p).param3 = r.param3
  param4 : (conRecord m p).param4 = r.param4

theorem conRecord_opcode_congr (h : ∀ q, p + 4 ≤ q → q < p + 6 → m q = m' q) :
    (conRecord m p).opcode = (conRecord m' p).opcode :=
  congrArg UInt16.ofNat (read_congr fun q hlow hhigh => by
    simp only [getConProtoOpcodePtr] at hlow hhigh
    exact h q (by omega) (by omega))

theorem HasParams.congr {r : ConRecord} (h : HasParams m p r)
    (hsame : ∀ q, p + 4 ≤ q → q < p + 22 → m' q = m q) : HasParams m' p r := by
  have hword : ∀ q, p + 4 ≤ q → q + 4 ≤ p + 22 → readU32 m' q = readU32 m q := by
    intro q hlow hhigh
    exact congrArg UInt32.ofNat (read_congr fun _ _ _ => hsame _ (by omega) (by omega))
  constructor
  · exact (conRecord_opcode_congr fun q hlow hhigh => hsame q hlow (by omega)).trans h.opcode
  · exact (hword _ (by simp only [getConProtoParam1Ptr]; omega)
      (by simp only [getConProtoParam1Ptr]; omega)).trans h.param1
  · exact (hword _ (by simp only [getConProtoParam2Ptr]; omega)
      (by simp only [getConProtoParam2Ptr]; omega)).trans h.param2
  · exact (hword _ (by simp only [getConProtoParam3Ptr]; omega)
      (by simp only [getConProtoParam3Ptr]; omega)).trans h.param3
  · exact (hword _ (by simp only [getConProtoParam4Ptr]; omega)
      (by simp only [getConProtoParam4Ptr]; omega)).trans h.param4

theorem hasParams_putParams (p : Nat) (r : ConRecord) (m : Nat → UInt8) :
    HasParams (putParams p r m) p r := by
  constructor
  all_goals simp (disch := first | omega | exact UInt32.toNat_lt _ | exact UInt16.toNat_lt _) only
    [conRecord, putParams, getConProtoOpcodePtr, getConProtoParam1Ptr, getConProtoParam2Ptr,
    getConProtoParam3Ptr, getConProtoParam4Ptr, Nat.add_assoc, Nat.reduceAdd, readU16_write,
    readU16_write_of_disjoint, readU32_write, readU32_write_of_disjoint, UInt16.ofNat_toNat,
    UInt32.ofNat_toNat]

theorem HasParams.opcodeVal {r : ConRecord} (h : HasParams m p r) :
    (conRecord m p).opcodeVal = r.opcodeVal := by
  rw [ConRecord.opcodeVal, h.opcode, ConRecord.opcodeVal]

theorem HasParams.sameMessage {r : ConRecord} (h : HasParams m p r)
    (hop : r.opcodeVal ≠ some .append) : SameMessage (conRecord m p) r := by
  have hne : (conRecord m p).opcodeVal ≠ some .append := h.opcodeVal ▸ hop
  exact ⟨h.opcodeVal, fun _ => h.param1, fun _ => h.param2, fun _ => h.param3, fun _ => h.param4,
    fun happend => absurd happend hne, fun happend => absurd happend hne,
    fun happend => absurd happend hne, fun happend => absurd happend hne⟩

theorem hasParams_putRecord (p : Nat) (r : ConRecord) (m : Nat → UInt8) :
    HasParams (putRecord p r m) p r := by
  by_cases hop : r.opcodeVal = some .append
  · refine (hasParams_putParams p r m).congr fun q _ hhigh => ?_
    rw [putRecord_append hop, putEntries_outside (.inl (by omega)), write_outside (by omega),
      write_outside (by omega)]
  · rw [putRecord_of_ne hop]
    exact hasParams_putParams p r m

/-- **What is written reads back as the same message.** -/
theorem sameMessage_putRecord (p : Nat) (r : ConRecord) (m : Nat → UInt8)
    (hsize : getProtoOffsetVal m p = r.pktSize) : SameMessage (conRecord (putRecord p r m) p) r := by
  have hparams := hasParams_putRecord p r m
  by_cases hop : r.opcodeVal = some .append
  · have hoffset : getProtoOffsetVal (putRecord p r m) p = r.pktSize := by
      rw [← hsize]
      exact (header_congr fun q _ hhigh => putRecord_outside (.inl hhigh)).2
    have hcommit : readU32 (putRecord p r m) (p + 22) = r.leaderCommitIdx := by
      have hread : readU32 (putRecord p r m) (p + 22) = readU32 (write (write (putParams p r m)
          (p + 26) 4 r.numEntries.toNat) (p + 22) 4 r.leaderCommitIdx.toNat) (p + 22) := by
        rw [putRecord_append hop]
        exact congrArg UInt32.ofNat
          (read_congr fun _ _ _ => putEntries_outside (.inl (by omega)))
      rw [hread, readU32_write _ _ (UInt32.toNat_lt _), UInt32.ofNat_toNat]
    have hnum : readU32 (putRecord p r m) (p + 26) = r.numEntries := by
      have hread : readU32 (putRecord p r m) (p + 26) = readU32 (write (putParams p r m)
          (p + 26) 4 r.numEntries.toNat) (p + 26) := by
        rw [putRecord_append hop]
        exact congrArg UInt32.ofNat (read_congr fun _ _ _ => by
          rw [putEntries_outside (.inl (by omega)), write_outside (by omega)])
      rw [hread, readU32_write _ _ (UInt32.toNat_lt _), UInt32.ofNat_toNat]
    refine ⟨hparams.opcodeVal, fun _ => hparams.param1, fun _ => hparams.param2,
      fun _ => hparams.param3, fun _ => hparams.param4, fun _ => hoffset, fun _ => hcommit,
      fun _ => hnum, fun _ k hk => ?_⟩
    have hk : k < r.numEntries.toNat := by
      rw [← hnum]
      exact hk
    change chunkAt (putRecord p r m) (p + 30 + asgChunkSize * k) = _
    rw [putRecord_append hop, chunkAt_putEntries hk, Nat.zero_add]
  · exact hparams.sameMessage hop

/-! ### The functions of the source -/

/-- **A message of leader election** is written by `set_le_opcode`. -/
theorem putRecord_setLeOpcode (p : Nat) {op : LeOpcode} (hop : op ≠ .append) (p1 p2 p3 p4 : Int)
    (m : Nat → UInt8) :
    putRecord p (XlaneLkm.setLeOpcode op p1 p2 p3 p4) m = setLeOpcode p op p1 p2 p3 p4 m := by
  have hne : (XlaneLkm.setLeOpcode op p1 p2 p3 p4).opcodeVal ≠ some .append := by
    rw [setLeOpcode_opcodeVal]
    exact fun heq => hop (Option.some.inj heq)
  have hcode : (UInt16.ofNat op.code).toNat = op.code := by cases op <;> rfl
  rw [putRecord_of_ne hne]
  simp only [putParams, XlaneLkm.setLeOpcode, setLeOpcode, toU32_toNat, hcode]

/-- A number that is overwritten leaves no trace. -/
theorem write_again {v v' w : Nat} (h : q + l ≤ p ∨ p + k ≤ q) :
    write (write (write m p k v) q l w) p k v' = write (write m p k v') q l w := by
  funext i
  by_cases hp : p ≤ i ∧ i < p + k
  · have hq : ¬(q ≤ i ∧ i < q + l) := by omega
    simp only [write, if_pos hp, if_neg hq]
  · simp only [write, if_neg hp]

/-- The entries an APPEND announces are the entries that are copied, and zeros in a fresh payload where
none are. -/
theorem putEntries_copied (log : SmLog) {firstIdx num : Int} (hint : i32 firstIdx = firstIdx)
    (hlow : 0 ≤ num) (hhigh : num ≤ 2147483647) (hincluded : includedEntries log firstIdx num = num)
    (hnum : num ≠ 0)
    (hfresh : i32 (firstIdx + num) = firstIdx + num ∨ ∀ q, p ≤ q → m q = 0) :
    putEntries (fun k => if k < copiedEntries log firstIdx num then (log.entry (firstIdx + k)).dataChunk
      else DataChunk.zero) p 0 num.toNat m =
      setEntries log firstIdx p (i32 (firstIdx + num) - firstIdx).toNat m := by
  have hrounds : copiedEntries log firstIdx num = (i32 (firstIdx + num) - firstIdx).toNat := by
    rw [copiedEntries, hincluded, if_neg hnum]
  rw [hrounds]
  by_cases hbound : i32 (firstIdx + num) = firstIdx + num
  · have hentries := setEntries_eq (p := p) (j := 0) (k := num.toNat) log firstIdx (m := m)
    rw [Int.natCast_zero, Int.add_zero] at hentries
    rw [show (i32 (firstIdx + num) - firstIdx).toNat = num.toNat by omega, hentries]
    apply putEntries_congr
    intro l hl
    rw [if_pos (by omega)]
  · -- the bound of the loop has wrapped around
    obtain ⟨hfirst_low, hfirst_high⟩ := i32_eq_self_iff.mp hint
    obtain ⟨_, _, k, hk⟩ := i32_spec (firstIdx + num)
    have hnone : (i32 (firstIdx + num) - firstIdx).toNat = 0 := by omega
    rw [hnone, putEntries_zero (hfresh.resolve_left hbound) fun l _ => if_neg (Nat.not_lt_zero _)]
    rfl

/-- **An APPEND** is written by `set_ae_data`. -/
theorem putRecord_setAeData (p : Nat) (pktSize : UInt16) (term leaderId prevLogTerm
    leaderCommitIdx : Int) (log : SmLog) {firstIdx num : Int} (hint : i32 firstIdx = firstIdx)
    (hlow : 0 ≤ num) (hhigh : num ≤ 2147483647) {m : Nat → UInt8}
    (hfresh : i32 (firstIdx + num) = firstIdx + num ∨ ∀ q, p + 30 ≤ q → m q = 0) :
    putRecord p (XlaneLkm.setAeData pktSize term leaderId firstIdx prevLogTerm leaderCommitIdx log num)
        m = setAeData p term leaderId firstIdx prevLogTerm leaderCommitIdx log num m := by
  have hcode : (UInt16.ofNat LeOpcode.append.code).toNat = LeOpcode.append.code := rfl
  have hparams : putParams p (XlaneLkm.setAeData pktSize term leaderId firstIdx prevLogTerm
      leaderCommitIdx log num) m =
      let m := write m (p + 4) 2 LeOpcode.append.code
      let m := write m (p + 6) 4 (u32 term)
      let m := write m (p + 10) 4 (u32 leaderId)
      let m := write m (p + 14) 4 (u32 (firstIdx - 1))
      write m (p + 18) 4 (u32 prevLogTerm) := by
    simp only [putParams, XlaneLkm.setAeData, toU32_toNat, hcode]
  have hzero : (toU32 0).toNat = 0 := rfl
  rw [putRecord_append (setAeData_opcodeVal ..), hparams]
  simp only [setAeData, getConAeOpcodePtr, getConAeTermPtr, getConAeLeaderIdPtr, getConAePrevLogIdxPtr,
    getConAePrevLogTermPtr, getConAeNumEntriesPtr, getConAePrevLeaderCommitIdxPtr,
    getConProtoEntriesStartPtr, Nat.add_assoc, Nat.reduceAdd]
  by_cases hnum : num = 0
  · simp only [XlaneLkm.setAeData, includedEntries, hnum, if_true, hzero, putEntries, toU32_toNat]
    rfl
  by_cases hfirst : firstIdx > log.lastIdx
  · simp only [XlaneLkm.setAeData, includedEntries, hnum, hfirst, if_true, if_false, hzero, putEntries,
      toU32_toNat]
    rw [write_again (by omega)]
  by_cases hlast : i32 (firstIdx + (num - 1)) > log.lastIdx
  · simp only [XlaneLkm.setAeData, includedEntries, hnum, hfirst, hlast, if_true, if_false, hzero,
      putEntries, toU32_toNat]
    rw [write_again (by omega)]
  · have hincluded : includedEntries log firstIdx num = num := by
      rw [includedEntries, if_neg hnum, if_neg hfirst, if_neg hlast]
    have hrounds : (toU32 num).toNat = num.toNat := by
      rw [toU32_toNat, u32_eq_toNat hlow (by omega)]
    simp only [XlaneLkm.setAeData, hincluded, hnum, hfirst, hlast, if_false, hrounds, toU32_toNat]
    rw [putEntries_copied log hint hlow hhigh hincluded hnum]
    · rw [u32_eq_toNat hlow (by omega)]
    · refine hfresh.imp_right fun hzeros q hq => ?_
      iterate 7 rw [write_outside (by omega)]
      exact hzeros q hq

end Wire

end XlaneLkm
