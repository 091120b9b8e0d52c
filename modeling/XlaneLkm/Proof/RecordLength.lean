import XlaneLkm.Proof.Wire

/-!
# How long the record of an APPEND is

`setup_append_msg` reserves 20 bytes and 8 for each entry, and `append_commands` compares the declared
size with the same number. The fixed part that `set_ae_data` writes, and behind which the entries are
read, has 30 bytes.
-/

namespace XlaneLkm

open ByteMemory MachineInt

namespace Wire

variable {m : Nat → UInt8} {p q : Nat}

/-! ### The sender -/

theorem setEntries_inside (log : SmLog) (i : Int) {k : Nat} (m m' : Nat → UInt8) (h : p ≤ q)
    (h' : q < p + asgChunkSize * k) : setEntries log i p k m q = setEntries log i p k m' q := by
  induction k generalizing i p m m' with
  | zero => omega
  | succ k ih =>
    rw [Nat.mul_succ] at h'
    have hsize : asgChunkSize = 4 + 4 := rfl
    rw [setEntries, setEntries]
    by_cases hfirst : q < p + 4 + 4
    · -- the loop does not come back to a chunk
      rw [setEntries_outside log (i + 1) (.inl hfirst), setEntries_outside log (i + 1) (.inl hfirst),
        copyChunk, copyChunk, copy, copy, if_pos (by omega), if_pos (by omega)]
    · exact ih (i + 1) _ _ (by omega) (by omega)

section Footprint

variable (term leaderId firstIdx prevLogTerm leaderCommitIdx : Int) (log : SmLog) (num : Int)

/-- Every byte of the entries is written. -/
theorem writes_entries (h : p + 30 ≤ q)
    (h' : q < p + 30 + asgChunkSize * copiedEntries log firstIdx num) :
    Writes (setAeData p term leaderId firstIdx prevLogTerm leaderCommitIdx log num) q := by
  refine writes_of_const (b := setEntries log firstIdx (p + 30) (copiedEntries log firstIdx num)
    (fun _ => 0) q) fun m => ?_
  obtain ⟨fixed, heq, -⟩ := setAeData_eq p term leaderId firstIdx prevLogTerm leaderCommitIdx log
    num m
  rw [heq]
  exact setEntries_inside log firstIdx fixed (fun _ => 0) h h'

/-- And so is the last byte before them. -/
theorem writes_numEntries :
    Writes (setAeData p term leaderId firstIdx prevLogTerm leaderCommitIdx log num) (p + 26 + 3) := by
  obtain ⟨fixed', -, hfixed'⟩ := setAeData_eq p term leaderId firstIdx prevLogTerm leaderCommitIdx
    log num fun _ => 0
  refine writes_of_const (b := fixed' (p + 26 + 3)) fun m => ?_
  obtain ⟨fixed, heq, hfixed⟩ := setAeData_eq p term leaderId firstIdx prevLogTerm leaderCommitIdx
    log num m
  have hread := congrArg UInt32.toNat (hfixed.numEntries.trans hfixed'.numEntries.symm)
  rw [readU32, readU32, UInt32.toNat_ofNat_of_lt' read_lt, UInt32.toNat_ofNat_of_lt' read_lt] at hread
  rw [heq, setEntries_outside log firstIdx (.inl (by omega))]
  exact eq_of_read_eq hread (by decide)

theorem inside_of_writes
    (h : Writes (setAeData p term leaderId firstIdx prevLogTerm leaderCommitIdx log num) q) :
    p ≤ q ∧ q < p + 30 + asgChunkSize * copiedEntries log firstIdx num := by
  obtain ⟨m, hne⟩ := h
  by_contra hout
  obtain ⟨fixed, heq, hfixed⟩ := setAeData_eq p term leaderId firstIdx prevLogTerm leaderCommitIdx
    log num m
  refine hne ?_
  rw [heq, setEntries_outside log firstIdx (by omega), hfixed.outside q (by omega)]

/-- **What `set_ae_data` writes**: 30 bytes and the entries it copies. -/
theorem writes_inside_iff (size : Nat) :
    (∀ q, Writes (setAeData p term leaderId firstIdx prevLogTerm leaderCommitIdx log num) q →
      p ≤ q ∧ q < p + size) ↔ 30 + asgChunkSize * copiedEntries log firstIdx num ≤ size := by
  have hchunk : asgChunkSize = 8 := rfl
  rw [hchunk]
  constructor
  · intro hinside
    have hfixed := hinside _
      (writes_numEntries term leaderId firstIdx prevLogTerm leaderCommitIdx log num)
    by_cases hnone : copiedEntries log firstIdx num = 0
    · rw [hnone]
      omega
    · have hlast := hinside (p + 29 + 8 * copiedEntries log firstIdx num)
        (writes_entries term leaderId firstIdx prevLogTerm leaderCommitIdx log num (by omega)
          (by rw [hchunk]; omega))
      omega
  · intro hfits q hwrites
    have hinside := inside_of_writes term leaderId firstIdx prevLogTerm leaderCommitIdx log num hwrites
    rw [hchunk] at hinside
    omega

end Footprint

theorem includedEntries_pos {log : SmLog} {firstIdx num : Int}
    (h : 0 < includedEntries log firstIdx num) : includedEntries log firstIdx num = num := by
  unfold includedEntries at h ⊢
  split_ifs at h ⊢ <;> omega

/-- What a reservation hands out declares the size it was made for. -/
theorem offset_of_reserve {spay spay' : AsgardPayload} {instanceId protoSize : UInt16}
    (h : spay.asgardReserveProto instanceId protoSize = (spay', some p)) :
    getProtoOffsetVal spay'.protoData p = protoSize := by
  unfold AsgardPayload.asgardReserveProto at h
  split at h
  · obtain ⟨rfl, hp⟩ := Prod.mk.injEq .. ▸ h
    obtain rfl := Option.some.inj hp
    exact (header_setHeader ..).2
  · split at h
    · cases (Prod.mk.injEq .. ▸ h).2
    · obtain ⟨rfl, hp⟩ := Prod.mk.injEq .. ▸ h
      obtain rfl := Option.some.inj hp
      exact (header_setHeader ..).2

/-- What is reserved for a number of entries is less than the entries take. -/
theorem reserved_lt {num : Int} (hnum : 0 ≤ num) :
    (UInt16.ofNat (u32 (asgardProtoConAeBaseSz + num * aeEntrySize))).toNat <
      30 + asgChunkSize * num.toNat := by
  have hsize : asgChunkSize = 8 := rfl
  have hbytes : asgardProtoConAeBaseSz + num * aeEntrySize = 20 + num * 8 := rfl
  have hmod : u32 (20 + num * 8) % 2 ^ 16 ≤ u32 (20 + num * 8) := Nat.mod_le _ _
  have hu32 : (u32 (20 + num * 8) : Int) ≤ 20 + num * 8 := by
    unfold u32
    omega
  rw [hbytes, UInt16.toNat_ofNat', hsize]
  omega

/-! ### The receiver -/

end Wire

namespace SmLog

variable {log : SmLog} {chunk chunk' : Nat → DataChunk} {term first : Int}

/-- The history shows every command that was stored. -/
theorem storeRange_injective (log : SmLog) (term first : Int) {chunk chunk' : Nat → DataChunk} {k : Nat}
    (h : (log.storeRange chunk term first k).history = (log.storeRange chunk' term first k).history)
    {j : Nat} (hj : j < k) : chunk j = chunk' j := by
  induction k with
  | zero => omega
  | succ k ih =>
    have hcons := List.cons.inj h
    obtain ⟨-, hchunk, -⟩ := LogAction.append.inj hcons.1
    by_cases hlast : j = k
    · exact hlast ▸ hchunk
    · exact ih hcons.2 (by omega)

/-- How many commands the loop of `append_commands` copies unless the first of them is refused. -/
def commandCount (start num : Int) : Nat := (i32 (start + num - 1) - start + 1).toNat

/-- `append_commands` returns an error: the record is too short for it, the first index committed, or
the last one INT_MAX. -/
def RejectsCommands (log : SmLog) (num pktSize start : Int) : Prop :=
  pktSize < i32 (i32 (num * aeEntrySize) + asgardProtoConAeBaseSz) ∨
    (commandCount start num ≠ 0 ∧ start < log.commitIdx) ∨ i32 (start + num - 1) = 2147483647

instance (log : SmLog) (num pktSize start : Int) :
    Decidable (log.RejectsCommands num pktSize start) :=
  inferInstanceAs (Decidable (_ ∨ _ ∨ _))

@[simp]
theorem updateStableIdx_history (log : SmLog) : log.updateStableIdx.history = log.history := by
  obtain ⟨stable, heq, -⟩ := log.updateStableIdx_eq
  rw [heq]

theorem appendCommands_rejects (pkt : ConRecord) (term : Int) {num pktSize start : Int}
    (unstable : Bool) (h : log.RejectsCommands num pktSize start) :
    (log.appendCommands pkt term num pktSize start unstable).2 ≠ none := by
  unfold appendCommands
  dsimp only
  split
  · simp
  case isFalse hsize =>
  rw [← commandCount]
  rcases h with hshort | ⟨hcount, hcommit⟩ | hwraps
  · exact absurd hshort hsize
  · obtain ⟨k, hk⟩ := Nat.exists_eq_succ_of_ne_zero hcount
    simp [hk, appendLoop, appendCommand, hcommit]
  · split
    · simp
    · simp [hwraps]

theorem appendCommands_accepts (pkt : ConRecord) (term : Int) {num pktSize start : Int}
    (unstable : Bool) (h : ¬log.RejectsCommands num pktSize start) :
    log.appendCommands pkt term num pktSize start unstable =
      let stored := log.storeRange pkt.entries term start (commandCount start num)
      (if unstable then stored else stored.updateStableIdx, none) := by
  rw [RejectsCommands, not_or, not_or, not_and, not_lt] at h
  obtain ⟨hsize, hcommit, hbelow⟩ := h
  simp only [appendCommands, if_neg (not_lt.mpr hsize)]
  rw [← commandCount, log.appendLoop_eq pkt term start fun hcount => not_lt.mp (hcommit hcount)]
  exact if_neg hbelow

end SmLog

namespace Wire

/-- Where `append_commands` reads, all of it is in the record that starts at `p`. -/
def CopiesInside (log : SmLog) (p : Nat) (term num : Int) (pktSize : UInt16) (start : Int)
    (unstable : Bool) : Prop :=
  let append := fun m => log.appendCommands (conRecord m p) term num pktSize.toNat start unstable
  ∀ m, (append m).2 = none → ∀ q, Reads append q → p ≤ q ∧ q < p + pktSize.toNat

theorem reads_appendCommands (log : SmLog) (p : Nat) (term : Int) {num pktSize start : Int}
    (unstable : Bool) (haccepts : ¬log.RejectsCommands num pktSize start) :
    Reads (fun m => log.appendCommands (conRecord m p) term num pktSize start unstable) q ↔
      p + 30 ≤ q ∧ q < p + 30 + 8 * SmLog.commandCount start num := by
  have heq := fun m => log.appendCommands_accepts (conRecord m p) term unstable haccepts
  have hplace : ∀ m k, (conRecord m p).entries k = chunkAt m (p + 30 + 8 * k) := fun _ _ => rfl
  simp only [Reads, heq]
  constructor
  · rintro ⟨m, b, hne⟩
    by_contra hout
    refine hne ?_
    have hentries : ∀ k < SmLog.commandCount start num,
        (conRecord (Function.update m q b) p).entries k = (conRecord m p).entries k := by
      intro k hk
      rw [hplace, hplace]
      refine chunkAt_congr fun i hi => Function.update_of_ne ?_ b m
      have hsize : asgChunkSize = 8 := rfl
      omega
    rw [log.storeRange_congr term start hentries]
  · rintro ⟨hlow, hhigh⟩
    obtain ⟨k, i, hk, hi, rfl⟩ : ∃ k i, k < SmLog.commandCount start num ∧ i < asgChunkSize ∧
        q = p + 30 + 8 * k + i :=
      ⟨(q - (p + 30)) / 8, (q - (p + 30)) % 8, by omega, Nat.mod_lt _ asgChunkSize_pos, by omega⟩
    refine ⟨fun _ => 0, 1, fun hsame => ?_⟩
    have hhistory := congrArg (fun result => result.1.history) hsame
    have hstored : (conRecord (Function.update (fun _ => 0) (p + 30 + 8 * k + i) 1) p).entries k =
        (conRecord (fun _ => 0) p).entries k := by
      refine log.storeRange_injective term start ?_ hk
      cases unstable <;> simpa using hhistory
    rw [hplace, hplace] at hstored
    have hbyte := congrArg (fun chunk : DataChunk => chunk.data[i]) hstored
    simp [chunkAt] at hbyte

/-- **The records are as long as they say only if nothing is in them.** What is sent exceeds its
reservation whenever the entries it announces are copied. What is received is read inside its declared
size exactly if it is refused, or empty, or its commands and the 30 bytes before them fit. -/
theorem record_length_iff (log : SmLog) (p : Nat) (term : Int) :
    (∀ (spay spay' : AsgardPayload) (instanceId : UInt16)
      (leaderId firstIdx prevLogTerm leaderCommitIdx num : Int),
      spay.asgardReserveProto instanceId
        (UInt16.ofNat (u32 (asgardProtoConAeBaseSz + num * aeEntrySize))) = (spay', some p) →
      let inside := ∀ q,
        Writes (setAeData p term leaderId firstIdx prevLogTerm leaderCommitIdx log num) q →
          p ≤ q ∧ q < p + (getProtoOffsetVal spay'.protoData p).toNat
      (inside ↔ 30 + asgChunkSize * copiedEntries log firstIdx num ≤
        (UInt16.ofNat (u32 (asgardProtoConAeBaseSz + num * aeEntrySize))).toNat) ∧
      (0 < includedEntries log firstIdx num → i32 (firstIdx + num) = firstIdx + num → ¬inside)) ∧
    ∀ (numEntries : UInt32) (pktSize : UInt16) (start : Int) (unstable : Bool),
      CopiesInside log p term (i32 numEntries.toNat) pktSize start unstable ↔
        log.RejectsCommands (i32 numEntries.toNat) pktSize.toNat start ∨
          SmLog.commandCount start (i32 numEntries.toNat) = 0 ∨
          30 + 8 * SmLog.commandCount start (i32 numEntries.toNat) ≤ pktSize.toNat := by
  refine ⟨?_, ?_⟩
  · intro spay spay' instanceId leaderId firstIdx prevLogTerm leaderCommitIdx num hreserve inside
    have hiff := writes_inside_iff (p := p) term leaderId firstIdx prevLogTerm leaderCommitIdx log num
      (UInt16.ofNat (u32 (asgardProtoConAeBaseSz + num * aeEntrySize))).toNat
    rw [← offset_of_reserve hreserve] at hiff ⊢
    refine ⟨hiff, fun hincluded hint hinside => ?_⟩
    have hnum := includedEntries_pos hincluded
    have hcopied : copiedEntries log firstIdx num = num.toNat := by
      rw [copiedEntries, if_neg hincluded.ne', hint]
      omega
    have hfits := hiff.mp hinside
    rw [hcopied, offset_of_reserve hreserve] at hfits
    exact absurd (reserved_lt (by omega)) (not_lt.mpr hfits)
  · intro numEntries pktSize start unstable
    by_cases hrejects : log.RejectsCommands (i32 numEntries.toNat) pktSize.toNat start
    · exact iff_of_true (fun m hnone => absurd hnone
        (log.appendCommands_rejects (conRecord m p) term unstable hrejects)) (.inl hrejects)
    · have haccepted : ∀ m, (log.appendCommands (conRecord m p) term (i32 numEntries.toNat)
          pktSize.toNat start unstable).2 = none := fun m => by
        rw [log.appendCommands_accepts _ term unstable hrejects]
      simp only [CopiesInside, haccepted, reads_appendCommands log p term unstable hrejects,
        hrejects, false_or, forall_const]
      constructor
      · intro hinside
        by_contra hlong
        have hlast := hinside (p + 29 + 8 * SmLog.commandCount start (i32 numEntries.toNat))
          ⟨by omega, by omega⟩
        omega
      · intro hfits q hread
        omega

/-- One entry is reserved 28 bytes. The sender writes 38, and the receiver takes them from there. -/
theorem one_entry_exceeds :
    (∃ spay', (⟨0, fun _ => 0⟩ : AsgardPayload).asgardReserveProto 3
        (UInt16.ofNat (u32 (asgardProtoConAeBaseSz + 1 * aeEntrySize))) = (spay', some 0) ∧
      (getProtoOffsetVal spay'.protoData 0).toNat = 28 ∧
      Writes (setAeData 0 7 1 2 5 (-1) fourEntries 1) 37) ∧
    ¬CopiesInside fourEntries 0 7 1 28 2 false := by
  refine ⟨⟨_, reserve_empty rfl 3 (by decide), by decide, ?_⟩, fun hinside => ?_⟩
  · exact writes_entries 7 1 2 5 (-1) fourEntries 1 (by decide) (by decide)
  · have haccepts : ¬fourEntries.RejectsCommands 1 28 2 := by decide
    have hnone := congrArg Prod.snd
      (fourEntries.appendCommands_accepts (conRecord (fun _ => 0) 0) 7 false haccepts)
    have hread := (reads_appendCommands (q := 37) fourEntries 0 7 false haccepts).mpr
      ⟨by decide, by decide⟩
    exact absurd (hinside (fun _ => 0) hnone 37 hread).2 (by decide)

theorem record_length_iff_one_entry :
    (∃ spay', (⟨0, fun _ => 0⟩ : AsgardPayload).asgardReserveProto 3
        (UInt16.ofNat (u32 (asgardProtoConAeBaseSz + 1 * aeEntrySize))) = (spay', some 0) ∧
      ¬∀ q, Writes (setAeData 0 7 1 2 5 (-1) fourEntries 1) q →
        0 ≤ q ∧ q < 0 + (getProtoOffsetVal spay'.protoData 0).toNat) ∧
    CopiesInside fourEntries 0 7 (i32 (1 : UInt32).toNat) 38 2 false :=
  ⟨⟨_, reserve_empty rfl 3 (by decide), ((record_length_iff fourEntries 0 7).1 _ _ 3 1 2 5 (-1) 1
    (reserve_empty rfl 3 (by decide))).2 (by decide) (by decide)⟩,
    ((record_length_iff fourEntries 0 7).2 1 38 2 false).mpr (.inr (.inr (by decide)))⟩

end Wire

end XlaneLkm
