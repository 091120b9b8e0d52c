import XlaneLkm.Payload
import XlaneLkm.SubPayload

/-!
# Consensus records in bytes

`set_ae_data` of `payload.c` as it writes into `proto_data`, and the macros of `payload.h`: the `_PTR`
family places a field in a record at `p`, the accessors of the receiver read it there.
-/

namespace XlaneLkm

open ByteMemory MachineInt

namespace Wire

/-! ### Places -/

def getConAeOpcodePtr (p : Nat) : Nat := p + 2 + 2

def getConAeTermPtr (p : Nat) : Nat := p + 4 + 2

def getConAeLeaderIdPtr (p : Nat) : Nat := p + 6 + 4

def getConAePrevLogIdxPtr (p : Nat) : Nat := p + 10 + 4

def getConAePrevLogTermPtr (p : Nat) : Nat := p + 14 + 4

def getConAePrevLeaderCommitIdxPtr (p : Nat) : Nat := p + 18 + 4

def getConAeNumEntriesPtr (p : Nat) : Nat := p + 22 + 4

def getConProtoEntriesStartPtr (p : Nat) : Nat := p + 26 + 4

def getConProtoOpcodePtr (p : Nat) : Nat := p + 2 + 2

def getConProtoParam1Ptr (p : Nat) : Nat := p + 2 + 2 + 2

def getConProtoParam2Ptr (p : Nat) : Nat := p + 2 + 2 + 2 + 4

def getConProtoParam3Ptr (p : Nat) : Nat := p + 2 + 2 + 2 + 4 + 4

def getConProtoParam4Ptr (p : Nat) : Nat := p + 2 + 2 + 2 + 4 + 4 + 4

/-! ### Reading -/

def readU16 (m : Nat → UInt8) (p : Nat) : UInt16 := UInt16.ofNat (read m p 2)

def readU32 (m : Nat → UInt8) (p : Nat) : UInt32 := UInt32.ofNat (read m p 4)

/-- The `struct data_chunk` at `p`. -/
def chunkAt (m : Nat → UInt8) (p : Nat) : DataChunk := ⟨Vector.ofFn fun i => m (p + i)⟩

/-- The record at `p`, as the handlers of leader election read it with `GET_CON_PROTO_*` and
`_handle_append_rpc` with `GET_CON_AE_*`; `cur_ptr` of `append_commands` goes from chunk to chunk. -/
def conRecord (m : Nat → UInt8) (p : Nat) : ConRecord where
  pktSize := getProtoOffsetVal m p
  opcode := readU16 m (getConProtoOpcodePtr p)
  param1 := readU32 m (getConProtoParam1Ptr p)
  param2 := readU32 m (getConProtoParam2Ptr p)
  param3 := readU32 m (getConProtoParam3Ptr p)
  param4 := readU32 m (getConProtoParam4Ptr p)
  leaderCommitIdx := readU32 m (getConAePrevLeaderCommitIdxPtr p)
  numEntries := readU32 m (getConAeNumEntriesPtr p)
  entries k := chunkAt m (getConProtoEntriesStartPtr p + asgChunkSize * k)

/-! ### Writing -/

/-- `memcpy` of a command to `p`. -/
def copyChunk (m : Nat → UInt8) (p : Nat) (chunk : DataChunk) : Nat → UInt8 :=
  copy m p asgChunkSize fun i => chunk.data.getD i 0

/-- The loop of `set_ae_data` at index `i` with `k` iterations left. -/
def setEntries (log : SmLog) (i : Int) (curPtr : Nat) : Nat → (Nat → UInt8) → Nat → UInt8
  | 0, m => m
  -- `cur_ptr` is an `uint32_t *` and increased twice
  | k + 1, m => setEntries log (i + 1) (curPtr + 4 + 4) k (copyChunk m curPtr (log.entry i).dataChunk)

/-- `set_ae_data`. The entries of the log are allocated, and `consensus_idx_to_buffer_idx` does not
fail. -/
def setAeData (p : Nat) (inTerm inLeaderId firstIdx inPrevLogTerm inLeaderCommitIdx : Int)
    (log : SmLog) (numOfEntries : Int) (m : Nat → UInt8) : Nat → UInt8 :=
  let m := write m (getConAeOpcodePtr p) 2 LeOpcode.append.code
  let m := write m (getConAeTermPtr p) 4 (u32 inTerm)
  let m := write m (getConAeLeaderIdPtr p) 4 (u32 inLeaderId)
  let m := write m (getConAePrevLogIdxPtr p) 4 (u32 (firstIdx - 1))
  let m := write m (getConAePrevLogTermPtr p) 4 (u32 inPrevLogTerm)
  let m := write m (getConAeNumEntriesPtr p) 4 (u32 numOfEntries)
  let m := write m (getConAePrevLeaderCommitIdxPtr p) 4 (u32 inLeaderCommitIdx)
  if numOfEntries = 0 then m
  else if firstIdx > log.lastIdx then write m (getConAeNumEntriesPtr p) 4 0
  else if i32 (firstIdx + (numOfEntries - 1)) > log.lastIdx then
    write m (getConAeNumEntriesPtr p) 4 0
  else
    -- `i < first_idx + num_of_entries`
    setEntries log firstIdx (getConProtoEntriesStartPtr p)
      (i32 (firstIdx + numOfEntries) - firstIdx).toNat m

end Wire

end XlaneLkm
