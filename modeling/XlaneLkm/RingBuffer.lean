import XlaneLkm.Types
import Mathlib.Logic.Function.Basic

/-!
# The ring to user space

`ringbuffer.c`: what `consensus_init` sets up and `apply_log_to_sm` writes, and what the other side
reads. An object is a header chunk and the chunks it announces. Only user space could write an index
outside the array; what stands there is not modelled.
-/

namespace XlaneLkm

/-- `setup_asg_ring_buf`. The array is memory of the allocator. -/
def setupAsgRingBuf (ring : Nat → DataChunk) (maxElements : Int) : AsgRingBuf where
  readIdx := 0
  writeIdx := 0
  turn := 0
  size := maxElements
  ring := ring

/-- `append_rb`, `none` for the return value -1. -/
def AsgRingBuf.appendRb (buf : AsgRingBuf) (data : DataChunk) : Option AsgRingBuf :=
  if buf.writeIdx < 0 ∨ buf.writeIdx ≥ asgRingBufSizeLimit then none
  else
    let buf := { buf with
      ring := Function.update buf.ring buf.writeIdx.toNat data
      writeIdx := buf.writeIdx + 1 }
    if buf.writeIdx = buf.size then some { buf with writeIdx := 0, turn := 1 } else some buf

def validationKey : List UInt8 := [0x39, 0x3e, 0x52, 0, 0, 0, 0]

/-- `validate_header_key`: the bytes behind the first one are the key. -/
def DataChunk.validateHeaderKey (chunk : DataChunk) : Bool :=
  chunk.data.toList.drop 1 = validationKey

def DataChunk.getNumOfChunks (chunk : DataChunk) : Nat :=
  (chunk.data.get ⟨0, asgChunkSize_pos⟩).toNat

namespace AsgRingBuf

def isRbEmpty (buf : AsgRingBuf) : Bool := buf.readIdx = buf.writeIdx

/-- The chunk `read_idx` points to. -/
def front (buf : AsgRingBuf) : DataChunk := buf.ring buf.readIdx.toNat

def checkEntry (buf : AsgRingBuf) : Int :=
  if buf.isRbEmpty then -1
  else if buf.front.validateHeaderKey = false then 1
  else if buf.turn ≠ 0 then
    if buf.front.getNumOfChunks + buf.readIdx ≥ buf.writeIdx + buf.size then 1 else 0
  else if buf.front.getNumOfChunks + buf.readIdx ≥ buf.writeIdx then 1
  else 0

/-- `read_rb`, `none` for the return value -1. -/
def readRb (buf : AsgRingBuf) : Option (AsgRingBuf × DataChunk) :=
  if buf.isRbEmpty then none
  else
    let buf' := { buf with readIdx := buf.readIdx + 1 }
    some (if buf'.readIdx = buf'.size then { buf' with readIdx := 0, turn := 0 } else buf', buf.front)

end AsgRingBuf

end XlaneLkm
