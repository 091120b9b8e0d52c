import XlaneLkm.KvStore

/-!
# Building APPEND messages

`payload.c`. Every APPEND is written into a fresh, zeroed payload (`create_async_pkt`), so the record
starts at its first byte and `asgard_reserve_proto` reduces to its size check.
-/

namespace XlaneLkm

open MachineInt

/-- `asgard_reserve_proto` on an empty payload: the size the record declares, `none` for NULL. The
size is a `uint16_t` parameter. -/
def asgardReserveProto (protoSize : Int) : Option UInt16 :=
  let size := UInt16.ofNat (u32 protoSize)
  if size.toNat > maxAsgardPayloadBytes then none else some size

/-- What `set_ae_data` leaves in `included_entries`. -/
def includedEntries (log : SmLog) (firstIdx numOfEntries : Int) : Int :=
  if numOfEntries = 0 then 0
  else if firstIdx > log.lastIdx then 0
  else if i32 (firstIdx + (numOfEntries - 1)) > log.lastIdx then 0
  else numOfEntries

/-- How many entries the loop of `set_ae_data` copies. Its bound `first_idx + num_of_entries` is an
`int`: there are none when the last one has index INT_MAX. -/
def copiedEntries (log : SmLog) (firstIdx numOfEntries : Int) : Nat :=
  if includedEntries log firstIdx numOfEntries = 0 then 0
  else (i32 (firstIdx + numOfEntries) - firstIdx).toNat

def setAeData (pktSize : UInt16) (term leaderId firstIdx prevLogTerm leaderCommitIdx : Int)
    (log : SmLog) (numOfEntries : Int) : ConRecord where
  pktSize := pktSize
  opcode := UInt16.ofNat LeOpcode.append.code
  param1 := toU32 term
  param2 := toU32 leaderId
  param3 := toU32 (firstIdx - 1)
  param4 := toU32 prevLogTerm
  leaderCommitIdx := toU32 leaderCommitIdx
  numEntries := toU32 (includedEntries log firstIdx numOfEntries)
  entries k :=
    if k < copiedEntries log firstIdx numOfEntries then (log.entry (firstIdx + k)).dataChunk
    else DataChunk.zero

theorem includedEntries_eq {log : SmLog} {first num : Int} (hfirst : 0 ≤ first) (hnum : 0 < num)
    (hwithin : first + num - 1 ≤ log.lastIdx) (hlast : log.lastIdx ≤ 2147483647) :
    includedEntries log first num = num := by
  rw [includedEntries, i32_eq_self (by omega) (by omega), if_neg (by omega), if_neg (by omega),
    if_neg (by omega)]

theorem copiedEntries_eq {log : SmLog} {first num : Int} (hfirst : 0 ≤ first) (hnum : 0 < num)
    (hwithin : first + num - 1 ≤ log.lastIdx) (hlast : log.lastIdx < 2147483647) :
    copiedEntries log first num = num.toNat := by
  rw [copiedEntries, includedEntries_eq hfirst hnum hwithin (by omega), if_neg (by omega),
    i32_eq_self (by omega) (by omega)]
  omega

@[simp]
theorem setAeData_opcodeVal (pktSize : UInt16) (term leaderId firstIdx prevLogTerm commitIdx : Int)
    (log : SmLog) (num : Int) :
    (setAeData pktSize term leaderId firstIdx prevLogTerm commitIdx log num).opcodeVal =
      some .append := rfl

namespace Node

def checkTargetId (n : Node) (targetId : Nat) : Bool := targetId ≤ n.numOfTargets

def getMatchIdx (n : Node) (targetId : Nat) : Int :=
  if n.checkTargetId targetId then n.leaderIdx.matchIndex targetId else -1

def getNextIdx (n : Node) (targetId : Nat) : Int :=
  if n.checkTargetId targetId then
    if n.leaderIdx.nextIndex targetId > n.smLog.lastIdx then -2 else n.leaderIdx.nextIndex targetId
  else -2

/-- How many entries the next message carries, and whether more remain. -/
def entriesToSend (n : Node) (nextIndex : Int) : Int × Int :=
  let remaining := i32 (n.smLog.lastIdx - nextIndex + 1)
  if n.priv.maxEntriesPerPkt < remaining then (n.priv.maxEntriesPerPkt, 1) else (remaining, 0)

theorem entriesToSend_le (n : Node) (nextIndex : Int) :
    (n.entriesToSend nextIndex).1 ≤ n.priv.maxEntriesPerPkt := by
  simp only [entriesToSend]
  split
  · exact Int.le_refl _
  case isFalse hall => exact Int.not_lt.mp hall

/-- `get_last_idx_safe`. -/
def repairLast (n : Node) : Node := { n with smLog := n.smLog.getLastIdxSafe }

/-- The optimistic update of `next_index`. -/
def advanceNextIndex (n : Node) (targetId : Nat) (numEntries : Int) : Node :=
  let nextIndex := Function.update n.leaderIdx.nextIndex targetId
    (i32 (n.leaderIdx.nextIndex targetId + numEntries))
  { n with leaderIdx.nextIndex := nextIndex }

/-- `setup_append_msg` into a fresh payload, from the point where the next index is known: the node,
the return value, and the record when the return value is not negative. For `next_index = INT_MIN`,
where the subtraction wraps, the source returns -1 too, since `num_entries` is not positive. -/
def appendMsgAt (n : Node) (targetId : Nat) (nextIndex : Int) (retrans : Bool) :
    Node × Int × Option ConRecord :=
  if retrans = false ∧ nextIndex = -2 then (n, -2, none)
  else if nextIndex = -1 then (n, -1, none)
  else
    let prevLogTerm := n.smLog.getPrevLogTerm n.priv.term (nextIndex - 1)
    if prevLogTerm < 0 then (n, -1, none)
    else if n.smLog.lastIdx < nextIndex then (n, -2, none)
    else
      let (numEntries, more) := n.entriesToSend nextIndex
      if numEntries ≤ 0 then (n, -1, none)
      else
        let n' := if retrans then n else n.advanceNextIndex targetId numEntries
        match asgardReserveProto (asgardProtoConAeBaseSz + numEntries * aeEntrySize) with
        | none => (n', -1, none)
        | some pktSize => (n', more, some (setAeData pktSize n.priv.term n.priv.nodeId nextIndex
            prevLogTerm n.smLog.commitIdx n.smLog numEntries))

def setupAppendMsg (n : Node) (targetId : Nat) (nextIndex : Int) (retrans : Bool) :
    Node × Int × Option ConRecord :=
  let n := n.repairLast
  n.appendMsgAt targetId (if retrans then nextIndex else n.getNextIdx targetId) retrans

/-- `setup_append_multicast_msg` into a fresh payload. -/
def setupAppendMulticastMsg (n : Node) : Node × Int × Option ConRecord :=
  let n := n.repairLast
  let nextIndex := n.sdev.multicastNextIdx
  if nextIndex = -1 then (n, -1, none)
  else
    let prevLogTerm := n.smLog.getPrevLogTerm n.priv.term (nextIndex - 1)
    if prevLogTerm < 0 then (n, -1, none)
    else if n.smLog.lastIdx < nextIndex then (n, -2, none)
    else
      let (numEntries, more) := n.entriesToSend nextIndex
      if numEntries ≤ 0 then (n, -1, none)
      else
        match asgardReserveProto (asgardProtoConAeBaseSz + numEntries * aeEntrySize) with
        | none => (n, -1, none)
        | some pktSize =>
          ({ n with
              sdev.multicastNextIdx := i32 (nextIndex + numEntries)
              smLog.commitIdx := i32 (n.smLog.commitIdx + (numEntries - 1)) },
            more,
            some (setAeData pktSize n.priv.term n.priv.nodeId nextIndex prevLogTerm
              (i32 (nextIndex + numEntries - 1)) n.smLog numEntries))

end Node

end XlaneLkm
