import XlaneLkm.RingBuffer

/-!
# The command log

`kvstore.c` and the log part of `consensus.c`. A loop `for (i = a; i <= b; i++)` over an `int` counter
runs from `a` to `b` unless `b` is `INT_MAX`: there the counter wraps around and the loop goes on from
`INT_MIN`. `append_commands` fails in that round, which its model does too. `update_stable_idx` and
`apply_log_to_sm` come to that round only when everything up to index `INT_MAX` is valid or applied, and
their models end before it.
-/

namespace XlaneLkm

open MachineInt

namespace SmLog

/-- `consensus_idx_to_buffer_idx`, `none` for the return value -1. -/
def consensusIdxToBufferIdx (log : SmLog) (dividend : Nat) : Option Nat :=
  let divisor := u32 log.maxEntries
  let remainder := dividend % divisor
  if divisor < remainder then none else some remainder

/-- The slot of an index, as the callers use the result of `consensus_idx_to_buffer_idx`. Their
checks for -1 are left out: by `consensusIdxToBufferIdx_eq_some` it is never returned. -/
def slot (log : SmLog) (idx : Int) : Nat := u32 idx % u32 log.maxEntries

theorem consensusIdxToBufferIdx_eq_some (log : SmLog) (idx : Int) (h : 0 < u32 log.maxEntries) :
    log.consensusIdxToBufferIdx (u32 idx) = some (log.slot idx) := by
  have hlt := Nat.mod_lt (u32 idx) h
  unfold consensusIdxToBufferIdx slot
  exact if_neg (by omega)

def entry (log : SmLog) (idx : Int) : SmLogEntry := log.entries (log.slot idx)

/-- `get_last_idx_safe` repairs the last index on the way. -/
def getLastIdxSafe (log : SmLog) : SmLog :=
  if log.lastIdx < -1 then { log with lastIdx := -1 } else log

/-- `get_prev_log_term`; `term` is `priv->term`. -/
def getPrevLogTerm (log : SmLog) (term : Int) (conIdx : Int) : Int :=
  if conIdx = -1 then term
  else if conIdx < -1 then -1
  else if (log.slot conIdx : Int) > log.lastIdx then -1
  else if (log.slot conIdx : Int) > maxConsensusLog then -1
  else i32 (log.entry conIdx).term

/-- What `append_command` stores once its checks have passed. -/
def store (log : SmLog) (dataChunk : DataChunk) (term idx : Int) : SmLog :=
  { log with
    entries := Function.update log.entries (log.slot idx)
      { valid := true, term := u32 term, dataChunk := dataChunk }
    lastIdx := if log.lastIdx < idx then idx else log.lastIdx
    history := .append idx dataChunk log.lastApplied :: log.history }

def appendCommand (log : SmLog) (dataChunk : DataChunk) (term idx : Int) : Except Errno SmLog :=
  if log.commitIdx > idx then .error .eproto else .ok (log.store dataChunk term idx)

/-- The loop of `update_stable_idx` at counter `i` with `k` iterations left. -/
def updateStableLoop (log : SmLog) (i : Int) : Nat → SmLog
  | 0 => log
  | k + 1 =>
    if (log.entry i).valid = false then log
    else updateStableLoop { log with stableIdx := i } (i + 1) k

def updateStableIdx (log : SmLog) : SmLog :=
  log.updateStableLoop (log.stableIdx + 1) (log.lastIdx - log.stableIdx).toNat

/-- `entry->valid = 0`. -/
def invalidate (log : SmLog) (idx : Int) : SmLog :=
  { log with entries := Function.update log.entries (log.slot idx) { log.entry idx with valid := false } }

/-- One successful iteration of the loop of `apply_log_to_sm`. -/
def applied (log : SmLog) (i : Int) : SmLog :=
  { log.invalidate i with
    lastApplied := log.lastApplied + 1
    history := .apply i (log.entry i).dataChunk (log.entry i).valid :: log.history }

/-- The loop of `apply_log_to_sm` at counter `i` with `k` iterations left. -/
def applyLoop (log : SmLog) (rx : AsgRingBuf) (i : Int) : Nat → SmLog × AsgRingBuf
  | 0 => (log, rx)
  | k + 1 =>
    match rx.appendRb (log.entry i).dataChunk with
    | none => (log, rx)
    | some rx => applyLoop (log.applied i) rx (i + 1) k

def applyLogToSm (log : SmLog) (rx : AsgRingBuf) : SmLog × AsgRingBuf :=
  log.applyLoop rx (log.lastApplied + 1) (log.commitIdx - log.lastApplied).toNat

def commitLog (log : SmLog) (rx : AsgRingBuf) (multicastEnable : Bool) (commitIdx : Int) :
    SmLog × AsgRingBuf :=
  if commitIdx > log.commitIdx then
    if multicastEnable = false ∧ commitIdx > log.stableIdx then (log, rx)
    else applyLogToSm { log with commitIdx := commitIdx } rx
  else (log, rx)

/-! ### Receiving an APPEND -/

/-- `check_prev_log_match`, true for a return value other than 0. Both arguments are `uint32_t`. -/
def checkPrevLogMatch (log : SmLog) (prevLogTerm prevLogIdx : Nat) : Bool :=
  if prevLogIdx = u32 (-1) then false
  else if prevLogIdx > u32 log.lastIdx then true
  else (log.entry prevLogIdx).term ≠ prevLogTerm

/-- The loop of `append_commands` at index `i` and chunk `j` with `k` iterations left. -/
def appendLoop (log : SmLog) (pkt : ConRecord) (term : Int) (i : Int) (j : Nat) :
    Nat → SmLog × Option Errno
  | 0 => (log, none)
  | k + 1 =>
    match log.appendCommand (pkt.entries j) term i with
    | .error err => (log, some err)
    | .ok log => appendLoop log pkt term (i + 1) (j + 1) k

/-- `append_commands`; `term` is `priv->term`, `numEntries` and `pktSize` are `int`. -/
def appendCommands (log : SmLog) (pkt : ConRecord) (term numEntries pktSize startLogIdx : Int)
    (unstable : Bool) : SmLog × Option Errno :=
  let newLast := i32 (startLogIdx + numEntries - 1)
  if i32 (i32 (numEntries * aeEntrySize) + asgardProtoConAeBaseSz) > pktSize then
    (log, some .einval)
  else
    match log.appendLoop pkt term startLogIdx 0 (newLast - startLogIdx + 1).toNat with
    | (log, some err) => (log, some err)
    | (log, none) =>
      -- the counter comes to `INT_MIN`, which is below every `commit_idx`
      if newLast = 2147483647 then (log, some .eproto)
      else (if unstable then log else log.updateStableIdx, none)

/-- The loop of `update_next_retransmission_request_idx` at index `i`: `curIdx` and `firstReIdx`
on leaving it. The test is for a NULL entry pointer, which no slot of the log has, so no index is
ever found missing; `fuel` bounds the iterations. -/
def retransLoop (log : SmLog) (maxEntriesPerPkt : Int) (i curIdx firstReIdx : Int) :
    Nat → Int × Int
  | 0 => (curIdx, firstReIdx)
  | fuel + 1 =>
    if i < log.lastIdx then
      if log.nextRetransReqIdx = i then
        retransLoop log maxEntriesPerPkt (i + (maxEntriesPerPkt - 1) + 1) curIdx firstReIdx fuel
      else retransLoop log maxEntriesPerPkt (i + 1) curIdx firstReIdx fuel
    else (curIdx, firstReIdx)

def updateNextRetransmissionRequestIdx (log : SmLog) (maxEntriesPerPkt : Int) : SmLog :=
  if log.lastIdx = -1 then log
  else
    let found := log.retransLoop maxEntriesPerPkt (log.stableIdx + 1) (-2) (-2)
      (log.lastIdx - log.stableIdx).toNat
    { log with
      nextRetransReqIdx := if log.nextRetransReqIdx < found.1 then found.1 else found.2 }

/-- What an APPEND is answered with: the last argument of `reply_append` is `logged_idx`. -/
inductive AppendReply where
  | nothing
  | fail (loggedIdx : Int)
  | success (loggedIdx : Int)
  | retransmission (loggedIdx : Int)

/-- `_handle_append_rpc` up to the reply. -/
def handleAppend (log : SmLog) (priv : ConsensusPriv) (pkt : ConRecord) (rclusterId : Int) :
    SmLog × AppendReply :=
  let prevLogIdx := pkt.prevLogIdx
  if pkt.numEntries.toNat = 0 then (log, .nothing)
  else if prevLogIdx < log.stableIdx then (log, .nothing)
  else
    let unstable : Bool := prevLogIdx > log.stableIdx ∧
      pkt.prevLogTerm = u32 priv.term ∧ priv.leaderId = u32 rclusterId
    let startIdx := i32 (prevLogIdx + 1)
    if log.checkPrevLogMatch pkt.prevLogTerm (u32 log.stableIdx) then (log, .fail log.stableIdx)
    else
      match log.appendCommands pkt priv.term (i32 pkt.numEntries.toNat) pkt.pktSize.toNat startIdx
          unstable with
      | (log, some _) => (log, .fail log.stableIdx)
      | (log, none) =>
        let log := log.updateNextRetransmissionRequestIdx priv.maxEntriesPerPkt
        if log.nextRetransReqIdx ≠ -2 then (log, .retransmission log.nextRetransReqIdx)
        else (log, .success log.stableIdx)

end SmLog

end XlaneLkm
