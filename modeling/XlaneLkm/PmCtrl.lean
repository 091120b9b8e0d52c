import XlaneLkm.Membership

/-!
# Configuration of the pacemaker

The writes of `pm-ctrl.c` to the heartbeat interval, the waiting window and the list of targets, and
the timing of the loop of `do_pacemaker`. A write returns the number of bytes or a negative error. What
the kernel parses for the module is a parameter.
-/

namespace XlaneLkm

open MachineInt

/-- What the module takes from the kernel: `sscanf` with the format of `asgard_ip_convert`, `kstrtoint`
and `kstrtol`, and the address of the network device, which `is_ip_local` compares with (`none` for a
device that is not set up). -/
structure Kernel where
  sscanfIp : List Char → Option (Nat × Nat × Nat × Nat)
  kstrtoint : List Char → Except Errno Int
  kstrtol : List Char → Except Errno Int
  localIp : Option UInt32

/-! ### Heartbeat interval and waiting window -/

/-- `hbi` and `waiting_window` of `struct pminfo`. -/
structure PmTiming where
  hbi : Nat
  waitingWindow : Nat

namespace PmTiming

/-- `init_asgard_device`, with `CYCLES_PER_1MS`. -/
def initAsgardDevice : PmTiming := ⟨2400000, 100000⟩

def initPacemaker : PmTiming := ⟨0, 10000000⟩

def asgardHbiWrite (k : Kernel) (t : PmTiming) (text : List Char) : PmTiming × Int :=
  if text.length = 0 then (t, -Errno.einval.code)
  else
    match k.kstrtol text with
    | .error e => (t, -e.code)
    | .ok newHbi =>
      if newHbi < minHbCycles ∨ newHbi > maxHbCycles then (t, -Errno.einval.code)
      else ({ t with hbi := u64 newHbi }, text.length)

def asgardWwWrite (k : Kernel) (t : PmTiming) (text : List Char) : PmTiming × Int :=
  if text.length = 0 then (t, -Errno.einval.code)
  else
    match k.kstrtol text with
    | .error e => (t, -e.code)
    | .ok newWw => ({ t with waitingWindow := u64 newWw }, text.length)

end PmTiming

def scheduledTx (prevTime curTime interval : Nat) : Bool :=
  u64 (curTime - prevTime) ≥ interval

def checkAsyncWindow (prevTime curTime interval syncWindow : Nat) : Bool :=
  u64 (curTime - prevTime) ≤ u64 (interval - syncWindow)

/-- What a round of the loop of `do_pacemaker` may emit. -/
inductive PmRound where
  | scheduled
  /-- The sync window: nothing. -/
  | quiet
  /-- An irregular heartbeat, an out of schedule multicast or an asynchronous packet. -/
  | unscheduled
  deriving DecidableEq

/-- `interval` is the copy of `hbi` that is made on entering the loop; the window is read in each round. -/
def PmTiming.round (t : PmTiming) (interval prevTime curTime : Nat) : PmRound :=
  if scheduledTx prevTime curTime interval then .scheduled
  else if checkAsyncWindow prevTime curTime interval t.waitingWindow then .unscheduled
  else .quiet

/-! ### The list of targets -/

/-- What the next token of `asgard_target_write` is. -/
inductive TupleState where
  | ip | mac | protocol | clusterId
  deriving DecidableEq

/-- The variables of `asgard_target_write`. The MAC address and the protocol of a tuple are read and
not kept: `TargetInfo` has no addresses. -/
structure TargetWrite where
  host : Host
  i : Nat
  state : TupleState
  currentIp : UInt32
  clusterId : Int

namespace Kernel

def asgardIpConvert (k : Kernel) (str : List Char) : UInt32 :=
  match k.sscanfIp str with
  | some (byte0, byte1, byte2, byte3) =>
    UInt32.ofNat (byte0 * 16777216 + byte1 * 65536 + byte2 * 256 + byte3)
  | none => toU32 (-Errno.einval.code)

def isIpLocal (k : Kernel) (ip : UInt32) : Bool := k.localIp = some ip

/-- The loop over the tokens. A token that is no number in the last state leaves the cluster id of the
tuple before. -/
def targetLoop (k : Kernel) (w : TargetWrite) : List (List Char) → Host × Option Errno
  | [] => (w.host, none)
  | inputStr :: tokens =>
    if inputStr = [] then k.targetLoop w tokens
    else if w.i > asgardTargetsBuf then (w.host, none)
    else
      match w.state with
      | .ip =>
        let currentIp := k.asgardIpConvert inputStr
        if currentIp = toU32 (-Errno.einval.code) then (w.host, some .einval)
        else k.targetLoop { w with currentIp := currentIp, state := .mac } tokens
      | .mac => k.targetLoop { w with state := .protocol } tokens
      | .protocol =>
        match k.kstrtoint inputStr with
        | .error e => (w.host, some e)
        | .ok _ => k.targetLoop { w with state := .clusterId } tokens
      | .clusterId =>
        let clusterId :=
          match k.kstrtoint inputStr with
          | .error _ => w.clusterId
          | .ok clusterId => clusterId
        let host := w.host.writeTarget ⟨k.isIpLocal w.currentIp, w.currentIp, clusterId⟩
        let i := if k.isIpLocal w.currentIp then w.i else w.i + 1
        k.targetLoop { w with host := host, i := i, state := .ip, clusterId := clusterId } tokens

/-- The string in `kernel_buffer`, cut at its delimiters as `strsep` does. -/
def targetTokens (text : List Char) : List (List Char) :=
  let size := min (asgardTargetsBuf - 1) text.length
  let kernelBuffer := (text.take size).takeWhile fun c => c.toNat ≠ 0
  kernelBuffer.splitOnP fun c => " ,;()".toList.contains c

/-- `asgard_target_write`: `notCopied` is what `copy_from_user` returns, `clusterId` what stands in the
variable of the cluster id before anything is written to it. -/
def asgardTargetWrite (k : Kernel) (h : Host) (notCopied : Nat) (clusterId : Int) (text : List Char) :
    Host × Int :=
  if notCopied ≠ 0 then (h, notCopied)
  else if h.node.numOfTargets > asgardTargetsBuf then (h, -Errno.einval.code)
  else
    let w : TargetWrite :=
      { host := { h with node.sdev.targets := [] }
        i := 0
        state := .ip
        currentIp := toU32 (-1)
        clusterId := clusterId }
    match k.targetLoop w (targetTokens text) with
    | (host, some e) => (host, -e.code)
    | (host, none) => (host, text.length)

end Kernel

end XlaneLkm
