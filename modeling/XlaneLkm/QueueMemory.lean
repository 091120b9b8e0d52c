import XlaneLkm.AsyncQueue
import XlaneLkm.Replication
import XlaneLkm.Library.LinkedList
import XlaneLkm.Library.Run
import Mathlib.Data.List.FinRange

/-!
# The queues in memory

The asynchronous queues of `pktqueue.c` and the retransmission lists of `leader.c` and `replication.c`
are circular lists whose links stand in the packets and requests themselves. Every function here works
on the links; it fails where it would touch memory that is not allocated, or allocate some that is. A
loop gets the number of rounds it may take.
-/

namespace XlaneLkm

open LinkedList MachineInt

abbrev Addr := Nat

def listPoison1 : Addr := 0x00100100

def listPoison2 : Addr := 0x00200200

/-! ### Asynchronous packets

A packet has a payload and an skb, which are allocated with it. Only the packet itself is ever freed. -/

/-- The queues of all targets; the head of each stands at `head i`. The packets in `mem` hold the addresses
of their payload and their skb. -/
structure AsyncMemory (ι β : Type) where
  mem : Memory Addr (Addr × Addr)
  payloads : Addr → Option β
  skbs : Addr → Option β
  head : ι → Addr
  doorbell : ι → Int
  /-- History: what was emitted, oldest first. -/
  emitted : List (ι × β)

/-- What is done to the queue of target `i`. -/
inductive AsyncCall (ι β : Type) where
  /-- The end of `do_prepare_log_replication`: `apkt`, `payload` and `skb` are what is allocated, `bytes`
  what `setup_append_msg` writes, and `ok` whether it succeeds. -/
  | prepare (i : ι) (retrans : Bool) (apkt payload skb : Addr) (bytes : β) (ok : Bool)
  /-- One round of `emit_async_unicast_pkts`. -/
  | emit (i : ι)
  | clear (i : ι)

def allocBuffer {β : Type} (a : Addr) (bytes : β) (buffers : Addr → Option β) : Option (Addr → Option β) :=
  if (buffers a).isNone then some (Function.update buffers a (some bytes)) else none

def writeBuffer {β : Type} (a : Addr) (bytes : β) (buffers : Addr → Option β) : Option (Addr → Option β) :=
  (buffers a).map fun _ => Function.update buffers a (some bytes)

variable {ι β : Type} [DecidableEq ι]

namespace AsyncMemory

def initAsgardAsyncQueue (q : AsyncMemory ι β) (i : ι) : Option (AsyncMemory ι β) :=
  (q.mem.initHead (q.head i)).map fun mem => { q with
    mem := mem
    doorbell := Function.update q.doorbell i 0 }

/-- The targets are registered one after the other. -/
def initQueues {k : Nat} (q : AsyncMemory (Fin k) β) : Option (AsyncMemory (Fin k) β) :=
  (List.finRange k).foldlM initAsgardAsyncQueue q

/-- `create_async_pkt`. The payload is zeroed, and so is the place of the payload in the skb. -/
def createAsyncPkt [Zero β] (q : AsyncMemory ι β) (apkt payload skb : Addr) :
    Option (AsyncMemory ι β) :=
  (q.mem.alloc apkt ⟨0, 0, payload, skb⟩).bind fun mem =>
    (allocBuffer payload 0 q.payloads).bind fun payloads =>
      (allocBuffer skb 0 q.skbs).map fun skbs => { q with
        mem := mem
        payloads := payloads
        skbs := skbs }

def setupAppendMsg (q : AsyncMemory ι β) (payload : Addr) (bytes : β) : Option (AsyncMemory ι β) :=
  (writeBuffer payload bytes q.payloads).map fun payloads => { q with payloads := payloads }

def enqueueAsyncPkt (q : AsyncMemory ι β) (i : ι) (apkt : Addr) : Option (AsyncMemory ι β) :=
  (q.mem.addTail apkt (q.head i)).map fun mem => { q with mem := mem }

def pushFrontAsyncPkt (q : AsyncMemory ι β) (i : ι) (apkt : Addr) : Option (AsyncMemory ι β) :=
  (q.mem.add apkt (q.head i)).map fun mem => { q with mem := mem }

def ringAaDoorbell (q : AsyncMemory ι β) (i : ι) : AsyncMemory ι β :=
  { q with doorbell := Function.update q.doorbell i (i32 (q.doorbell i + 1)) }

def afree (q : AsyncMemory ι β) (apkt : Addr) : Option (AsyncMemory ι β) :=
  (q.mem.free apkt).map fun mem => { q with mem := mem }

def listDel (q : AsyncMemory ι β) (apkt : Addr) : Option (AsyncMemory ι β) :=
  (q.mem.del listPoison1 listPoison2 apkt).map fun mem => { q with mem := mem }

/-- `dequeue_async_pkt`: the address of the packet, `none` for NULL. -/
def dequeueAsyncPkt (q : AsyncMemory ι β) (i : ι) : Option (AsyncMemory ι β × Option Addr) :=
  (q.mem.first (q.head i)).bind fun
    | none => some (q, none)
    | some queuedApkt => (q.listDel queuedApkt).map fun q => (q, some queuedApkt)

/-- The end of `do_prepare_log_replication`, from `create_async_pkt` on. What fails leaves the payload and
the skb behind. -/
def prepare [Zero β] (q : AsyncMemory ι β) (i : ι) (retrans : Bool) (apkt payload skb : Addr) (bytes : β)
    (ok : Bool) : Option (AsyncMemory ι β) :=
  (q.createAsyncPkt apkt payload skb).bind fun q =>
    (q.setupAppendMsg payload bytes).bind fun q =>
      if ok then
        (if retrans then q.pushFrontAsyncPkt i apkt else q.enqueueAsyncPkt i apkt).map
          fun q => q.ringAaDoorbell i
      else q.afree apkt

/-- `asgard_update_skb_payload` and `asgard_send_skb`: the payload is copied into the skb and zeroed. -/
def sendApkt [Zero β] (q : AsyncMemory ι β) (i : ι) (apkt : Addr) : Option (AsyncMemory ι β) :=
  (q.mem.data apkt).bind fun (payload, skb) =>
    (q.payloads payload).bind fun bytes =>
      (writeBuffer skb bytes q.skbs).bind fun skbs =>
        (writeBuffer payload 0 q.payloads).map fun payloads => { q with
          payloads := payloads
          skbs := skbs
          emitted := q.emitted ++ [(i, bytes)] }

/-- One round of `emit_async_unicast_pkts`. Nothing that was emitted is freed. -/
def emit [Zero β] (q : AsyncMemory ι β) (i : ι) : Option (AsyncMemory ι β) :=
  if q.doorbell i > 0 then
    (q.dequeueAsyncPkt i).bind fun (q, curApkt) =>
      let q := { q with doorbell := Function.update q.doorbell i (i32 (q.doorbell i - 1)) }
      match curApkt with
      | none => some q
      | some apkt => q.sendApkt i apkt
  else some q

def asyncClearQueue (fuel : Nat) (q : AsyncMemory ι β) (i : ι) : Option (AsyncMemory ι β) :=
  if q.doorbell i ≤ 0 then some q
  else
    (q.mem.isEmpty (q.head i)).bind fun empty =>
      if empty then some q
      else Memory.forEachSafe mem (q.head i) (fun entry q => (q.listDel entry).bind fun q => q.afree entry)
        fuel q

def call [Zero β] (fuel : Nat) (q : AsyncMemory ι β) : AsyncCall ι β → Option (AsyncMemory ι β)
  | .prepare i retrans apkt payload skb bytes ok => q.prepare i retrans apkt payload skb bytes ok
  | .emit i => q.emit i
  | .clear i => q.asyncClearQueue fuel i

def step [Zero β] (fuel : Nat) (q : Option (AsyncMemory ι β)) (c : AsyncCall ι β) :
    Option (AsyncMemory ι β) :=
  q.bind (call fuel · c)

/-- The queues after the calls, `none` if one of them has failed. -/
def run [Zero β] (fuel : Nat) (q : AsyncMemory ι β) (calls : List (AsyncCall ι β)) :
    Option (AsyncMemory ι β) :=
  Run.run (step fuel) (some q) calls

end AsyncMemory

/-- The queues without their links, and what was emitted. -/
structure AsyncQueues (ι β : Type) where
  queue : ι → AsyncQueue β
  emitted : List (ι × β)

namespace AsyncQueue

def prepare (aqueue : AsyncQueue β) (retrans : Bool) (payload : β) (ok : Bool) : AsyncQueue β :=
  if ok then
    (if retrans then aqueue.pushFrontAsyncPkt payload else aqueue.enqueueAsyncPkt payload).ringAaDoorbell
  else aqueue

def emit (aqueue : AsyncQueue β) : AsyncQueue β × Option β :=
  if aqueue.doorbell > 0 then
    let (queue, payload) := aqueue.dequeueAsyncPkt
    ({ queue with doorbell := i32 (queue.doorbell - 1) }, payload)
  else (aqueue, none)

def asyncClearQueue (aqueue : AsyncQueue β) : AsyncQueue β :=
  if aqueue.doorbell ≤ 0 then aqueue else { aqueue with headOfAsyncPktQueue := [] }

end AsyncQueue

namespace AsyncQueues

def init : AsyncQueues ι β where
  queue _ := .initAsgardAsyncQueue
  emitted := []

def call (q : AsyncQueues ι β) : AsyncCall ι β → AsyncQueues ι β
  | .prepare i retrans _ _ _ bytes ok =>
    { q with queue := Function.update q.queue i ((q.queue i).prepare retrans bytes ok) }
  | .emit i =>
    { queue := Function.update q.queue i (q.queue i).emit.1
      emitted := q.emitted ++ (q.queue i).emit.2.toList.map (i, ·) }
  | .clear i => { q with queue := Function.update q.queue i (q.queue i).asyncClearQueue }

def run (q : AsyncQueues ι β) (calls : List (AsyncCall ι β)) : AsyncQueues ι β := Run.run call q calls

end AsyncQueues

/-! ### Retransmission requests -/

/-- The retransmission lists of all targets, with the counters beside them. Heads and counters stand in
`struct state_machine_cmd_log`, where `CLUSTER_SIZE` of them have room. -/
structure RetransMemory (ι : Type) where
  mem : Memory Addr Int
  retransHead : ι → Addr
  retransEntries : ι → Int
  numRetransmissions : ι → Int
  /-- History: what `get_next_idx_for_target` has returned, oldest first. -/
  returned : List (ι × Int × Bool)

/-- What is done to the lists. -/
inductive RetransListCall (ι : Type) where
  /-- `newReq` is where the request is allocated, if it is. -/
  | queueRetransmission (remoteLid : ι) (retransIdx : Int) (newReq : Addr)
  /-- `nextIdx` is what `get_next_idx` returns. -/
  | getNextIdxForTarget (targetId : ι) (nextIdx : Int)
  | cleanRequestTransmissionLists
  | initializeIndices

namespace RetransMemory

def listDel (r : RetransMemory ι) (entry : Addr) : Option (RetransMemory ι) :=
  (r.mem.del listPoison1 listPoison2 entry).map fun mem => { r with mem := mem }

def afree (r : RetransMemory ι) (entry : Addr) : Option (RetransMemory ι) :=
  (r.mem.free entry).map fun mem => { r with mem := mem }

def queueRetransmission (fuel : Nat) (r : RetransMemory ι) (remoteLid : ι) (retransIdx : Int)
    (newReq : Addr) : Option (RetransMemory ι) :=
  (r.mem.findSafe (· = retransIdx) (r.retransHead remoteLid) fuel).bind fun found =>
    if found then some r
    else
      (r.mem.alloc newReq ⟨0, 0, retransIdx⟩).bind fun mem =>
        (mem.addTail newReq (r.retransHead remoteLid)).map fun mem => { r with
          mem := mem
          numRetransmissions := Function.update r.numRetransmissions remoteLid
            (r.numRetransmissions remoteLid + 1)
          retransEntries := Function.update r.retransEntries remoteLid (r.retransEntries remoteLid + 1) }

/-- `get_next_idx_for_target`: the index and `*retrans`. -/
def getNextIdxForTarget (r : RetransMemory ι) (targetId : ι) (nextIdx : Int) :
    Option (RetransMemory ι × Int × Bool) :=
  if r.retransEntries targetId > 0 then
    (r.mem.first (r.retransHead targetId)).bind fun
      | none => some (r, -1, false)
      | some curRereq =>
        let r := { r with
          retransEntries := Function.update r.retransEntries targetId (r.retransEntries targetId - 1) }
        (r.mem.data curRereq).bind fun nextIndex =>
          (r.listDel curRereq).bind fun r => (r.afree curRereq).map fun r => (r, nextIndex, true)
  else some (r, nextIdx, false)

/-- One round of `clean_request_transmission_lists`. -/
def cleanRequestTransmissionList (fuel : Nat) (r : RetransMemory ι) (i : ι) : Option (RetransMemory ι) :=
  (r.mem.isEmpty (r.retransHead i)).bind fun empty =>
    if empty then some r
    else Memory.forEachSafe mem (r.retransHead i)
      (fun entry r => (r.listDel entry).bind fun r => (r.afree entry).map fun r => { r with
        retransEntries := Function.update r.retransEntries i (r.retransEntries i - 1) }) fuel r

/-- What one round of `initialize_indices` does to the lists: entries that are left in one are lost. -/
def initializeIndex (r : RetransMemory ι) (i : ι) : Option (RetransMemory ι) :=
  (r.mem.initHead (r.retransHead i)).map fun mem => { r with
    mem := mem
    numRetransmissions := Function.update r.numRetransmissions i 0
    retransEntries := Function.update r.retransEntries i 0 }

variable {k : Nat}

def cleanRequestTransmissionLists (fuel : Nat) (r : RetransMemory (Fin k)) :
    Option (RetransMemory (Fin k)) :=
  (List.finRange k).foldlM (cleanRequestTransmissionList fuel) r

def initializeIndices (r : RetransMemory (Fin k)) : Option (RetransMemory (Fin k)) :=
  (List.finRange k).foldlM initializeIndex r

def call (fuel : Nat) (r : RetransMemory (Fin k)) :
    RetransListCall (Fin k) → Option (RetransMemory (Fin k))
  | .queueRetransmission remoteLid retransIdx newReq =>
    r.queueRetransmission fuel remoteLid retransIdx newReq
  | .getNextIdxForTarget targetId nextIdx =>
    (r.getNextIdxForTarget targetId nextIdx).map fun (r, result) =>
      { r with returned := r.returned ++ [(targetId, result)] }
  | .cleanRequestTransmissionLists => r.cleanRequestTransmissionLists fuel
  | .initializeIndices => r.initializeIndices

def step (fuel : Nat) (r : Option (RetransMemory (Fin k))) (c : RetransListCall (Fin k)) :
    Option (RetransMemory (Fin k)) := r.bind (call fuel · c)

def run (fuel : Nat) (r : RetransMemory (Fin k)) (calls : List (RetransListCall (Fin k))) :
    Option (RetransMemory (Fin k)) := Run.run (step fuel) (some r) calls

end RetransMemory

/-- The requests without their links. -/
structure RetransLists (ι : Type) where
  retransHead : ι → List Int
  retransEntries : ι → Int
  numRetransmissions : ι → Int
  returned : List (ι × Int × Bool)

namespace RetransLists

def queueRetransmission (r : RetransLists ι) (remoteLid : ι) (retransIdx : Int) : RetransLists ι :=
  if retransIdx ∈ r.retransHead remoteLid then r
  else { r with
    retransHead := Function.update r.retransHead remoteLid (r.retransHead remoteLid ++ [retransIdx])
    numRetransmissions := Function.update r.numRetransmissions remoteLid
      (r.numRetransmissions remoteLid + 1)
    retransEntries := Function.update r.retransEntries remoteLid (r.retransEntries remoteLid + 1) }

def getNextIdxForTarget (r : RetransLists ι) (targetId : ι) (nextIdx : Int) :
    RetransLists ι × Int × Bool :=
  if r.retransEntries targetId > 0 then
    match r.retransHead targetId with
    | [] => (r, -1, false)
    | request :: rest =>
      ({ r with
          retransEntries := Function.update r.retransEntries targetId (r.retransEntries targetId - 1)
          retransHead := Function.update r.retransHead targetId rest }, request, true)
  else (r, nextIdx, false)

def cleanRequestTransmissionList (r : RetransLists ι) (i : ι) : RetransLists ι :=
  { r with
    retransEntries := Function.update r.retransEntries i
      (r.retransEntries i - (r.retransHead i).length)
    retransHead := Function.update r.retransHead i [] }

def initializeIndex (r : RetransLists ι) (i : ι) : RetransLists ι :=
  { r with
    retransHead := Function.update r.retransHead i []
    numRetransmissions := Function.update r.numRetransmissions i 0
    retransEntries := Function.update r.retransEntries i 0 }

variable {k : Nat}

def call (r : RetransLists (Fin k)) : RetransListCall (Fin k) → RetransLists (Fin k)
  | .queueRetransmission remoteLid retransIdx _ => r.queueRetransmission remoteLid retransIdx
  | .getNextIdxForTarget targetId nextIdx =>
    let (r, result) := r.getNextIdxForTarget targetId nextIdx
    { r with returned := r.returned ++ [(targetId, result)] }
  | .cleanRequestTransmissionLists => (List.finRange k).foldl cleanRequestTransmissionList r
  | .initializeIndices => (List.finRange k).foldl initializeIndex r

def run (r : RetransLists (Fin k)) (calls : List (RetransListCall (Fin k))) : RetransLists (Fin k) :=
  Run.run call r calls

end RetransLists

end XlaneLkm
