import XlaneLkm.Library.MachineInt
import Mathlib.Data.Finset.Card
import Mathlib.Logic.Relation

/-!
# The queue of asynchronous packets

`pktqueue.c`, its producers in `replication.c` and its consumer in `pacemaker.c`. A producer inserts a
packet and rings the doorbell; the pacemaker looks at the doorbell only. Between any two of these steps
others may take theirs: the lock of the queue is held for an insertion or a removal, not longer.
-/

namespace XlaneLkm

open MachineInt

variable {ι α : Type*}

/-- `struct asgard_async_queue_priv`. -/
structure AsyncQueue (α : Type*) where
  doorbell : Int
  headOfAsyncPktQueue : List α

namespace AsyncQueue

def initAsgardAsyncQueue : AsyncQueue α where
  doorbell := 0
  headOfAsyncPktQueue := []

def ringAaDoorbell (aqueue : AsyncQueue α) : AsyncQueue α :=
  { aqueue with doorbell := i32 (aqueue.doorbell + 1) }

def enqueueAsyncPkt (aqueue : AsyncQueue α) (apkt : α) : AsyncQueue α :=
  { aqueue with headOfAsyncPktQueue := aqueue.headOfAsyncPktQueue ++ [apkt] }

def pushFrontAsyncPkt (aqueue : AsyncQueue α) (apkt : α) : AsyncQueue α :=
  { aqueue with headOfAsyncPktQueue := apkt :: aqueue.headOfAsyncPktQueue }

/-- `dequeue_async_pkt`, `none` for NULL. -/
def dequeueAsyncPkt (aqueue : AsyncQueue α) : AsyncQueue α × Option α :=
  match aqueue.headOfAsyncPktQueue with
  | [] => (aqueue, none)
  | queuedApkt :: rest => ({ aqueue with headOfAsyncPktQueue := rest }, some queuedApkt)

end AsyncQueue

/-- A packet, with the call that has put it into the queue. -/
structure AsyncPkt (α : Type*) where
  atFront : Bool
  payload : α

/-- Where `emit_async_unicast_pkts` stands with the queue. -/
inductive EmitState (α : Type*) where
  | idle
  /-- The doorbell was positive. -/
  | tested
  | dequeued (curApkt : Option (AsyncPkt α))

/-- A queue, its producers and its consumer. `inserted` and `emitted` record what they have done. -/
structure AsyncRun (ι α : Type*) where
  queue : AsyncQueue (AsyncPkt α)
  /-- The producers that have inserted a packet and not rung for it. -/
  ringing : Finset ι
  emit : EmitState α
  inserted : List (AsyncPkt α)
  emitted : List (AsyncPkt α)

namespace AsyncRun

def init : AsyncRun ι α where
  queue := .initAsgardAsyncQueue
  ringing := ∅
  emit := .idle
  inserted := []
  emitted := []

/-- One atomic step of some producer `i` or of the consumer. -/
inductive Step [DecidableEq ι] : AsyncRun ι α → AsyncRun ι α → Prop where
  | enqueue (s : AsyncRun ι α) (i : ι) (payload : α) (h : i ∉ s.ringing) : Step s
      { s with
        queue := s.queue.enqueueAsyncPkt ⟨false, payload⟩
        ringing := insert i s.ringing
        inserted := s.inserted ++ [⟨false, payload⟩] }
  | pushFront (s : AsyncRun ι α) (i : ι) (payload : α) (h : i ∉ s.ringing) : Step s
      { s with
        queue := s.queue.pushFrontAsyncPkt ⟨true, payload⟩
        ringing := insert i s.ringing
        inserted := s.inserted ++ [⟨true, payload⟩] }
  | ring (s : AsyncRun ι α) (i : ι) (h : i ∈ s.ringing) : Step s
      { s with queue := s.queue.ringAaDoorbell, ringing := s.ringing.erase i }
  | test (s : AsyncRun ι α) (hidle : s.emit = .idle) (h : 0 < s.queue.doorbell) : Step s
      { s with emit := .tested }
  | dequeue (s : AsyncRun ι α) (h : s.emit = .tested) : Step s
      { s with queue := s.queue.dequeueAsyncPkt.1, emit := .dequeued s.queue.dequeueAsyncPkt.2 }
  /-- `doorbell--`, and the packet is sent unless it is NULL. -/
  | decrement (s : AsyncRun ι α) (curApkt : Option (AsyncPkt α)) (h : s.emit = .dequeued curApkt) :
    Step s
      { s with
        queue := { s.queue with doorbell := i32 (s.queue.doorbell - 1) }
        emit := .idle
        emitted := s.emitted ++ curApkt.toList }

/-- A state that some interleaving leads to. -/
def Reachable [DecidableEq ι] (s : AsyncRun ι α) : Prop := Relation.ReflTransGen Step init s

end AsyncRun

end XlaneLkm
