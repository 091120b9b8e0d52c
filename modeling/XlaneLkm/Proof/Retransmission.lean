import XlaneLkm.Proof.Drain
import XlaneLkm.Proof.CmdLogMemory
import XlaneLkm.Library.TicketQueue

/-!
# The retransmission queue

Every target has a list of requested indices and a counter beside it. Four functions of two files work
on them: whatever their order, the list is a queue that holds no index twice and the counter is its
length.
-/

namespace XlaneLkm

open Run (outputs)

inductive RetransCall where
  | queueRetransmission (remoteLid : Nat) (retransIdx : Int)
  | getNextIdxForTarget (targetId : Nat)
  | cleanRequestTransmissionLists
  | initializeIndices
  deriving DecidableEq

namespace Node

def retransCall (n : Node) : RetransCall → Node
  | .queueRetransmission remoteLid retransIdx => n.queueRetransmission remoteLid retransIdx
  | .getNextIdxForTarget targetId => (n.getNextIdxForTarget targetId).1
  | .cleanRequestTransmissionLists => n.cleanRequestTransmissionLists
  | .initializeIndices => n.initializeIndices

variable (t : Nat) (n : Node)

/-- The request that the call adds to the list of the target. -/
def requestQueued : RetransCall → List Int
  | .queueRetransmission remoteLid retransIdx =>
    if remoteLid = t ∧ retransIdx ∉ n.leaderIdx.retransHead t then [retransIdx] else []
  | _ => []

/-- The index that the call returns with `retrans = 1`, for the target. -/
def requestHandedOut : RetransCall → List Int
  | .getNextIdxForTarget targetId =>
    let (_, nextIndex, retrans) := n.getNextIdxForTarget targetId
    if targetId = t ∧ retrans then [nextIndex] else []
  | _ => []

/-! ### One call -/

/-- What a call asks of the queue of one target. -/
def retransOps : RetransCall → List (TicketQueue.Op Int)
  | .queueRetransmission remoteLid retransIdx => if remoteLid = t then [.push retransIdx] else []
  | .getNextIdxForTarget targetId => if targetId = t then [.pop] else []
  | .cleanRequestTransmissionLists => [.clear]
  | .initializeIndices => [.clear]

structure HoldsRequests (q : TicketQueue Int) : Prop where
  values : q.values = n.leaderIdx.retransHead t
  counted : n.Counted t

variable {n : Node} {t : Nat} {q : TicketQueue Int}

theorem HoldsRequests.queueRetransmission (h : n.HoldsRequests t q) (retransIdx : Int) :
    (n.queueRetransmission t retransIdx).HoldsRequests t (q.step (.push retransIdx)) := by
  refine ⟨?_, h.counted.queueRetransmission t retransIdx⟩
  by_cases hmem : retransIdx ∈ n.leaderIdx.retransHead t
  · have hwaits : retransIdx ∈ q.values := h.values ▸ hmem
    rw [q.step_push_of_mem hwaits, Node.queueRetransmission, if_pos hmem, h.values]
  · have hnew : retransIdx ∉ q.values := h.values ▸ hmem
    rw [q.step_push_values hnew, Node.queueRetransmission, if_neg hmem, h.values]
    exact (Function.update_self t _ n.leaderIdx.retransHead).symm

/-- **The flag** is set exactly where a request was waiting. -/
theorem getNextIdxForTarget_retrans (hcounted : n.Counted t) :
    (n.getNextIdxForTarget t).2.2 = true ↔ n.leaderIdx.retransHead t ≠ [] := by
  cases hlist : n.leaderIdx.retransHead t with
  | nil => simp [getNextIdxForTarget_nil hcounted hlist]
  | cons request rest => simp [getNextIdxForTarget_cons hcounted hlist]

theorem HoldsRequests.getNextIdxForTarget (h : n.HoldsRequests t q) :
    (n.getNextIdxForTarget t).1.HoldsRequests t (q.step .pop) := by
  refine ⟨?_, h.counted.getNextIdxForTarget t⟩
  rw [q.step_pop_values, h.values]
  cases hlist : n.leaderIdx.retransHead t with
  | nil => rw [getNextIdxForTarget_nil h.counted hlist, hlist, List.tail_nil]
  | cons request rest =>
    rw [getNextIdxForTarget_cons h.counted hlist, takeRequest_retransHead, List.tail_cons]

theorem initializeIndices_retrans (n : Node) (ht : t < n.numOfTargets) :
    n.initializeIndices.leaderIdx.retransHead t = [] ∧
      n.initializeIndices.leaderIdx.retransEntries t = 0 := by
  rw [initializeIndices_eq]
  obtain ⟨sent, hsent⟩ := preHbSetups_eq (List.range n.numOfTargets)
    { n with leaderIdx := n.resetIndices n.numOfTargets }
  rw [hsent]
  exact ⟨if_pos ht, if_pos ht⟩

theorem cleanRequestTransmissionLists_retransHead (n : Node) :
    n.cleanRequestTransmissionLists.leaderIdx.retransHead =
      fun i => if i < n.numOfTargets then [] else n.leaderIdx.retransHead i := by
  have hloop : n.cleanRequestTransmissionLists.leaderIdx.retransHead =
      (List.range n.numOfTargets).foldl (fun head i => Function.update head i []) n.leaderIdx.retransHead :=
    (List.foldl_hom (fun m : Node => m.leaderIdx.retransHead) fun _ _ => rfl).symm
  rw [hloop, Tally.foldl_update_range]

theorem Counted.cleanRequestTransmissionLists (h : n.Counted t) :
    n.cleanRequestTransmissionLists.Counted t := by
  unfold Node.cleanRequestTransmissionLists
  induction List.range n.numOfTargets generalizing n with
  | nil => exact h
  | cons i l ih => exact ih (h.cleanRequestTransmissionList i)

theorem retransCall_numOfTargets (n : Node) (call : RetransCall) :
    (n.retransCall call).numOfTargets = n.numOfTargets := by
  cases call with
  | queueRetransmission remoteLid retransIdx =>
    rw [retransCall, Node.queueRetransmission]
    split <;> rfl
  | getNextIdxForTarget targetId =>
    simp only [retransCall, Node.getNextIdxForTarget]
    split
    · split <;> rfl
    · rfl
  | cleanRequestTransmissionLists =>
    obtain ⟨idx, heq⟩ := n.cleanRequestTransmissionLists_eq
    rw [retransCall, heq]
    rfl
  | initializeIndices =>
    obtain ⟨sent, hsent⟩ := preHbSetups_eq (List.range n.numOfTargets)
      { n with leaderIdx := n.resetIndices n.numOfTargets }
    rw [retransCall, initializeIndices_eq, hsent]
    rfl

/-- **A call does to the list of the target what it asks of the queue.** -/
theorem HoldsRequests.retransCall (h : n.HoldsRequests t q) (ht : t < n.numOfTargets)
    (call : RetransCall) : (n.retransCall call).HoldsRequests t (q.run (retransOps t call)) := by
  cases call with
  | queueRetransmission remoteLid retransIdx =>
    by_cases hlid : remoteLid = t
    · rw [retransOps, if_pos hlid, ← hlid]
      exact (hlid ▸ h).queueRetransmission retransIdx
    · rw [retransOps, if_neg hlid]
      refine ⟨?_, h.counted.queueRetransmission remoteLid retransIdx⟩
      rw [Node.retransCall, Node.queueRetransmission]
      split
      · exact h.values
      · exact h.values.trans (Function.update_of_ne (Ne.symm hlid) ..).symm
  | getNextIdxForTarget targetId =>
    by_cases htarget : targetId = t
    · rw [retransOps, if_pos htarget, ← htarget]
      exact (htarget ▸ h).getNextIdxForTarget
    · rw [retransOps, if_neg htarget]
      refine ⟨?_, h.counted.getNextIdxForTarget targetId⟩
      simp only [Node.retransCall, Node.getNextIdxForTarget]
      split
      · split
        · exact h.values
        · exact h.values.trans (Function.update_of_ne (Ne.symm htarget) ..).symm
      · exact h.values
  | cleanRequestTransmissionLists =>
    refine ⟨?_, h.counted.cleanRequestTransmissionLists⟩
    rw [Node.retransCall, cleanRequestTransmissionLists_retransHead]
    exact (if_pos ht).symm
  | initializeIndices =>
    obtain ⟨hlist, hentries⟩ := n.initializeIndices_retrans ht
    rw [Node.retransCall]
    exact ⟨hlist.symm, by rw [Counted, hlist, hentries]; rfl⟩

theorem HoldsRequests.accepted (h : n.HoldsRequests t q) (call : RetransCall) :
    (q.run (retransOps t call)).accepted = q.accepted ++ requestQueued t n call := by
  cases call with
  | queueRetransmission remoteLid retransIdx =>
    rw [retransOps, requestQueued]
    by_cases hlid : remoteLid = t
    · rw [if_pos hlid]
      by_cases hmem : retransIdx ∈ n.leaderIdx.retransHead t
      · have hwaits : retransIdx ∈ q.values := h.values ▸ hmem
        rw [if_neg (by simp [hmem]), List.append_nil]
        exact congrArg TicketQueue.accepted (q.step_push_of_mem hwaits)
      · have hnew : retransIdx ∉ q.values := h.values ▸ hmem
        rw [if_pos ⟨hlid, hmem⟩]
        exact q.step_push_accepted hnew
    · rw [if_neg hlid, if_neg (fun hboth => hlid hboth.1), List.append_nil]
      rfl
  | getNextIdxForTarget targetId =>
    simp only [retransOps, requestQueued, List.append_nil]
    split
    · exact q.step_pop_accepted
    · rfl
  | cleanRequestTransmissionLists => exact (List.append_nil _).symm
  | initializeIndices => exact (List.append_nil _).symm

theorem HoldsRequests.handed (h : n.HoldsRequests t q) (call : RetransCall) :
    (q.run (retransOps t call)).handed = q.handed ++ requestHandedOut t n call := by
  cases call with
  | queueRetransmission remoteLid retransIdx =>
    simp only [retransOps, requestHandedOut, List.append_nil]
    split
    · exact q.step_push_handed retransIdx
    · rfl
  | getNextIdxForTarget targetId =>
    by_cases htarget : targetId = t
    · subst htarget
      rw [retransOps, if_pos rfl, requestHandedOut]
      refine q.step_pop_handed.trans (congrArg (q.handed ++ ·) ?_)
      rw [h.values]
      cases hlist : n.leaderIdx.retransHead targetId with
      | nil => simp [getNextIdxForTarget_nil h.counted hlist]
      | cons request rest => simp [getNextIdxForTarget_cons h.counted hlist]
    · have hnone : requestHandedOut t n (.getNextIdxForTarget targetId) = [] :=
        if_neg fun hboth => htarget hboth.1
      rw [retransOps, if_neg htarget, hnone, List.append_nil]
      rfl
  | cleanRequestTransmissionLists => exact (List.append_nil _).symm
  | initializeIndices => exact (List.append_nil _).symm

/-! ### Any number of calls -/

theorem HoldsRequests.run (h : n.HoldsRequests t q) (ht : t < n.numOfTargets)
    (calls : List RetransCall) : ∃ q' : TicketQueue Int,
      (Run.run Node.retransCall n calls).HoldsRequests t q' ∧
      q'.accepted = q.accepted ++ outputs Node.retransCall (requestQueued t) n calls ∧
      q'.handed = q.handed ++ outputs Node.retransCall (requestHandedOut t) n calls := by
  induction calls generalizing n q with
  | nil => exact ⟨q, h, (List.append_nil _).symm, (List.append_nil _).symm⟩
  | cons call calls ih =>
    have ht' : t < (n.retransCall call).numOfTargets := by rwa [retransCall_numOfTargets]
    obtain ⟨q', hholds, haccepted, hhanded⟩ := ih (h.retransCall ht call) ht'
    refine ⟨q', hholds, ?_, ?_⟩
    · rw [haccepted, h.accepted, List.append_assoc, outputs]
    · rw [hhanded, h.handed, List.append_assoc, outputs]

/-- **The retransmission queue of a target.** After its lists are set up, whatever is called: the counter
is the length of the list, no index stands in the list twice, and `retrans` tells whether the list was
empty. What was handed out and what still waits are requests that were queued at different times, in
the order of these times. As long as the arrays have a slot for every target, the heads, the locks and
the counters of the lists stand apart. -/
theorem retransmission_requests (n : Node) (t : Nat) (ht : t < n.numOfTargets)
    (hfew : n.numOfTargets ≤ clusterSize) (calls : List RetransCall) :
    let m := Run.run Node.retransCall n.initializeIndices calls
    let queued := outputs Node.retransCall (requestQueued t) n.initializeIndices calls
    let handedOut := outputs Node.retransCall (requestHandedOut t) n.initializeIndices calls
    m.leaderIdx.retransEntries t = (m.leaderIdx.retransHead t).length ∧
      0 ≤ m.leaderIdx.retransEntries t ∧
      (m.leaderIdx.retransHead t).Nodup ∧
      (∃ tickets : List Nat, tickets.Pairwise (· < ·) ∧
        (handedOut ++ m.leaderIdx.retransHead t).map some = tickets.map fun ticket => queued[ticket]?) ∧
      ((m.getNextIdxForTarget t).2.2 = true ↔ m.leaderIdx.retransHead t ≠ []) ∧
      ∀ lk, CmdLogMemory.TablesApart lk m := by
  intro m queued handedOut
  obtain ⟨hlist, hentries⟩ := n.initializeIndices_retrans ht
  have hinit : n.initializeIndices.HoldsRequests t .empty :=
    ⟨hlist.symm, by rw [Counted, hlist, hentries]; rfl⟩
  have ht' : t < n.initializeIndices.numOfTargets := by
    rwa [show n.initializeIndices.numOfTargets = n.numOfTargets from
      retransCall_numOfTargets n .initializeIndices]
  obtain ⟨q, hholds, haccepted, hhanded⟩ := hinit.run ht' calls
  have hqueued : q.accepted = queued := haccepted
  have hout : q.handed = handedOut := hhanded
  have hcounted : m.leaderIdx.retransEntries t = (m.leaderIdx.retransHead t).length := hholds.counted
  have htargets : m.numOfTargets = n.numOfTargets :=
    Run.invariant_run Node.retransCall (I := fun m => m.numOfTargets = n.numOfTargets)
      (fun m call hm => (retransCall_numOfTargets m call).trans hm)
      (retransCall_numOfTargets n .initializeIndices) calls
  refine ⟨hcounted, by omega, ?_, ?_, getNextIdxForTarget_retrans hholds.counted,
    fun lk => CmdLogMemory.tablesApart_of_few lk (htargets.trans_le hfew)⟩
  · rw [← hholds.values]
    exact q.distinct
  · refine ⟨(q.served ++ q.waiting).map Prod.fst, q.ordered, ?_⟩
    rw [← hholds.values, ← hout, ← hqueued]
    exact q.handed_append_values

/-- Two nodes ask for entries, the second one for entry 4 again after it was handed out. -/
def requeued : List RetransCall :=
  [.queueRetransmission 1 4, .queueRetransmission 1 7, .queueRetransmission 0 4,
    .queueRetransmission 1 4, .getNextIdxForTarget 1, .queueRetransmission 1 4]

theorem retransmission_requests_requeued :
    let n := consensusInit (smallConfig 1 [2, 3]) zeroUninit
    let m := Run.run retransCall n.initializeIndices requeued
    m.leaderIdx.retransHead 1 = [7, 4] ∧
      outputs retransCall (requestQueued 1) n.initializeIndices requeued = [4, 7, 4] ∧
      ∃ tickets : List Nat, tickets.Pairwise (· < ·) ∧
        (outputs retransCall (requestHandedOut 1) n.initializeIndices requeued ++
          m.leaderIdx.retransHead 1).map some = tickets.map fun ticket =>
            (outputs retransCall (requestQueued 1) n.initializeIndices requeued)[ticket]? :=
  ⟨by decide, by decide, (retransmission_requests _ 1 (by decide) (by decide) requeued).2.2.2.1⟩

/-- **With a fourth target** its `match_index` is one half of the first pointer of list 0: that list is
set up and then not empty, with its counter at 0. -/
theorem fourth_target_breaks_list : ¬∀ (lk : RwLock) (mem : CmdLogMemory) (n : Node) (t : Nat),
    CmdLogMemory.Shows lk mem n → t < n.numOfTargets →
    let mem' := mem.initializeIndices lk n.numOfTargets
    (mem'.get lk (.retransEntries t) = 0 ↔ mem'.listEmpty t = true) := by
  intro h
  have hempty := h CmdLogMemory.kernelRwLock
    (.ofNode CmdLogMemory.kernelRwLock 4096 (consensusInit (smallConfig 1 [2, 3, 4, 5]) zeroUninit))
    (consensusInit (smallConfig 1 [2, 3, 4, 5]) zeroUninit) 0
    (CmdLogMemory.shows_ofNode _ _ (by decide +kernel)) (by decide)
  exact absurd hempty (by decide +kernel)

end Node

end XlaneLkm
