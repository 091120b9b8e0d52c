import XlaneLkm.Proof.AppendMsg

/-!
# Draining a target

`check_pending_log_rep_for_target` schedules a work item, `prepare_log_replication` takes it and checks
again. Each round takes a request off the retransmission list or moves `next_index` on, so the rounds
come to an end. They come to it too early where the index of a round is `match_index`.
-/

namespace XlaneLkm

open MachineInt
open Run (Settles settles_idle settles_step)

namespace Node

variable {n m f : Node} {t : Nat}

/-! ### The counter of a retransmission list

Every function that touches the list of a target keeps its counter right. -/

def Counted (n : Node) (t : Nat) : Prop :=
  n.leaderIdx.retransEntries t = (n.leaderIdx.retransHead t).length

instance (n : Node) (t : Nat) : Decidable (n.Counted t) := inferInstanceAs (Decidable (_ = _))

theorem Counted.queueRetransmission (h : n.Counted t) (remoteLid : Nat) (retransIdx : Int) :
    (n.queueRetransmission remoteLid retransIdx).Counted t := by
  rw [Counted] at h
  rw [Node.queueRetransmission]
  split
  · exact h
  · by_cases ht : t = remoteLid
    · subst ht
      simp [Counted, h]
    · simp [Counted, ht, h]

theorem Counted.getNextIdxForTarget (h : n.Counted t) (targetId : Nat) :
    (n.getNextIdxForTarget targetId).1.Counted t := by
  rw [Counted] at h
  simp only [Node.getNextIdxForTarget]
  split
  · split
    · exact h
    case h_2 request rest hlist =>
      by_cases ht : t = targetId
      · subst ht
        simp [Counted, h, hlist]
      · simp [Counted, ht, h]
  · exact h

theorem Counted.cleanRequestTransmissionList (h : n.Counted t) (i : Nat) :
    (n.cleanRequestTransmissionList i).Counted t := by
  rw [Counted] at h
  by_cases ht : t = i
  · subst ht
    simp [Counted, Node.cleanRequestTransmissionList, h]
  · simp [Counted, Node.cleanRequestTransmissionList, ht, h]

/-- An emitting leader with its tables in range, and as many entries for each message as the configuration
interface accepts. -/
structure Drainable (n : Node) (t : Nat) : Prop where
  isLeader : n.sdev.isLeader = true
  nstate : n.priv.nstate = .leader
  emitting : n.sdev.pmState = .emitting
  alive : n.sdev.alive t = true
  max : 1 ≤ n.priv.maxEntriesPerPkt ∧ n.priv.maxEntriesPerPkt ≤ maxAeEntriesPerPkt
  next : 0 ≤ n.leaderIdx.nextIndex t ∧ n.leaderIdx.nextIndex t ≤ 2147483647
  matched : -1 ≤ n.leaderIdx.matchIndex t ∧ n.leaderIdx.matchIndex t ≤ n.smLog.lastIdx
  last_le : n.smLog.lastIdx ≤ 2147483647
  retrans : ∀ r ∈ n.leaderIdx.retransHead t, 0 ≤ r ∧ r ≤ n.smLog.lastIdx
  counted : n.Counted t

theorem Drainable.lt_numOfTargets (h : n.Drainable t) : t < n.numOfTargets := by
  have halive := h.alive
  rw [AsgardDevice.alive] at halive
  split at halive
  case h_1 target heq => exact (List.getElem?_eq_some_iff.mp heq).1
  case h_2 => cases halive

theorem Drainable.checkTargetId (h : n.Drainable t) : n.checkTargetId t = true :=
  decide_eq_true h.lt_numOfTargets.le

theorem Drainable.le_lastIdx (h : n.Drainable t) : -1 ≤ n.smLog.lastIdx :=
  h.matched.1.trans h.matched.2

/-! ### The chain of work items -/

def push (n : Node) (work : LogRepWork) : Node := { n with leaderWq := n.leaderWq ++ [work] }

/-- The chain of work items that starts with a check for the target ends in `f`: each is taken out of
the queue when it is there, and in the end the queue is what it was. -/
def Ends (n : Node) (t : Nat) (f : Node) : Prop :=
  Settles step (.work n.leaderWq.length) (fun m => m.leaderWq = n.leaderWq)
    (n.checkPendingLogRepForTarget t) f

theorem step_work_idle {wq : List LogRepWork} (n : Node) (hidle : n.leaderWq = wq) :
    n.step (.work wq.length) = n := by
  rw [step, hidle, List.getElem?_eq_none (le_refl _)]

theorem step_push (n : Node) (work : LogRepWork) :
    (n.push work).step (.work n.leaderWq.length) = n.prepareLogReplication work := by
  simp only [step, push, List.getElem?_concat_length]
  rw [List.eraseIdx_append_of_length_le (le_refl _), Nat.sub_self, List.eraseIdx_cons_zero,
    List.append_nil]

theorem ends_of_idle (hcheck : n.checkPendingLogRepForTarget t = m) (hwq : m.leaderWq = n.leaderWq) :
    n.Ends t f ↔ f = m := by
  rw [Ends, hcheck]
  exact settles_idle step step_work_idle hwq

theorem ends_of_push {work : LogRepWork} (hcheck : n.checkPendingLogRepForTarget t = m.push work)
    (hwq : m.leaderWq = n.leaderWq) :
    n.Ends t f ↔ Settles step (.work n.leaderWq.length) (fun m => m.leaderWq = n.leaderWq)
      (m.prepareLogReplication work) f := by
  have hbusy : ¬(m.push work).leaderWq = n.leaderWq := fun heq => by
    have hlen := congrArg List.length heq
    rw [push, hwq, List.length_append, List.length_singleton] at hlen
    omega
  rw [Ends, hcheck, settles_step step hbusy, ← hwq, step_push]

/-- A round that is the last one. -/
theorem ends_of_last {work : LogRepWork} (hcheck : n.checkPendingLogRepForTarget t = m.push work)
    (hwq : m.leaderWq = n.leaderWq) {n' : Node} (hwork : m.prepareLogReplication work = n')
    (hwq' : n'.leaderWq = n.leaderWq) : n.Ends t f ↔ f = n' := by
  rw [ends_of_push hcheck hwq, hwork]
  exact settles_idle step step_work_idle hwq'

/-- A round after which the target is checked again. -/
theorem ends_of_round {work : LogRepWork} (hcheck : n.checkPendingLogRepForTarget t = m.push work)
    (hwq : m.leaderWq = n.leaderWq) {n' : Node}
    (hwork : m.prepareLogReplication work = n'.checkPendingLogRepForTarget t)
    (hwq' : n'.leaderWq = n.leaderWq) : n.Ends t f ↔ n'.Ends t f := by
  rw [ends_of_push hcheck hwq, hwork, Ends, hwq']

/-! ### The check -/

def takeRequest (n : Node) (t : Nat) (rest : List Int) : Node :=
  let idx := n.leaderIdx
  { n with leaderIdx := { idx with
    retransEntries := Function.update idx.retransEntries t (idx.retransEntries t - 1)
    retransHead := Function.update idx.retransHead t rest } }

@[simp]
theorem takeRequest_retransHead (n : Node) (t : Nat) (rest : List Int) :
    (n.takeRequest t rest).leaderIdx.retransHead t = rest := Function.update_self ..

@[simp]
theorem takeRequest_retransEntries (n : Node) (t : Nat) (rest : List Int) :
    (n.takeRequest t rest).leaderIdx.retransEntries t = n.leaderIdx.retransEntries t - 1 :=
  Function.update_self ..

theorem getNextIdxForTarget_cons (hcounted : n.Counted t) {request : Int} {rest : List Int}
    (hlist : n.leaderIdx.retransHead t = request :: rest) :
    n.getNextIdxForTarget t = (n.takeRequest t rest, request, true) := by
  rw [Counted, hlist, List.length_cons] at hcounted
  simp only [Node.getNextIdxForTarget, hlist, if_pos (show n.leaderIdx.retransEntries t > 0 by omega)]
  rfl

theorem getNextIdxForTarget_nil (hcounted : n.Counted t) (hlist : n.leaderIdx.retransHead t = []) :
    n.getNextIdxForTarget t = (n, n.getNextIdx t, false) := by
  rw [Counted, hlist, List.length_nil] at hcounted
  exact if_neg (show ¬n.leaderIdx.retransEntries t > 0 by omega)

theorem Drainable.takeRequest (h : n.Drainable t) {r : Int} {rest : List Int}
    (hlist : n.leaderIdx.retransHead t = r :: rest) : (n.takeRequest t rest).Drainable t where
  isLeader := h.isLeader
  nstate := h.nstate
  emitting := h.emitting
  alive := h.alive
  max := h.max
  next := h.next
  matched := h.matched
  last_le := h.last_le
  retrans := by
    rw [takeRequest_retransHead]
    exact fun i hi => h.retrans i (hlist ▸ List.mem_cons_of_mem r hi)
  counted := by
    have hcounted := h.counted
    rw [Counted, hlist, List.length_cons] at hcounted
    rw [Counted, takeRequest_retransHead, takeRequest_retransEntries]
    omega

theorem Drainable.check_eq (h : n.Drainable t) {i : Int} {retrans : Bool}
    (hget : n.getNextIdxForTarget t = (m, i, retrans)) (hsdev : m.sdev = n.sdev)
    (hmatch : m.getMatchIdx t = n.leaderIdx.matchIndex t) (hi : 0 ≤ i) :
    n.checkPendingLogRepForTarget t =
      if i = n.leaderIdx.matchIndex t then m else m.push ⟨t, i, retrans⟩ := by
  simp only [checkPendingLogRepForTarget, h.isLeader, h.emitting, hget, if_neg (not_lt.mpr hi), hmatch,
    scheduleLogRep, hsdev, push]
  rfl

/-- **With requests waiting**, the first of them is taken: for the next message, or for none. -/
theorem Drainable.check_cons (h : n.Drainable t) {r : Int} {rest : List Int}
    (hlist : n.leaderIdx.retransHead t = r :: rest) :
    n.checkPendingLogRepForTarget t =
      if r = n.leaderIdx.matchIndex t then n.takeRequest t rest
      else (n.takeRequest t rest).push ⟨t, r, true⟩ := by
  exact h.check_eq (getNextIdxForTarget_cons h.counted hlist) rfl (if_pos h.checkTargetId)
    (h.retrans r (hlist ▸ List.mem_cons_self)).1

theorem Drainable.check_nil (h : n.Drainable t) (hlist : n.leaderIdx.retransHead t = []) :
    n.checkPendingLogRepForTarget t =
      if n.smLog.lastIdx < n.leaderIdx.nextIndex t ∨
          n.leaderIdx.nextIndex t = n.leaderIdx.matchIndex t then n
      else n.push ⟨t, n.leaderIdx.nextIndex t, false⟩ := by
  have hget := getNextIdxForTarget_nil h.counted hlist
  rw [getNextIdx_eq h.lt_numOfTargets.le] at hget
  by_cases hlast : n.smLog.lastIdx < n.leaderIdx.nextIndex t
  · rw [if_pos hlast] at hget
    rw [if_pos (.inl hlast)]
    simp only [checkPendingLogRepForTarget, h.isLeader, h.emitting, hget]
    rfl
  · rw [if_neg hlast] at hget
    rw [h.check_eq hget rfl (if_pos h.checkTargetId) h.next.1]
    simp only [hlast, false_or]

/-! ### The rounds -/

theorem Drainable.prepare_none (h : n.Drainable t) {i ret : Int} {retrans : Bool}
    (hmsg : n.setupAppendMsg t i retrans = (n, ret, none)) :
    n.prepareLogReplication ⟨t, i, retrans⟩ =
      if n.leaderIdx.retransHead t ≠ [] then n.checkPendingLogRepForTarget t else n := by
  have hdo : n.doPrepareLogReplication ⟨t, i, retrans⟩ = (n, 0) := by
    simp only [doPrepareLogReplication, h.isLeader, h.alive, h.nstate, hmsg]
    rfl
  simp only [prepareLogReplication, hdo]
  rw [if_neg (by decide)]
  simp

theorem Drainable.prepare_some (h : n.Drainable t) {i more : Int} {retrans : Bool}
    {record : ConRecord} (hmsg : n.setupAppendMsg t i retrans = (m, more, some record)) :
    n.prepareLogReplication ⟨t, i, retrans⟩ =
      if more < 0 then m.send (.target t) (some record)
      else if m.leaderIdx.retransHead t ≠ [] ∨ more ≠ 0 then
        (m.send (.target t) (some record)).checkPendingLogRepForTarget t
      else m.send (.target t) (some record) := by
  have hdo : n.doPrepareLogReplication ⟨t, i, retrans⟩ =
      (m.send (.target t) (some record), more) := by
    simp only [doPrepareLogReplication, h.isLeader, h.alive, h.nstate, hmsg]
    rfl
  simp only [prepareLogReplication, hdo]
  rfl

/-- **A retransmission** sends a message or none; after it the target is checked again or not. -/
theorem Drainable.prepare_retrans (h : n.Drainable t) (r : Int) :
    ∃ sent, n.prepareLogReplication ⟨t, r, true⟩ = { n with sent := sent } ∨
      n.prepareLogReplication ⟨t, r, true⟩ =
        ({ n with sent := sent } : Node).checkPendingLogRepForTarget t := by
  have hstays : (n.setupAppendMsg t r true).1 = n := by
    rw [setupAppendMsg, repairLast_of_le h.le_lastIdx, appendMsgAt_retrans]
  generalize hmsg : n.setupAppendMsg t r true = msg at hstays
  obtain ⟨m, ret, record⟩ := msg
  obtain rfl : m = n := hstays
  cases record with
  | none =>
    refine ⟨m.sent, ?_⟩
    rw [h.prepare_none hmsg]
    split
    · exact .inr rfl
    · exact .inl rfl
  | some record =>
    refine ⟨(.target t, some record) :: m.sent, ?_⟩
    rw [h.prepare_some hmsg]
    split_ifs
    · exact .inl rfl
    · exact .inr rfl
    · exact .inl rfl

def sentNext (n : Node) (t : Nat) (num : Int) (record : ConRecord) : Node :=
  (n.advanceNextIndex t num).send (.target t) (some record)

@[simp]
theorem sentNext_nextIndex (n : Node) (t : Nat) (num : Int) (record : ConRecord) :
    (n.sentNext t num record).leaderIdx.nextIndex t = i32 (n.leaderIdx.nextIndex t + num) :=
  Function.update_self ..

/-- **A normal message** takes the next range, and the target is checked again if that is not all. -/
theorem Drainable.prepare_next (h : n.Drainable t) (hlist : n.leaderIdx.retransHead t = [])
    (hnext : n.leaderIdx.nextIndex t ≤ n.smLog.lastIdx)
    (hint : n.smLog.lastIdx - n.leaderIdx.nextIndex t + 1 ≤ 2147483647)
    (hprev : 0 ≤ n.smLog.getPrevLogTerm n.priv.term (n.leaderIdx.nextIndex t - 1)) :
    ∃ record, n.prepareLogReplication ⟨t, n.leaderIdx.nextIndex t, false⟩ =
      if n.priv.maxEntriesPerPkt < n.smLog.lastIdx - n.leaderIdx.nextIndex t + 1 then
        (n.sentNext t n.priv.maxEntriesPerPkt record).checkPendingLogRepForTarget t
      else n.sentNext t (n.smLog.lastIdx - n.leaderIdx.nextIndex t + 1) record := by
  have hlow := h.next.1
  obtain ⟨size, -, hmsg⟩ := n.appendMsgAt_eq t (n.leaderIdx.nextIndex t) false h.max hlow hnext hint hprev
  generalize setAeData .. = record at hmsg
  rw [n.entriesToSend_eq _ (by omega) hint] at hmsg
  refine ⟨record, ?_⟩
  rw [h.prepare_some ((setupAppendMsg_next h.le_lastIdx h.lt_numOfTargets.le hnext _).trans hmsg)]
  dsimp only
  split
  case isTrue hmore =>
    rw [min_eq_left hmore.le, if_neg (by decide), if_pos (.inr one_ne_zero)]
    rfl
  case isFalse hall =>
    rw [min_eq_right (not_lt.mp hall), if_neg (by decide), if_neg]
    · rfl
    · exact fun hagain => hagain.elim (fun hne => hne hlist) fun hne => hne rfl

/-- Without a previous term, or where the number of entries is no `int`, the item does nothing. -/
theorem Drainable.prepare_fails (h : n.Drainable t) (hlist : n.leaderIdx.retransHead t = [])
    (hnext : n.leaderIdx.nextIndex t ≤ n.smLog.lastIdx)
    (hfails : 2147483647 < n.smLog.lastIdx - n.leaderIdx.nextIndex t + 1 ∨
      n.smLog.getPrevLogTerm n.priv.term (n.leaderIdx.nextIndex t - 1) < 0) :
    n.prepareLogReplication ⟨t, n.leaderIdx.nextIndex t, false⟩ = n := by
  have hnone : n.smLog.getPrevLogTerm n.priv.term (n.leaderIdx.nextIndex t - 1) < 0 ∨
      (n.entriesToSend (n.leaderIdx.nextIndex t)).1 ≤ 0 := by
    refine hfails.symm.imp_right fun hint => ?_
    have hlow := h.next.1
    have hlast := h.last_le
    have hall : n.smLog.lastIdx - n.leaderIdx.nextIndex t + 1 = 2147483648 := by omega
    have hmin : i32 2147483648 = -2147483648 := by decide
    have hmax := h.max.1
    rw [entriesToSend, hall, hmin, if_neg (by omega)]
    decide
  obtain ⟨ret, -, hmsg⟩ := n.appendMsgAt_none t false (.inr hnone)
  rw [h.prepare_none ((setupAppendMsg_next h.le_lastIdx h.lt_numOfTargets.le hnext _).trans hmsg),
    if_neg (not_not_intro hlist)]

theorem Drainable.sentNext (h : n.Drainable t) (record : ConRecord)
    (hmore : n.priv.maxEntriesPerPkt < n.smLog.lastIdx - n.leaderIdx.nextIndex t + 1) :
    (n.sentNext t n.priv.maxEntriesPerPkt record).Drainable t where
  isLeader := h.isLeader
  nstate := h.nstate
  emitting := h.emitting
  alive := h.alive
  max := h.max
  next := by
    have hmax := h.max
    have hnext := h.next
    have hlast := h.last_le
    rw [sentNext_nextIndex, i32_eq_self (by omega) (by omega)]
    omega
  matched := h.matched
  last_le := h.last_le
  retrans := h.retrans
  counted := h.counted

/-! ### The end of the chain -/

/-- The index of no message from `first` on is `match_index`, and each message has a previous term. -/
def streamInOrder (n : Node) (t : Nat) (first : Int) : Prop :=
  ∀ k : Nat, first + k * n.priv.maxEntriesPerPkt ≤ n.smLog.lastIdx →
    first + k * n.priv.maxEntriesPerPkt ≠ n.leaderIdx.matchIndex t ∧
      0 ≤ n.smLog.getPrevLogTerm n.priv.term (first + k * n.priv.maxEntriesPerPkt - 1)

theorem streamInOrder_iff {first : Int} (hfirst : first ≤ n.smLog.lastIdx) :
    n.streamInOrder t first ↔
      (first ≠ n.leaderIdx.matchIndex t ∧ 0 ≤ n.smLog.getPrevLogTerm n.priv.term (first - 1)) ∧
        n.streamInOrder t (first + n.priv.maxEntriesPerPkt) := by
  have hshift : ∀ k : Nat, first + (k + 1 : Nat) * n.priv.maxEntriesPerPkt =
      first + n.priv.maxEntriesPerPkt + k * n.priv.maxEntriesPerPkt := fun k => by
    rw [Nat.cast_succ, Int.add_mul, Int.one_mul]
    omega
  rw [streamInOrder, ← Nat.and_forall_add_one]
  simp only [hshift, Nat.cast_zero, zero_mul, add_zero, hfirst, true_imp_iff, streamInOrder]

theorem streamInOrder_of_lt {first : Int} (hmax : 1 ≤ n.priv.maxEntriesPerPkt)
    (hfirst : n.smLog.lastIdx < first) : n.streamInOrder t first := fun k hk => by
  have : 0 ≤ k * n.priv.maxEntriesPerPkt := Int.mul_nonneg (Int.natCast_nonneg k) (by omega)
  omega

/-- **The normal stream** ends in exactly one state, and there everything is sent exactly if it was in
order. The induction is on what is left. -/
theorem drain_stream (h : n.Drainable t) (hlist : n.leaderIdx.retransHead t = [])
    (hnext : n.leaderIdx.nextIndex t ≤ n.smLog.lastIdx) :
    ∃ f, (∀ g, n.Ends t g ↔ g = f) ∧ (f.leaderIdx.nextIndex t = n.smLog.lastIdx + 1 ↔
      n.smLog.lastIdx < 2147483647 ∧ n.streamInOrder t (n.leaderIdx.nextIndex t)) := by
  induction hleft : (n.smLog.lastIdx - n.leaderIdx.nextIndex t).toNat using Nat.strong_induction_on
    generalizing n with
  | _ left ih =>
  have hmax := h.max
  have hlow := h.next
  have hlast := h.last_le
  have hcheck := h.check_nil hlist
  have hstays : n.leaderIdx.nextIndex t ≠ n.smLog.lastIdx + 1 := by omega
  by_cases hmatch : n.leaderIdx.nextIndex t = n.leaderIdx.matchIndex t
  · rw [if_pos (.inr hmatch)] at hcheck
    refine ⟨n, fun g => ends_of_idle hcheck rfl, iff_of_false hstays fun horder => ?_⟩
    exact ((streamInOrder_iff hnext).mp horder.2).1.1 hmatch
  rw [if_neg (not_or.mpr ⟨not_lt.mpr hnext, hmatch⟩)] at hcheck
  by_cases hfails : 2147483647 < n.smLog.lastIdx - n.leaderIdx.nextIndex t + 1 ∨
      n.smLog.getPrevLogTerm n.priv.term (n.leaderIdx.nextIndex t - 1) < 0
  · refine ⟨n, fun g => ends_of_last hcheck rfl (h.prepare_fails hlist hnext hfails) rfl,
      iff_of_false hstays fun horder => ?_⟩
    have hprev := ((streamInOrder_iff hnext).mp horder.2).1.2
    omega
  obtain ⟨hint, hprev⟩ := not_or.mp hfails
  obtain ⟨record, hwork⟩ := h.prepare_next hlist hnext (not_lt.mp hint) (not_lt.mp hprev)
  have horder := (streamInOrder_iff (t := t) hnext).trans
    (and_iff_right ⟨hmatch, not_lt.mp hprev⟩)
  by_cases hmore : n.priv.maxEntriesPerPkt < n.smLog.lastIdx - n.leaderIdx.nextIndex t + 1
  · rw [if_pos hmore] at hwork
    have hcursor : (n.sentNext t n.priv.maxEntriesPerPkt record).leaderIdx.nextIndex t =
        n.leaderIdx.nextIndex t + n.priv.maxEntriesPerPkt := by
      rw [sentNext_nextIndex]
      exact i32_eq_self (by omega) (by omega)
    have hle : (n.sentNext t n.priv.maxEntriesPerPkt record).leaderIdx.nextIndex t ≤
        n.smLog.lastIdx := by omega
    obtain ⟨f, hends, hall⟩ := ih _ (by rw [hcursor, ← hleft]; change (n.smLog.lastIdx - _).toNat < _; omega)
      (h.sentNext record hmore) hlist hle rfl
    refine ⟨f, fun g => (ends_of_round hcheck rfl hwork rfl).trans (hends g), hall.trans ?_⟩
    rw [hcursor, horder]
    rfl
  · rw [if_neg hmore] at hwork
    refine ⟨_, fun g => ends_of_last hcheck rfl hwork rfl, ?_⟩
    rw [sentNext_nextIndex, horder, and_iff_left (streamInOrder_of_lt hmax.1 (by omega))]
    have hsum : n.leaderIdx.nextIndex t + (n.smLog.lastIdx - n.leaderIdx.nextIndex t + 1) =
        n.smLog.lastIdx + 1 := by omega
    rw [hsum, i32_eq_self_iff]
    omega

/-- **The chain ends**, in exactly one state. The induction is on the list. -/
theorem drain_ends (h : n.Drainable t) : ∃ f, ∀ g, n.Ends t g ↔ g = f := by
  induction hlist : n.leaderIdx.retransHead t generalizing n with
  | nil =>
    by_cases hnext : n.leaderIdx.nextIndex t ≤ n.smLog.lastIdx
    · obtain ⟨f, hends, -⟩ := drain_stream h hlist hnext
      exact ⟨f, hends⟩
    · have hcheck := h.check_nil hlist
      rw [if_pos (.inl (not_le.mp hnext))] at hcheck
      exact ⟨n, fun g => ends_of_idle hcheck rfl⟩
  | cons r rest ih =>
    have hcheck := h.check_cons hlist
    split at hcheck
    case isTrue => exact ⟨_, fun g => ends_of_idle hcheck rfl⟩
    case isFalse =>
    have htaken := h.takeRequest hlist
    obtain ⟨sent, hwork | hwork⟩ := htaken.prepare_retrans r
    · exact ⟨_, fun g => ends_of_last hcheck rfl hwork rfl⟩
    · have hsent : ({ n.takeRequest t rest with sent := sent } : Node).Drainable t :=
        ⟨htaken.isLeader, htaken.nstate, htaken.emitting, htaken.alive, htaken.max, htaken.next,
          htaken.matched, htaken.last_le, htaken.retrans, htaken.counted⟩
      obtain ⟨f, hends⟩ := ih hsent (n.takeRequest_retransHead t rest)
      exact ⟨f, fun g => (ends_of_round hcheck rfl hwork rfl).trans (hends g)⟩

/-- Pending entries are scheduled, and the chain ends; if it started with the entries, none is left. -/
def DrainsAll (n : Node) (t : Nat) : Prop :=
  (∃ f, n.Ends t f) ∧
    (n.leaderIdx.retransHead t ≠ [] ∨ n.leaderIdx.nextIndex t ≤ n.smLog.lastIdx →
      (∃ work : LogRepWork, work.targetId = t ∧
        (n.checkPendingLogRepForTarget t).leaderWq = n.leaderWq ++ [work]) ∧
      (n.leaderIdx.retransHead t = [] →
        ∀ f, n.Ends t f → f.leaderIdx.nextIndex t = n.smLog.lastIdx + 1))

/-- The first request is not for `match_index`; without requests the stream is in order, and the index
after the last entry an `int`. -/
def drainsInOrder (n : Node) (t : Nat) : Prop :=
  match n.leaderIdx.retransHead t with
  | r :: _ => r ≠ n.leaderIdx.matchIndex t
  | [] => n.leaderIdx.nextIndex t ≤ n.smLog.lastIdx →
      n.smLog.lastIdx < 2147483647 ∧ n.streamInOrder t (n.leaderIdx.nextIndex t)

theorem schedules_iff {r : Int} {retrans : Bool} {p : Prop} [Decidable p]
    (hcheck : n.checkPendingLogRepForTarget t = if p then m else m.push ⟨t, r, retrans⟩)
    (hwq : m.leaderWq = n.leaderWq) :
    (∃ work : LogRepWork, work.targetId = t ∧
      (n.checkPendingLogRepForTarget t).leaderWq = n.leaderWq ++ [work]) ↔ ¬p := by
  rw [hcheck]
  split
  case isTrue h =>
    refine iff_of_false ?_ (not_not_intro h)
    rintro ⟨work, -, heq⟩
    have hlen := congrArg List.length (hwq.symm.trans heq)
    rw [List.length_append, List.length_singleton] at hlen
    omega
  case isFalse h => exact iff_of_true ⟨_, rfl, congrArg (· ++ _) hwq⟩ h

/-- **Draining.** The chain of work items always ends. A packet is scheduled, and the stream of entries
ends with nothing left, exactly if the guard against `match_index` is not met on the way. -/
theorem drainsAll_iff (h : n.Drainable t) : n.DrainsAll t ↔ n.drainsInOrder t := by
  obtain ⟨f, hends⟩ := drain_ends h
  have hend : ∃ f, n.Ends t f := ⟨f, (hends f).mpr rfl⟩
  rw [DrainsAll, and_iff_right hend, drainsInOrder]
  cases hlist : n.leaderIdx.retransHead t with
  | cons r rest =>
    have hscheduled := schedules_iff (h.check_cons hlist) rfl
    simp only [hscheduled, ne_eq, reduceCtorEq, not_false_eq_true, true_or, forall_const,
      false_imp_iff, and_true]
  | nil =>
    have hscheduled := schedules_iff (h.check_nil hlist) rfl
    simp only [ne_eq, not_true_eq_false, false_or, forall_const]
    refine forall_congr' fun hnext => ?_
    obtain ⟨f, hends, hall⟩ := drain_stream h hlist hnext
    rw [hscheduled, ← hall]
    constructor
    · exact fun hdrained => hdrained.2 f ((hends f).mpr rfl)
    · intro hsent
      refine ⟨fun hstops => ?_, fun g hg => (hends g).mp hg ▸ hsent⟩
      have hmatch := ((streamInOrder_iff hnext).mp (hall.mp hsent).2).1.1
      exact hstops.elim (not_lt.mpr hnext) hmatch

/-- A target that has not confirmed its next index yet is drained. -/
theorem drainsAll_of_match_lt (h : n.Drainable t) (hlist : n.leaderIdx.retransHead t = [])
    (hmatch : n.leaderIdx.matchIndex t < n.leaderIdx.nextIndex t) (hsized : n.smLog.Sized)
    (hsmall : n.smLog.maxEntries ≤ maxConsensusLog) (hlast : n.smLog.lastIdx < 2147483647)
    (hterm : 0 ≤ n.priv.term)
    (hterms : ∀ i, 0 ≤ i → i ≤ n.smLog.lastIdx → 0 ≤ i32 (n.smLog.entry i).term) :
    n.DrainsAll t := by
  rw [drainsAll_iff h, drainsInOrder, hlist]
  refine fun _ => ⟨hlast, fun k hk => ?_⟩
  have hnext := h.next.1
  have hpos : 0 ≤ k * n.priv.maxEntriesPerPkt :=
    Int.mul_nonneg (Int.natCast_nonneg k) (by have := h.max.1; omega)
  exact ⟨by omega, SmLog.getPrevLogTerm_nonneg hsized (.inl hsmall) hterm (by omega) (by omega) h.last_le
    fun hi => hterms _ hi (by omega)⟩

/-- The leader of three nodes, with two entries and one entry for each message. -/
def oneByOne : Node :=
  run (consensusInit (smallConfig 1 [2, 3]) zeroUninit)
    (.leConfig 1 :: leading [sampleChunk 7, sampleChunk 8])

theorem drainsAll_iff_oneByOne : oneByOne.DrainsAll 0 := by
  have hdrainable : oneByOne.Drainable 0 := by constructor <;> decide
  refine (drainsAll_iff hdrainable).mpr fun _ => ⟨by decide, fun k hk => ?_⟩
  have hnext : oneByOne.leaderIdx.nextIndex 0 = 0 := by decide
  have hmax : oneByOne.priv.maxEntriesPerPkt = 1 := by decide
  have hlast : oneByOne.smLog.lastIdx = 1 := by decide
  rw [hnext, hmax, hlast] at hk
  rw [hnext, hmax]
  obtain rfl | rfl : k = 0 ∨ k = 1 := by omega
  · decide
  · decide

/-- The first target confirms the first entry, and then an older refusal of it arrives. -/
def refusesLate : Node :=
  run (consensusInit (smallConfig 1 [2, 3]) zeroUninit)
    (leading [sampleChunk 7, sampleChunk 8] ++
      [.handle 0 (setLeOpcode .appendReply 1 1 0 0), .handle 0 (setLeOpcode .appendReply 1 0 (-1) (-1))])

/-- **Pending entries are not always scheduled.** -/
theorem stops_at_match : ¬∀ (n : Node) (t : Nat), n.Drainable t → n.DrainsAll t := by
  intro h
  have hdrainable : refusesLate.Drainable 0 := by constructor <;> decide
  obtain ⟨work, -, heq⟩ := ((h refusesLate 0 hdrainable).2 (.inr (by decide))).1
  have hlen := congrArg List.length heq
  rw [List.length_append, List.length_singleton] at hlen
  exact absurd hlen (by decide)

end Node

end XlaneLkm
