import XlaneLkm.Proof.RetransMemory
import XlaneLkm.Proof.Targets

/-!
# Requests end with the leadership

The functions of a node call upon its retransmission lists only after it became leader for the first
time, and a node that is not the leader has nothing in them. So the lists are always set up empty, and
no request is lost in memory.
-/

namespace XlaneLkm

open MachineInt

namespace Node

variable {k : Nat} {n m n' : Node}

/-! ### Steps that leave the lists alone -/

structure SameLists (n n' : Node) : Prop where
  retransHead : n'.leaderIdx.retransHead = n.leaderIdx.retransHead
  retransEntries : n'.leaderIdx.retransEntries = n.leaderIdx.retransEntries
  numRetransmissions : n'.leaderIdx.numRetransmissions = n.leaderIdx.numRetransmissions
  leads : n'.hist.leads = n.hist.leads
  numOfTargets : n'.numOfTargets = n.numOfTargets

theorem SameLists.refl (n : Node) : SameLists n n := ⟨rfl, rfl, rfl, rfl, rfl⟩

theorem SameLists.trans (h : SameLists n m) (h' : SameLists m n') : SameLists n n' where
  retransHead := h'.retransHead.trans h.retransHead
  retransEntries := h'.retransEntries.trans h.retransEntries
  numRetransmissions := h'.numRetransmissions.trans h.numRetransmissions
  leads := h'.leads.trans h.leads
  numOfTargets := h'.numOfTargets.trans h.numOfTargets

/-- Neither lists nor roles change. -/
structure Stays (n n' : Node) : Prop extends SameLists n n' where
  nstate : n'.priv.nstate = n.priv.nstate
  isLeader : n'.sdev.isLeader = n.sdev.isLeader

theorem Stays.refl (n : Node) : Stays n n := ⟨.refl n, rfl, rfl⟩

theorem Stays.trans (h : Stays n m) (h' : Stays m n') : Stays n n' where
  toSameLists := h.toSameLists.trans h'.toSameLists
  nstate := h'.nstate.trans h.nstate
  isLeader := h'.isLeader.trans h.isLeader

theorem stays_foldl {β : Type*} {f : Node → β → Node} (h : ∀ m b, Stays m (f m b)) (l : List β)
    (n : Node) : Stays n (l.foldl f n) := by
  induction l generalizing n with
  | nil => exact .refl n
  | cons b l ih => exact (h n b).trans (ih (f n b))

theorem preHbSetup_stays (n : Node) (i : Nat) : Stays n (n.preHbSetup i) := by
  obtain ⟨sent, heq⟩ := preHbSetup_eq n i
  exact heq ▸ ⟨⟨rfl, rfl, rfl, rfl, rfl⟩, rfl, rfl⟩

theorem doPrepareLogReplicationMulticast_stays (n : Node) :
    Stays n n.doPrepareLogReplicationMulticast.1 := by
  unfold doPrepareLogReplicationMulticast
  split
  · exact .refl n
  · rcases setupAppendMulticastMsg_cases n with ⟨ret, heq⟩ | ⟨num, ret, pkt, heq, -⟩
    · rw [heq]
      exact ⟨⟨rfl, rfl, rfl, rfl, rfl⟩, rfl, rfl⟩
    · rw [heq]
      exact ⟨⟨rfl, rfl, rfl, rfl, rfl⟩, rfl, rfl⟩

theorem multicastLoop_stays (fuel : Nat) (n : Node) : Stays n (n.multicastLoop fuel) := by
  induction fuel generalizing n with
  | zero => exact .refl n
  | succ fuel ih =>
    have hone := doPrepareLogReplicationMulticast_stays n
    unfold multicastLoop
    dsimp only
    split
    · exact hone.trans (ih _)
    · exact hone

theorem doPrepareLogReplication_stays (n : Node) (work : LogRepWork) :
    Stays n (n.doPrepareLogReplication work).1 := by
  have hmsg : Stays n (n.setupAppendMsg work.targetId work.nextIndex work.retrans).1 := by
    obtain ⟨nextIndex, heq⟩ := (appendMsgAt_spec n.repairLast work.targetId
      (if work.retrans then work.nextIndex else n.repairLast.getNextIdx work.targetId)
      work.retrans).1
    rw [setupAppendMsg, heq]
    exact ⟨⟨rfl, rfl, rfl, rfl, rfl⟩, rfl, rfl⟩
  unfold doPrepareLogReplication
  split_ifs
  · exact .refl n
  · exact .refl n
  · exact .refl n
  · split
    case h_1 n' ret record heq =>
      rw [heq] at hmsg
      exact hmsg.trans ⟨⟨rfl, rfl, rfl, rfl, rfl⟩, rfl, rfl⟩
    case h_2 n' ret heq =>
      rw [heq] at hmsg
      exact hmsg

theorem requestLoop_stays (chunks : List DataChunk) (n : Node) (i : Int) :
    Stays n (n.requestLoop i chunks).1 := by
  induction chunks generalizing n i with
  | nil => exact .refl n
  | cons chunk chunks ih =>
    unfold requestLoop
    split
    · exact .refl n
    · next log _ =>
      have hstore : Stays n { n with smLog := log } := ⟨⟨rfl, rfl, rfl, rfl, rfl⟩, rfl, rfl⟩
      exact hstore.trans (ih { n with smLog := log } (i + 1))

theorem handleAppendRpc_stays (n : Node) (pkt : ConRecord) (lid : Nat) (rclusterId : Int) :
    Stays n (n.handleAppendRpc pkt lid rclusterId) := by
  obtain ⟨sent, heq⟩ := n.handleAppendRpc_eq pkt lid rclusterId
  exact heq ▸ ⟨⟨rfl, rfl, rfl, rfl, rfl⟩, rfl, rfl⟩

theorem checkHandleNomination_stays {param1 param3 param4 : Nat} {rclusterId : Int} {granted : Bool}
    (h : n.checkHandleNomination param1 param3 param4 rclusterId = (m, granted)) : Stays n m := by
  obtain ⟨term, voters, heq⟩ := catchUpTerm_eq n param1 rclusterId
  rw [checkHandleNomination, heq] at h
  cases h
  exact ⟨⟨rfl, rfl, rfl, rfl, rfl⟩, rfl, rfl⟩

theorem emitPktsScheduled_stays (n : Node) : Stays n n.emitPktsScheduled :=
  stays_foldl (f := fun m i => m.send (.target i) none)
    (fun _ _ => ⟨⟨rfl, rfl, rfl, rfl, rfl⟩, rfl, rfl⟩) _ n

theorem updateAlivenessStates_stays (n : Node) : Stays n n.updateAlivenessStates :=
  ⟨⟨rfl, rfl, rfl, rfl, List.length_map _⟩, rfl, rfl⟩

theorem heartbeat_stays (n : Node) : Stays n n.heartbeat := by
  have hcount : Stays n { n with sdev.hbInterval := (n.sdev.hbInterval + 1) % 4294967296 } :=
    ⟨⟨rfl, rfl, rfl, rfl, rfl⟩, rfl, rfl⟩
  have hemit := hcount.trans (emitPktsScheduled_stays _)
  exact (hemit.trans (stays_foldl preHbSetup_stays _ _)).trans (updateAlivenessStates_stays _)

/-! ### The lists along a run -/

/-- The lists of the targets are those of the model. -/
structure HoldsLists (n : Node) (rs : RetransLists (Fin k)) : Prop where
  retransHead : ∀ t : Fin k, n.leaderIdx.retransHead t = rs.retransHead t
  retransEntries : ∀ t : Fin k, n.leaderIdx.retransEntries t = rs.retransEntries t
  numRetransmissions : ∀ t : Fin k, n.leaderIdx.numRetransmissions t = rs.numRetransmissions t

/-- What the functions of a node keep. -/
structure Kept (k : Nat) (n : Node) : Prop where
  size : n.numOfTargets = k
  first : n.hist.leads = [] → n.priv.nstate ≠ .leader ∧ n.sdev.isLeader = false
  calls : n.hist.leads ≠ [] → ∃ calls : List (RetransListCall (Fin k)),
    Run.Meets RetransLists.call RetransLists.SetsUpEmpty RetransLists.empty calls ∧
      n.HoldsLists (RetransLists.empty.run calls)
  idle : n.hist.leads ≠ [] → n.priv.nstate ≠ .leader → ∀ t < k, n.leaderIdx.retransHead t = []

/-- Nothing is in the lists, whatever the role is. -/
def Rests (k : Nat) (n : Node) : Prop := n.hist.leads ≠ [] → ∀ t < k, n.leaderIdx.retransHead t = []

theorem HoldsLists.same {rs : RetransLists (Fin k)} (h : n.HoldsLists rs) (hsame : SameLists n m) :
    m.HoldsLists rs where
  retransHead t := (congrFun hsame.retransHead t).trans (h.retransHead t)
  retransEntries t := (congrFun hsame.retransEntries t).trans (h.retransEntries t)
  numRetransmissions t := (congrFun hsame.numRetransmissions t).trans (h.numRetransmissions t)

/-- The role changes while the lists stay. -/
theorem Kept.turns (h : Kept k n) (hsame : SameLists n m)
    (hfirst : m.hist.leads = [] → m.priv.nstate ≠ .leader ∧ m.sdev.isLeader = false)
    (hidle : m.priv.nstate ≠ .leader → n.priv.nstate ≠ .leader ∨ n.Rests k) : Kept k m where
  size := hsame.numOfTargets.trans h.size
  first := hfirst
  calls hleads := by
    obtain ⟨calls, hmeets, hholds⟩ := h.calls (hsame.leads ▸ hleads)
    exact ⟨calls, hmeets, hholds.same hsame⟩
  idle hleads hrole t ht := by
    rw [hsame.retransHead]
    rw [hsame.leads] at hleads
    rcases hidle hrole with hold | hrests
    · exact h.idle hleads hold t ht
    · exact hrests hleads t ht

theorem Kept.stays (h : Kept k n) (hstays : Stays n m) : Kept k m := by
  refine h.turns hstays.toSameLists (fun hleads => ?_) fun hrole => .inl (hstays.nstate ▸ hrole)
  rw [hstays.nstate, hstays.isLeader]
  exact h.first (hstays.leads ▸ hleads)

theorem Rests.same (h : n.Rests k) (hsame : SameLists n m) : m.Rests k := fun hleads t ht => by
  rw [hsame.retransHead]
  exact h (hsame.leads ▸ hleads) t ht

/-- One more call, which does not set the lists up. -/
theorem Kept.called (h : Kept k n) (hleads : n.hist.leads ≠ []) (c : RetransListCall (Fin k))
    (hsets : ∀ rs : RetransLists (Fin k), rs.SetsUpEmpty c)
    (hcall : ∀ rs, n.HoldsLists rs → m.HoldsLists (rs.call c))
    (hsize : m.numOfTargets = n.numOfTargets) (hleads' : m.hist.leads = n.hist.leads)
    (hidle : m.priv.nstate ≠ .leader → ∀ t < k, m.leaderIdx.retransHead t = []) : Kept k m where
  size := hsize.trans h.size
  first hnone := absurd (hleads' ▸ hnone) hleads
  calls _ := by
    obtain ⟨calls, hmeets, hholds⟩ := h.calls hleads
    refine ⟨calls ++ [c], ?_, ?_⟩
    · exact (Run.meets_append _).mpr ⟨hmeets, hsets _, trivial⟩
    · rw [RetransLists.run, Run.run_append]
      exact hcall _ hholds
  idle _ := hidle

/-! ### Requests -/

theorem Kept.leads_of_isLeader (h : Kept k n) (hleader : n.sdev.isLeader = true) : n.hist.leads ≠ [] :=
  fun hnone => Bool.false_ne_true ((h.first hnone).2.symm.trans hleader)

theorem Kept.leads_of_nstate (h : Kept k n) (hrole : n.priv.nstate = .leader) : n.hist.leads ≠ [] :=
  fun hnone => (h.first hnone).1 hrole

theorem update_fin {γ : Type} {f : Nat → γ} {g : Fin k → γ} (h : ∀ t : Fin k, f t = g t) (i : Fin k)
    (x : γ) (t : Fin k) : Function.update f i x t = Function.update g i x t := by
  by_cases heq : t = i
  · subst heq
    rw [Function.update_self, Function.update_self]
  · rw [Function.update_of_ne heq, Function.update_of_ne fun hval => heq (Fin.ext hval), h]

theorem HoldsLists.queueRetransmission {rs : RetransLists (Fin k)} (h : n.HoldsLists rs) (t : Fin k)
    (retransIdx : Int) :
    (n.queueRetransmission t retransIdx).HoldsLists (rs.queueRetransmission t retransIdx) := by
  unfold Node.queueRetransmission RetransLists.queueRetransmission
  by_cases hmem : retransIdx ∈ n.leaderIdx.retransHead t
  · rw [if_pos hmem, if_pos (h.retransHead t ▸ hmem)]
    exact h
  · rw [if_neg hmem, if_neg (h.retransHead t ▸ hmem), ← h.retransHead, ← h.retransEntries,
      ← h.numRetransmissions]
    exact ⟨update_fin h.retransHead t _, update_fin h.retransEntries t _,
      update_fin h.numRetransmissions t _⟩

theorem Kept.queueRetransmission (h : Kept k n) (hrole : n.priv.nstate = .leader) {lid : Nat}
    (hlid : lid < k) (retransIdx : Int) : Kept k (n.queueRetransmission lid retransIdx) := by
  have hframe : (n.queueRetransmission lid retransIdx).numOfTargets = n.numOfTargets ∧
      (n.queueRetransmission lid retransIdx).hist.leads = n.hist.leads ∧
      (n.queueRetransmission lid retransIdx).priv.nstate = n.priv.nstate := by
    unfold Node.queueRetransmission
    dsimp only
    split <;> exact ⟨rfl, rfl, rfl⟩
  refine h.called (h.leads_of_nstate hrole) (.queueRetransmission ⟨lid, hlid⟩ retransIdx 0)
    (fun _ => trivial) (fun rs hrs => hrs.queueRetransmission ⟨lid, hlid⟩ retransIdx) hframe.1 hframe.2.1
    fun hne => absurd (hframe.2.2.trans hrole) hne

theorem HoldsLists.getNextIdxForTarget {rs : RetransLists (Fin k)} (h : n.HoldsLists rs) (t : Fin k)
    (nextIdx : Int) :
    (n.getNextIdxForTarget t).1.HoldsLists (rs.getNextIdxForTarget t nextIdx).1 := by
  unfold Node.getNextIdxForTarget RetransLists.getNextIdxForTarget
  dsimp only
  rw [← h.retransEntries, ← h.retransHead]
  split
  · cases n.leaderIdx.retransHead t with
    | nil => exact h
    | cons request rest =>
      exact ⟨update_fin h.retransHead t _, update_fin h.retransEntries t _, h.numRetransmissions⟩
  · exact h

/-- Nothing is taken from an empty list, and no other is touched. -/
theorem getNextIdxForTarget_rests (targetId : Nat) (h : ∀ t < k, n.leaderIdx.retransHead t = []) :
    ∀ t < k, (n.getNextIdxForTarget targetId).1.leaderIdx.retransHead t = [] := by
  intro t ht
  unfold Node.getNextIdxForTarget
  dsimp only
  split
  · split
    · exact h t ht
    · next request rest hlist =>
      have hne : t ≠ targetId := fun heq => by
        rw [← heq, h t ht] at hlist
        cases hlist
      exact (Function.update_of_ne hne ..).trans (h t ht)
  · exact h t ht

theorem getNextIdxForTarget_outside {rs : RetransLists (Fin k)} (h : n.HoldsLists rs) {targetId : Nat}
    (hout : k ≤ targetId) : (n.getNextIdxForTarget targetId).1.HoldsLists rs := by
  have hne : ∀ t : Fin k, (t : Nat) ≠ targetId := fun t => (t.isLt.trans_le hout).ne
  unfold Node.getNextIdxForTarget
  dsimp only
  split
  · split
    · exact h
    · refine ⟨fun t => ?_, fun t => ?_, h.numRetransmissions⟩
      · exact (Function.update_of_ne (hne t) ..).trans (h.retransHead t)
      · exact (Function.update_of_ne (hne t) ..).trans (h.retransEntries t)
  · exact h

theorem getNextIdxForTarget_frame (n : Node) (targetId : Nat) :
    (n.getNextIdxForTarget targetId).1.sdev = n.sdev ∧ (n.getNextIdxForTarget targetId).1.hist = n.hist ∧
      (n.getNextIdxForTarget targetId).1.priv = n.priv := by
  unfold Node.getNextIdxForTarget
  dsimp only
  split
  · split <;> exact ⟨rfl, rfl, rfl⟩
  · exact ⟨rfl, rfl, rfl⟩

theorem Kept.getNextIdxForTarget (h : Kept k n) (hleads : n.hist.leads ≠ []) (targetId : Nat) :
    Kept k (n.getNextIdxForTarget targetId).1 := by
  obtain ⟨hsdev, hhist, hpriv⟩ := n.getNextIdxForTarget_frame targetId
  have hidle : (n.getNextIdxForTarget targetId).1.priv.nstate ≠ .leader →
      ∀ t < k, (n.getNextIdxForTarget targetId).1.leaderIdx.retransHead t = [] := fun hrole =>
    getNextIdxForTarget_rests targetId (h.idle hleads (hpriv ▸ hrole))
  by_cases ht : targetId < k
  · have hcall : ∀ rs : RetransLists (Fin k), n.HoldsLists rs →
        (n.getNextIdxForTarget targetId).1.HoldsLists
          (rs.call (.getNextIdxForTarget ⟨targetId, ht⟩ (n.getNextIdx targetId))) := fun rs hrs =>
      let hget := hrs.getNextIdxForTarget ⟨targetId, ht⟩ (n.getNextIdx targetId)
      ⟨hget.retransHead, hget.retransEntries, hget.numRetransmissions⟩
    exact h.called hleads (.getNextIdxForTarget ⟨targetId, ht⟩ _) (fun _ => trivial) hcall
      (congrArg AsgardDevice.numOfTargets hsdev)
      (congrArg History.leads hhist) hidle
  · obtain ⟨calls, hmeets, hholds⟩ := h.calls hleads
    refine ⟨(congrArg AsgardDevice.numOfTargets hsdev).trans h.size, fun hnone => ?_, fun _ => ?_,
      fun _ => hidle⟩
    · exact absurd (hhist ▸ hnone) hleads
    · exact ⟨calls, hmeets, getNextIdxForTarget_outside hholds (Nat.not_lt.mp ht)⟩

theorem Kept.checkPendingLogRepForTarget (h : Kept k n) (targetId : Nat) :
    Kept k (n.checkPendingLogRepForTarget targetId) := by
  unfold Node.checkPendingLogRepForTarget
  split_ifs with hleader hpm
  · exact h
  · exact h
  · have hnext := h.getNextIdxForTarget
      (h.leads_of_isLeader (Bool.not_eq_false _ ▸ hleader)) targetId
    have hschedule : ∀ (m : Node) work, Kept k m → Kept k (m.scheduleLogRep work) := fun m work hm => by
      unfold scheduleLogRep
      split_ifs
      · exact hm
      · exact hm
      · exact hm.stays ⟨⟨rfl, rfl, rfl, rfl, rfl⟩, rfl, rfl⟩
    dsimp only
    split_ifs
    · exact hnext
    · exact hnext
    · exact hschedule _ _ hnext

theorem Kept.checkPendingLogRep (h : Kept k n) : Kept k n.checkPendingLogRep := by
  have hall : ∀ (l : List Nat) m, Kept k m → Kept k (l.foldl Node.checkPendingLogRepForTarget m) := by
    intro l
    induction l with
    | nil => exact fun m hm => hm
    | cons i l ih => exact fun m hm => ih _ (hm.checkPendingLogRepForTarget i)
  unfold Node.checkPendingLogRep
  split_ifs
  · exact h
  · exact h
  · unfold checkPendingLogRepForMulticast
    split_ifs
    · exact h
    · exact h.stays (multicastLoop_stays _ n)
  · exact hall _ n h

/-! ### Roles -/

theorem HoldsLists.cleanRequestTransmissionLists {rs : RetransLists (Fin k)} (h : n.HoldsLists rs)
    (hsize : n.numOfTargets = k) :
    n.cleanRequestTransmissionLists.HoldsLists (rs.call .cleanRequestTransmissionLists) := by
  have hone : ∀ {m : Node} {rs : RetransLists (Fin k)} (t : Fin k), m.HoldsLists rs →
      (m.cleanRequestTransmissionList t).HoldsLists (rs.cleanRequestTransmissionList t) := by
    intro m rs t hm
    refine ⟨update_fin hm.retransHead t [], ?_, hm.numRetransmissions⟩
    dsimp only [Node.cleanRequestTransmissionList, RetransLists.cleanRequestTransmissionList]
    rw [← hm.retransHead, ← hm.retransEntries]
    exact update_fin hm.retransEntries t _
  have hall : ∀ (l : List (Fin k)) (m : Node) (rs : RetransLists (Fin k)), m.HoldsLists rs →
      ((l.map Fin.val).foldl Node.cleanRequestTransmissionList m).HoldsLists
        (l.foldl RetransLists.cleanRequestTransmissionList rs) := by
    intro l
    induction l with
    | nil => exact fun m rs hm => hm
    | cons t l ih => exact fun m rs hm => ih _ _ (hone t hm)
  have hrange := hall (List.finRange k) n rs h
  rw [List.map_coe_finRange_eq_range] at hrange
  rw [Node.cleanRequestTransmissionLists, hsize]
  exact hrange

theorem Kept.stopRole (h : Kept k n) : Kept k n.stopRole ∧ n.stopRole.Rests k := by
  cases hrole : n.priv.nstate with
  | leader =>
    have hleads := h.leads_of_nstate hrole
    let m : Node := { n with sdev.isLeader := false }
    have hm : Kept k m := h.turns ⟨rfl, rfl, rfl, rfl, rfl⟩ (fun hnone => absurd hnone hleads) .inl
    obtain ⟨idx, heq⟩ := m.cleanRequestTransmissionLists_eq
    have hempty : ∀ t < k, m.cleanRequestTransmissionLists.leaderIdx.retransHead t = [] := fun t ht => by
      rw [cleanRequestTransmissionLists_retransHead]
      exact if_pos (ht.trans_eq hm.size.symm)
    have hstop : n.stopRole = m.cleanRequestTransmissionLists := by
      rw [Node.stopRole, hrole]
      rfl
    rw [hstop]
    refine ⟨hm.called hleads .cleanRequestTransmissionLists (fun _ => trivial)
      (fun rs hrs => hrs.cleanRequestTransmissionLists hm.size) ?_ ?_ fun _ => hempty, fun _ => hempty⟩
    · rw [heq]
      rfl
    · rw [heq]
  | follower | candidate | nodeUninit =>
    have hne : n.priv.nstate ≠ .leader := by simp [hrole]
    rw [stopRole_of_ne hne]
    exact ⟨h, fun hleads => h.idle hleads hne⟩

theorem Kept.initializeIndices (h : Kept k n) (hrests : n.Rests k) :
    Kept k n.recordLead.initializeIndices ∧ n.recordLead.initializeIndices.Rests k := by
  obtain ⟨sent, hsent⟩ := preHbSetups_eq (List.range n.recordLead.numOfTargets)
    { n.recordLead with leaderIdx := n.recordLead.resetIndices n.recordLead.numOfTargets }
  have hsize : n.recordLead.numOfTargets = k := h.size
  have heq := initializeIndices_eq n.recordLead
  rw [hsent, hsize] at heq
  have hempty : ∀ t < k, n.recordLead.initializeIndices.leaderIdx.retransHead t = [] := fun t ht => by
    rw [heq]
    exact if_pos ht
  have hholds : ∀ rs : RetransLists (Fin k),
      n.recordLead.initializeIndices.HoldsLists { RetransLists.empty with returned := rs.returned } := by
    intro rs
    rw [heq]
    exact ⟨fun t => if_pos t.isLt, fun t => if_pos t.isLt, fun t => if_pos t.isLt⟩
  refine ⟨⟨?_, ?_, fun _ => ?_, fun _ _ => hempty⟩, fun _ => hempty⟩
  · rw [heq]
    exact h.size
  · rw [heq]
    exact fun hnone => absurd hnone (List.cons_ne_nil _ _)
  · by_cases hleads : n.hist.leads = []
    · exact ⟨[], trivial, hholds RetransLists.empty⟩
    · obtain ⟨calls, hmeets, hlists⟩ := h.calls hleads
      have hset : (RetransLists.empty.run calls).SetsUpEmpty .initializeIndices := fun t =>
        (hlists.retransHead t).symm.trans (hrests hleads t t.isLt)
      refine ⟨calls ++ [.initializeIndices], ?_, ?_⟩
      · exact (Run.meets_append _).mpr ⟨hmeets, hset, trivial⟩
      · rw [RetransLists.run, Run.run_append, Run.run_cons, Run.run_nil, RetransLists.initializeIndices_eq]
        exact hholds _

theorem Kept.startLeader (h : Kept k n) (hrests : n.Rests k) :
    Kept k n.startLeader ∧ n.startLeader.hist.leads ≠ [] := by
  obtain ⟨hinit, hempty⟩ := h.initializeIndices hrests
  have hleads : n.recordLead.initializeIndices.hist.leads ≠ [] := fun hnone => by
    obtain ⟨sent, hsent⟩ := preHbSetups_eq (List.range n.recordLead.numOfTargets)
      { n.recordLead with leaderIdx := n.recordLead.resetIndices n.recordLead.numOfTargets }
    rw [initializeIndices_eq, hsent] at hnone
    cases hnone
  have hraised : Kept k { n.recordLead.initializeIndices with
      sdev.isLeader := true
      priv.candidateCounter := 0 } :=
    hinit.turns ⟨rfl, rfl, rfl, rfl, rfl⟩ (fun hnone => absurd hnone hleads) fun _ => .inr hempty
  have hfilled := stays_foldl preHbSetup_stays (List.range n.recordLead.initializeIndices.numOfTargets)
    { n.recordLead.initializeIndices with sdev.isLeader := true, priv.candidateCounter := 0 }
  refine ⟨(hraised.stays hfilled).checkPendingLogRep, ?_⟩
  have hlead : ∀ m : Node, m.hist.leads ≠ [] → m.checkPendingLogRep.hist.leads ≠ [] := fun m =>
    (checkPendingLogRep_acts (s := m) (e := .tick) m).leads_ne_nil
  exact hlead _ (hfilled.leads ▸ hleads)

theorem setupNomination_stays (n : Node) : Stays n n.setupNomination := by
  obtain ⟨sent, heq⟩ := setupLeBroadcastMsg_eq (n.setTerm (i32 (n.priv.term + 1))) .nomi
  rw [setupNomination, heq]
  exact ⟨⟨rfl, rfl, rfl, rfl, rfl⟩, rfl, rfl⟩

theorem startCandidate_role (h : n.startCandidate = some m) :
    SameLists n m ∧ m.priv.nstate = .candidate ∧ m.sdev.isLeader = false := by
  unfold startCandidate at h
  split at h
  case isTrue => cases h
  case isFalse =>
    cases h
    have hnomination := setupNomination_stays { n.resetVotes with
      priv.nstate := .candidate, priv.candidateCounter := 0, sdev.isLeader := false }
    refine ⟨?_, hnomination.nstate, hnomination.isLeader⟩
    exact ⟨hnomination.retransHead, hnomination.retransEntries, hnomination.numRetransmissions,
      hnomination.leads, hnomination.numOfTargets⟩

theorem Kept.nodeTransition (h : Kept k n) (state : NodeState) : Kept k (n.nodeTransition state) := by
  have hreset : Kept k n.resetVotes := h.stays ⟨⟨rfl, rfl, rfl, rfl, rfl⟩, rfl, rfl⟩
  obtain ⟨hstop, hrests⟩ := hreset.stopRole
  cases state with
  | follower =>
    have hnoop : Stays n.resetVotes.stopRole (n.resetVotes.stopRole.setupLeBroadcastMsg .noop) := by
      obtain ⟨sent, heq⟩ := setupLeBroadcastMsg_eq n.resetVotes.stopRole .noop
      exact heq ▸ ⟨⟨rfl, rfl, rfl, rfl, rfl⟩, rfl, rfl⟩
    exact (hstop.stays hnoop).turns ⟨rfl, rfl, rfl, rfl, rfl⟩ (fun _ => ⟨NodeState.noConfusion, rfl⟩)
      fun _ => .inr (hrests.same hnoop.toSameLists)
  | candidate =>
    simp only [Node.nodeTransition]
    split
    case h_1 => exact hstop.stays ⟨⟨rfl, rfl, rfl, rfl, rfl⟩, rfl, rfl⟩
    case h_2 m hstart =>
      obtain ⟨hsame, -, hleader⟩ := startCandidate_role hstart
      exact hstop.turns ⟨hsame.retransHead, hsame.retransEntries, hsame.numRetransmissions, hsame.leads,
        hsame.numOfTargets⟩ (fun _ => ⟨NodeState.noConfusion, hleader⟩) fun _ => .inr hrests
  | leader =>
    obtain ⟨hstart, hleads⟩ := hstop.startLeader hrests
    exact hstart.turns ⟨rfl, rfl, rfl, rfl, rfl⟩ (fun hnone => absurd hnone hleads)
      fun hne => absurd rfl hne
  | nodeUninit => exact hstop

theorem Kept.acceptLeader (h : Kept k n) (lid : Nat) (clusterId term : Int) :
    Kept k (n.acceptLeader lid clusterId term) := by
  have haccept : Kept k { n.setTerm term with
      priv.leaderId := u32 clusterId
      sdev.curLeaderLid := lid
      hist.accepted := (clusterId, term) :: n.hist.accepted } :=
    h.stays ⟨⟨rfl, rfl, rfl, rfl, rfl⟩, rfl, rfl⟩
  exact haccept.nodeTransition .follower

theorem Kept.updateLeader (h : Kept k n) : Kept k n.updateLeader := by
  unfold Node.updateLeader
  split_ifs
  · exact h
  · exact h.stays ⟨⟨rfl, rfl, rfl, rfl, rfl⟩, rfl, rfl⟩
  · exact h.nodeTransition .candidate
  · exact h
  · exact h

theorem Kept.consensusStart (h : Kept k n) : Kept k n.consensusStart := by
  unfold Node.consensusStart
  split
  · exact h
  · exact (h.stays ⟨⟨rfl, rfl, rfl, rfl, rfl⟩, rfl, rfl⟩ : Kept k { n with
      priv.state := .running }).nodeTransition .follower

theorem Kept.consensusStop (h : Kept k n) : Kept k n.consensusStop := by
  unfold Node.consensusStop
  split
  · exact h
  · exact h.stopRole.1.stays ⟨⟨rfl, rfl, rfl, rfl, List.length_map _⟩, rfl, rfl⟩

theorem Kept.checkWarmupState (h : Kept k n) : Kept k n.checkWarmupState.1 := by
  unfold Node.checkWarmupState
  split_ifs
  · exact h
  · exact h
  · exact (h.consensusStart.stays ⟨⟨rfl, rfl, rfl, rfl, rfl⟩, rfl, rfl⟩ : Kept k
      { n.consensusStart with sdev.warmupState := .warmedUp }).updateLeader
  · exact h

/-! ### Packets -/

section Packets

variable (lid : Nat) (rclusterId : Int) (pkt : ConRecord)

theorem Kept.followerProcessPkt (h : Kept k n) : Kept k (n.followerProcessPkt lid rclusterId pkt) := by
  have hcommit : ∀ (m : Node) idx, Kept k m → Kept k (m.commitLog idx) := fun m idx hm =>
    hm.stays ⟨⟨rfl, rfl, rfl, rfl, rfl⟩, rfl, rfl⟩
  have haccept := h.acceptLeader lid rclusterId (asI32 pkt.param1)
  unfold Node.followerProcessPkt
  dsimp only
  split
  · split
    case h_1 m hcheck =>
      exact (h.stays (checkHandleNomination_stays hcheck)).stays ⟨⟨rfl, rfl, rfl, rfl, rfl⟩, rfl, rfl⟩
    case h_2 m hcheck => exact h.stays (checkHandleNomination_stays hcheck)
  · split_ifs
    · exact hcommit _ _ haccept
    · exact haccept
    · exact hcommit _ _ h
    · exact h
  · split_ifs
    · exact h
    · exact haccept.stays (handleAppendRpc_stays _ pkt lid rclusterId)
    · exact hcommit _ _ (h.stays (handleAppendRpc_stays n pkt lid rclusterId))
    · exact h
  · exact h

theorem Kept.candidateProcessPkt (h : Kept k n) :
    Kept k (n.candidateProcessPkt lid rclusterId pkt) := by
  unfold Node.candidateProcessPkt
  dsimp only
  split
  · unfold acceptVote
    have hcount : Kept k { n with
        priv.votes := n.priv.votes + 1
        hist.counted := lid :: n.hist.counted } := h.stays ⟨⟨rfl, rfl, rfl, rfl, rfl⟩, rfl, rfl⟩
    dsimp only
    split
    · exact (hcount.nodeTransition .leader).stays ⟨⟨rfl, rfl, rfl, rfl, rfl⟩, rfl, rfl⟩
    · exact hcount.stays ⟨⟨rfl, rfl, rfl, rfl, rfl⟩, rfl, rfl⟩
  · split
    case h_1 m hcheck =>
      have hm := (h.stays (checkHandleNomination_stays hcheck)).nodeTransition .follower
      exact hm.stays ⟨⟨rfl, rfl, rfl, rfl, rfl⟩, rfl, rfl⟩
    case h_2 m hcheck => exact h.stays (checkHandleNomination_stays hcheck)
  · split
    · exact h.acceptLeader lid rclusterId (asI32 pkt.param1)
    · exact h
  · split_ifs
    · exact h
    · exact h.stays (handleAppendRpc_stays n pkt lid rclusterId)
    · exact h
  · exact h

theorem Kept.leaderProcessPkt (h : Kept k n) (hrole : n.priv.nstate = .leader) (hlid : lid < k) :
    Kept k (n.leaderProcessPkt lid rclusterId pkt) := by
  unfold Node.leaderProcessPkt
  split
  · unfold leaderProcessAppendReply
    dsimp only
    split_ifs
    · exact h
    · obtain ⟨log, heq⟩ := updateCommitIdx_eq { n with
        leaderIdx.matchIndex := Function.update n.leaderIdx.matchIndex lid (asI32 pkt.param4) }
      rw [heq]
      exact h.stays ⟨⟨rfl, rfl, rfl, rfl, rfl⟩, rfl, rfl⟩
    · exact h
    · exact h
    · exact (h.queueRetransmission hrole hlid _).checkPendingLogRep
    · exact h
    · exact h.stays ⟨⟨rfl, rfl, rfl, rfl, rfl⟩, rfl, rfl⟩
    · exact h
  · split
    · exact h.acceptLeader lid rclusterId (asI32 pkt.param1)
    · exact h
  · exact h

theorem Kept.consensusPostPayload (h : Kept k n) (hlid : lid < k) :
    Kept k (n.consensusPostPayload lid rclusterId pkt) := by
  unfold Node.consensusPostPayload
  split
  · exact h
  · split
    · exact h.followerProcessPkt lid rclusterId pkt
    · exact h.candidateProcessPkt lid rclusterId pkt
    · next hrole => exact h.leaderProcessPkt lid rclusterId pkt hrole hlid
    · exact h

end Packets

/-! ### Steps and runs -/

theorem Kept.step (h : Kept k n) (e : Event) : Kept k (n.step e) := by
  cases e with
  | rx lid ts =>
    simp only [Node.step, doPostPayload]
    split_ifs
    · exact h
    · have hheard : Stays n { n with
          sdev.targets := n.sdev.targets.modify lid fun t => { t with chbTs := ts, alive := true } } :=
        ⟨⟨rfl, rfl, rfl, rfl, List.length_modify ..⟩, rfl, rfl⟩
      exact (h.stays hheard).checkWarmupState
    · exact h
  | handle lid pkt =>
    simp only [Node.step]
    split
    · next hlid =>
      have hnote : Stays n (n.noteVote lid pkt) := by
        unfold noteVote
        split
        · exact ⟨⟨rfl, rfl, rfl, rfl, rfl⟩, rfl, rfl⟩
        · exact .refl n
      exact (h.stays hnote).consensusPostPayload lid _ pkt (hlid.trans_eq h.size)
    · exact h
  | tick =>
    simp only [Node.step, Node.tick]
    have hbeat := h.stays (heartbeat_stays n)
    split
    · exact h
    · split
      · exact hbeat.updateLeader.checkPendingLogRep
      · exact hbeat.checkPendingLogRep
  | request chunks =>
    simp only [Node.step, testcaseTimer]
    have hloop := requestLoop_stays (chunks.take (i32 (i32 (n.smLog.lastIdx + 1) + chunks.length) -
      i32 (n.smLog.lastIdx + 1)).toNat) n (i32 (n.smLog.lastIdx + 1))
    split
    · exact h
    · split
      case h_1 m heq =>
        rw [heq] at hloop
        exact (h.stays hloop).checkPendingLogRep
      case h_2 m heq =>
        rw [heq] at hloop
        exact h.stays hloop
  | oneShot chunks =>
    simp only [Node.step, testcaseOneShotBigLog]
    split
    · exact h
    · exact h.stays (requestLoop_stays _ n 0)
  | work i =>
    simp only [Node.step]
    split
    · next work _ =>
      have hpop : Kept k { n with leaderWq := n.leaderWq.eraseIdx i } :=
        h.stays ⟨⟨rfl, rfl, rfl, rfl, rfl⟩, rfl, rfl⟩
      have hprepare := hpop.stays (doPrepareLogReplication_stays _ work)
      unfold prepareLogReplication
      dsimp only
      split_ifs
      · exact hprepare
      · exact hprepare.checkPendingLogRepForTarget work.targetId
      · exact hprepare
    · exact h
  | user rxbuf => exact h.stays ⟨⟨rfl, rfl, rfl, rfl, rfl⟩, rfl, rfl⟩
  | leConfig maxEntriesPerPkt =>
    simp only [Node.step, leConfigWrite]
    split
    · exact h.stays ⟨⟨rfl, rfl, rfl, rfl, rfl⟩, rfl, rfl⟩
    · exact h
  | pmStart =>
    simp only [Node.step, preparePmLoop]
    split
    · exact h
    · exact h.stays ⟨⟨rfl, rfl, rfl, rfl, rfl⟩, rfl, rfl⟩
  | pmStop => exact h.consensusStop.stays ⟨⟨rfl, rfl, rfl, rfl, rfl⟩, rfl, rfl⟩
  | pmHalt => exact h.stays ⟨⟨rfl, rfl, rfl, rfl, rfl⟩, rfl, rfl⟩
  | pmFail => exact h.stays ⟨⟨rfl, rfl, rfl, rfl, rfl⟩, rfl, rfl⟩
  | start => exact h.consensusStart
  | stop => exact h.consensusStop

theorem consensusInit_kept (c : Config) (u : Uninit) : Kept c.targets.length (consensusInit c u) where
  size := consensusInit_numOfTargets c u
  first _ := ⟨by simp [consensusInit], rfl⟩
  calls hleads := absurd rfl hleads
  idle hleads := absurd rfl hleads

/-- Only a candidate becomes leader. -/
theorem Act.leads_eq {e : Event} (h : Act n e m n') (hrole : n.priv.nstate ≠ .candidate) :
    n'.hist.leads = m.hist.leads := by
  cases h with
  | quiet h => rw [h.hist]
  | noteVote lid pkt =>
    obtain ⟨voters, heq, -⟩ := n.noteVote_eq lid pkt
    rw [heq]
  | lead lid pkt _ _ hvote => exact absurd hvote.2.1 hrole
  | leaderCommit =>
    obtain ⟨log, heq⟩ := m.updateCommitIdx_eq
    rw [heq]
  | _ => rfl

theorem step_leads_eq (n : Node) (e : Event) (hrole : n.priv.nstate ≠ .candidate) :
    (n.step e).hist.leads = n.hist.leads :=
  Run.preserved_of_moves (I := fun m => m.hist.leads = n.hist.leads)
    (fun _ _ h hm => (h.leads_eq hrole).trans hm) (step_acts n e) rfl

/-- **Requests end with the leadership.** Whatever has happened to a node since it became leader for the
first time, its retransmission lists are empty while it is not the leader, and so they are whenever it
becomes leader again and sets them up. What they hold is what calls make of empty lists that never set
up a list with something in it. That is as long as the arrays have a slot for every target. -/
theorem requests_end_with_leadership (c : Config) (u : Uninit) (hfew : c.targets.length ≤ clusterSize)
    (events : List Event) :
    let n := (consensusInit c u).run events
    n.hist.leads ≠ [] →
      (n.priv.nstate ≠ .leader → ∀ t < c.targets.length, n.leaderIdx.retransHead t = []) ∧
      (∀ e, (n.step e).hist.leads ≠ n.hist.leads →
        ∀ t < c.targets.length, n.leaderIdx.retransHead t = []) ∧
      (∃ calls : List (RetransListCall (Fin c.targets.length)),
        Run.Meets RetransLists.call RetransLists.SetsUpEmpty RetransLists.empty calls ∧
          n.HoldsLists (RetransLists.empty.run calls)) ∧
      ∀ lk, CmdLogMemory.TablesApart lk n := by
  intro n hleads
  have htargets := (run_numOfTargets c u events).trans_le hfew
  have hkept : Kept c.targets.length n :=
    Run.invariant_run Node.step (fun _ e h => h.step e) (consensusInit_kept c u) events
  refine ⟨hkept.idle hleads, fun e hlead => hkept.idle hleads fun hrole => ?_, hkept.calls hleads,
    fun lk => CmdLogMemory.tablesApart_of_few lk htargets⟩
  exact hlead (step_leads_eq n e (by simp [hrole]))

/-- The first node leads, is asked for an entry, and hears of a newer leader. -/
def leadsTwice : List Event := leading [sampleChunk 1] ++
  [.handle 0 (setLeOpcode .appendReply 1 2 0 (-1)), .handle 0 (setLeOpcode .alive 2 (-1) (-1) 0)]

theorem requests_end_with_leadership_leadsTwice :
    let n := (consensusInit (smallConfig 1 [2, 3]) zeroUninit).run leadsTwice
    n.hist.leads ≠ [] ∧ n.priv.nstate = .follower ∧ ∀ t < 2, n.leaderIdx.retransHead t = [] := by
  intro n
  have hleads : n.hist.leads ≠ [] := by decide
  have hrole : n.priv.nstate = .follower := by decide
  have hidle := (requests_end_with_leadership (smallConfig 1 [2, 3]) zeroUninit (by decide) leadsTwice
    hleads).1
  exact ⟨hleads, hrole, hidle (by rw [show _ = NodeState.follower from hrole]; decide)⟩

end Node

end XlaneLkm
