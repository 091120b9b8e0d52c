import XlaneLkm.Proof.AppendMsg
import XlaneLkm.Proof.CmdLogMemory
import XlaneLkm.Proof.IndexOrder

/-!
# The tables of a leader

`next_index` and `match_index` are overwritten from the parameters of APPEND_REPLY messages, checked
against `last_idx` from above only. Which replies, and which messages of the leader, keep both in range
and `match_index` from going back.
-/

namespace XlaneLkm

open MachineInt
open Run (Meets meets_iff)

namespace Node

variable {n n' m : Node} {t lid : Nat} {pkt : ConRecord}

/-! ### What leaves the tables alone -/

/-- The tables stay, and the log keeps its length once that is in order. -/
structure KeepsTables (n n' : Node) : Prop where
  nextIndex : n'.leaderIdx.nextIndex = n.leaderIdx.nextIndex
  matchIndex : n'.leaderIdx.matchIndex = n.leaderIdx.matchIndex
  targets : n'.sdev.targets = n.sdev.targets
  lastIdx : -1 ≤ n.smLog.lastIdx → n'.smLog.lastIdx = n.smLog.lastIdx

theorem KeepsTables.refl (n : Node) : KeepsTables n n := ⟨rfl, rfl, rfl, fun _ => rfl⟩

theorem KeepsTables.trans (hfirst : KeepsTables n m) (hsecond : KeepsTables m n') :
    KeepsTables n n' where
  nextIndex := hsecond.nextIndex.trans hfirst.nextIndex
  matchIndex := hsecond.matchIndex.trans hfirst.matchIndex
  targets := hsecond.targets.trans hfirst.targets
  lastIdx h := (hsecond.lastIdx ((hfirst.lastIdx h).symm ▸ h)).trans (hfirst.lastIdx h)

theorem KeepsTables.numOfTargets (h : KeepsTables n n') : n'.numOfTargets = n.numOfTargets :=
  congrArg List.length h.targets

theorem keepsTables_foldl {β : Type*} {f : Node → β → Node} (h : ∀ m b, KeepsTables m (f m b))
    (l : List β) (n : Node) : KeepsTables n (l.foldl f n) := by
  induction l generalizing n with
  | nil => exact .refl n
  | cons b l ih => exact (h n b).trans (ih (f n b))

theorem repairLast_keepsTables (n : Node) : KeepsTables n n.repairLast := by
  refine ⟨rfl, rfl, rfl, fun hlast => ?_⟩
  rw [repairLast, SmLog.getLastIdxSafe, if_neg (by omega)]

theorem getNextIdxForTarget_keepsTables (n : Node) (i : Nat) :
    KeepsTables n (n.getNextIdxForTarget i).1 := by
  simp only [getNextIdxForTarget]
  split
  · split
    · exact .refl n
    · exact ⟨rfl, rfl, rfl, fun _ => rfl⟩
  · exact .refl n

theorem scheduleLogRep_keepsTables (n : Node) (work : LogRepWork) :
    KeepsTables n (n.scheduleLogRep work) := by
  unfold scheduleLogRep
  split
  · exact .refl n
  split
  · exact .refl n
  · exact ⟨rfl, rfl, rfl, fun _ => rfl⟩

theorem checkPendingLogRepForTarget_keepsTables (n : Node) (i : Nat) :
    KeepsTables n (n.checkPendingLogRepForTarget i) := by
  unfold checkPendingLogRepForTarget
  split
  · exact .refl n
  split
  · exact .refl n
  refine (getNextIdxForTarget_keepsTables n i).trans ?_
  dsimp only
  split
  · exact .refl _
  split
  · exact .refl _
  · exact scheduleLogRep_keepsTables _ _

theorem doPrepareLogReplicationMulticast_keepsTables (n : Node) :
    KeepsTables n n.doPrepareLogReplicationMulticast.1 := by
  unfold doPrepareLogReplicationMulticast
  split
  · exact .refl n
  rcases n.setupAppendMulticastMsg_cases with ⟨ret, hmsg⟩ | ⟨num, ret, pkt, hmsg, -⟩
  · rw [hmsg]
    exact repairLast_keepsTables n
  · rw [hmsg]
    have h := repairLast_keepsTables n
    exact ⟨h.nextIndex, h.matchIndex, h.targets, h.lastIdx⟩

theorem multicastLoop_keepsTables (k : Nat) (n : Node) : KeepsTables n (n.multicastLoop k) := by
  induction k generalizing n with
  | zero => exact .refl n
  | succ k ih =>
    unfold multicastLoop
    dsimp only
    split
    · exact (doPrepareLogReplicationMulticast_keepsTables n).trans (ih _)
    · exact doPrepareLogReplicationMulticast_keepsTables n

theorem checkPendingLogRep_keepsTables (n : Node) : KeepsTables n n.checkPendingLogRep := by
  unfold checkPendingLogRep
  split
  · exact .refl n
  split
  · exact .refl n
  split
  · unfold checkPendingLogRepForMulticast
    split_ifs
    · exact .refl n
    · exact multicastLoop_keepsTables _ n
  · exact keepsTables_foldl checkPendingLogRepForTarget_keepsTables _ n

theorem queueRetransmission_keepsTables (n : Node) (lid : Nat) (idx : Int) :
    KeepsTables n (n.queueRetransmission lid idx) := by
  have h := queueRetransmission_quiet n lid idx
  refine ⟨h.nextIndex, h.matchIndex, ?_, fun _ => congrArg SmLog.lastIdx h.smLog⟩
  rw [queueRetransmission]
  split
  · rfl
  · rfl

theorem updateCommitIdx_keepsTables (n : Node) : KeepsTables n n.updateCommitIdx := by
  rcases n.updateCommitIdx_cases with heq | ⟨N, heq, -⟩
  · rw [heq]
    exact .refl n
  · obtain ⟨entries, hcommit, -⟩ := n.smLog.leaderCommit_eq N
    rw [heq, hcommit]
    exact ⟨rfl, rfl, rfl, fun _ => rfl⟩

/-! ### What writes to the tables -/

/-- A reply that `leader_process_pkt` takes as success. -/
def takesSuccess (n : Node) (pkt : ConRecord) : Prop :=
  asI32 pkt.param2 = 1 ∧ asI32 pkt.param4 ≤ n.smLog.lastIdx

/-- A reply that `leader_process_pkt` takes as failure. -/
def takesFailure (n : Node) (pkt : ConRecord) : Prop :=
  asI32 pkt.param2 = 0 ∧ asI32 pkt.param3 ≤ n.smLog.lastIdx

instance takesSuccess.decidable (n : Node) (pkt : ConRecord) : Decidable (n.takesSuccess pkt) :=
  inferInstanceAs (Decidable (_ ∧ _))

instance takesFailure.decidable (n : Node) (pkt : ConRecord) : Decidable (n.takesFailure pkt) :=
  inferInstanceAs (Decidable (_ ∧ _))

/-- `match_index` of the target is overwritten. -/
def setMatchIndex (n : Node) (lid : Nat) (idx : Int) : Node :=
  { n with leaderIdx.matchIndex := Function.update n.leaderIdx.matchIndex lid idx }

/-- `next_index` of the target is overwritten. -/
def setNextIndex (n : Node) (lid : Nat) (idx : Int) : Node :=
  { n with leaderIdx.nextIndex := Function.update n.leaderIdx.nextIndex lid idx }

theorem leaderProcessAppendReply_success (lid : Nat) (h : n.takesSuccess pkt) :
    KeepsTables (n.setMatchIndex lid (asI32 pkt.param4)) (n.leaderProcessAppendReply lid pkt) := by
  have heq : n.leaderProcessAppendReply lid pkt =
      (n.setMatchIndex lid (asI32 pkt.param4)).updateCommitIdx :=
    (if_pos h.1).trans (if_neg (not_lt.mpr h.2))
  rw [heq]
  exact updateCommitIdx_keepsTables _

theorem leaderProcessAppendReply_failure (lid : Nat) (h : n.takesFailure pkt) :
    n.leaderProcessAppendReply lid pkt = n.setNextIndex lid (i32 (asI32 pkt.param3 + 1)) := by
  obtain ⟨hzero, hle⟩ := h
  have hone : ¬asI32 pkt.param2 = 1 := by omega
  have htwo : ¬asI32 pkt.param2 = 2 := by omega
  simp only [leaderProcessAppendReply, if_neg hone, if_neg htwo, if_pos hzero,
    if_neg (not_lt.mpr hle), setNextIndex]

theorem leaderProcessAppendReply_other (lid : Nat) (hsuccess : ¬n.takesSuccess pkt)
    (hfailure : ¬n.takesFailure pkt) : KeepsTables n (n.leaderProcessAppendReply lid pkt) := by
  unfold leaderProcessAppendReply
  dsimp only
  split
  case isTrue hone =>
    rw [if_pos (not_le.mp fun hle => hsuccess ⟨hone, hle⟩)]
    exact .refl n
  split
  · split
    · exact .refl n
    split
    · exact .refl n
    · exact (queueRetransmission_keepsTables n lid _).trans (checkPendingLogRep_keepsTables _)
  split
  case isTrue hzero =>
    rw [if_pos (not_le.mp fun hle => hfailure ⟨hzero, hle⟩)]
    exact .refl n
  · exact .refl n

/-- The message to the target takes entries off its index. -/
def advances (n : Node) (nextIndex : Int) (retrans : Bool) : Prop :=
  retrans = false ∧ nextIndex ≠ -2 ∧ nextIndex ≠ -1 ∧
    0 ≤ n.smLog.getPrevLogTerm n.priv.term (nextIndex - 1) ∧ nextIndex ≤ n.smLog.lastIdx ∧
    0 < (n.entriesToSend nextIndex).1

theorem appendMsgAt_of_advances {nextIndex : Int} {retrans : Bool}
    (h : n.advances nextIndex retrans) : (n.appendMsgAt t nextIndex retrans).1 =
      n.setNextIndex t (i32 (n.leaderIdx.nextIndex t + (n.entriesToSend nextIndex).1)) := by
  obtain ⟨rfl, htwo, hone, hprev, hlast, hpos⟩ := h
  simp only [appendMsgAt, htwo, and_false, if_false, hone, if_neg (not_lt.mpr hprev),
    if_neg (not_lt.mpr hlast), if_neg (not_le.mpr hpos), Bool.false_eq_true]
  split
  · rfl
  · rfl

theorem appendMsgAt_of_not_advances {nextIndex : Int} {retrans : Bool}
    (h : ¬n.advances nextIndex retrans) : (n.appendMsgAt t nextIndex retrans).1 = n := by
  simp only [appendMsgAt]
  split
  · rfl
  case isFalse htwo =>
  split
  · rfl
  case isFalse hone =>
  split
  · rfl
  case isFalse hprev =>
  split
  · rfl
  case isFalse hlast =>
  split
  · rfl
  case isFalse hpos =>
  cases retrans with
  | true =>
    split
    · rfl
    · rfl
  | false =>
    exact absurd ⟨rfl, fun heq => htwo ⟨rfl, heq⟩, hone, not_lt.mp hprev, not_lt.mp hlast,
      not_le.mp hpos⟩ h

/-! ### Ranges -/

/-- Both indices of every target are in the range of the log. -/
def InRange (n : Node) : Prop :=
  ∀ t < n.numOfTargets, 0 ≤ n.leaderIdx.nextIndex t ∧ n.leaderIdx.nextIndex t ≤ n.smLog.lastIdx + 1 ∧
    -1 ≤ n.leaderIdx.matchIndex t ∧ n.leaderIdx.matchIndex t ≤ n.smLog.lastIdx

/-- No match index goes back. -/
def MatchesGrow (n n' : Node) : Prop :=
  ∀ t < n.numOfTargets, n.leaderIdx.matchIndex t ≤ n'.leaderIdx.matchIndex t

instance InRange.decidable (n : Node) : Decidable n.InRange :=
  inferInstanceAs (Decidable (∀ t < n.numOfTargets, _ ∧ _))

instance MatchesGrow.decidable (n n' : Node) : Decidable (MatchesGrow n n') :=
  inferInstanceAs (Decidable (∀ t < n.numOfTargets, _ ≤ _))

theorem InRange.le_lastIdx (h : n.InRange) (ht : t < n.numOfTargets) : -1 ≤ n.smLog.lastIdx := by
  have := h t ht
  omega

theorem KeepsTables.inRange (h : KeepsTables n n') (hn : n.InRange) : n'.InRange := by
  intro t ht
  rw [h.numOfTargets] at ht
  rw [h.nextIndex, h.matchIndex, h.lastIdx (hn.le_lastIdx ht)]
  exact hn t ht

theorem KeepsTables.inRange_iff (h : KeepsTables n n') (hlast : -1 ≤ n.smLog.lastIdx) :
    n'.InRange ↔ n.InRange := by
  rw [InRange, InRange, h.numOfTargets, h.nextIndex, h.matchIndex, h.lastIdx hlast]

theorem KeepsTables.matchesGrow (h : KeepsTables n n') : MatchesGrow n n' := fun t _ =>
  (congrFun h.matchIndex t).ge

theorem inRange_outside (h : n.InRange) (hlid : n.numOfTargets ≤ lid) (idx : Int) :
    (n.setMatchIndex lid idx).InRange ∧ (n.setNextIndex lid idx).InRange := by
  constructor
  all_goals
    intro t ht
    have hne : t ≠ lid := (lt_of_lt_of_le ht hlid).ne
    simpa only [setMatchIndex, setNextIndex, Function.update_of_ne hne] using h t ht

theorem inRange_setMatchIndex (h : n.InRange) (hlid : lid < n.numOfTargets) (idx : Int) :
    (n.setMatchIndex lid idx).InRange ↔ -1 ≤ idx ∧ idx ≤ n.smLog.lastIdx := by
  constructor
  · intro hset
    have hidx := hset lid hlid
    simp only [setMatchIndex, Function.update_self] at hidx
    exact hidx.2.2
  · intro hidx t ht
    obtain ⟨hnext, hhigh, hmatch⟩ := h t ht
    refine ⟨hnext, hhigh, ?_⟩
    by_cases heq : t = lid
    · subst heq
      simpa only [setMatchIndex, Function.update_self] using hidx
    · simpa only [setMatchIndex, Function.update_of_ne heq] using hmatch

theorem inRange_setNextIndex (h : n.InRange) (hlid : lid < n.numOfTargets) (idx : Int) :
    (n.setNextIndex lid idx).InRange ↔ 0 ≤ idx ∧ idx ≤ n.smLog.lastIdx + 1 := by
  constructor
  · intro hset
    have hidx := hset lid hlid
    simp only [setNextIndex, Function.update_self] at hidx
    exact ⟨hidx.1, hidx.2.1⟩
  · intro hidx t ht
    obtain ⟨hnext, hhigh, hmatch⟩ := h t ht
    by_cases heq : t = lid
    · subst heq
      simpa only [setNextIndex, Function.update_self] using ⟨hidx.1, hidx.2, hmatch⟩
    · simpa only [setNextIndex, Function.update_of_ne heq] using ⟨hnext, hhigh, hmatch⟩

/-! ### Events -/

/-- What moves the tables of a leader: an APPEND_REPLY, or a message to a target. -/
inductive BookEvent where
  | reply (lid : Nat) (rclusterId : Int) (pkt : ConRecord) (hop : pkt.opcodeVal = some .appendReply)
  | setupAppendMsg (targetId : Nat) (nextIndex : Int) (retrans : Bool)

def bookStep (n : Node) : BookEvent → Node
  | .reply lid rclusterId pkt _ => n.leaderProcessPkt lid rclusterId pkt
  | .setupAppendMsg targetId nextIndex retrans => (n.setupAppendMsg targetId nextIndex retrans).1

/-- The tables are in range after the event, and no match index has gone back. -/
def keepsBooks (n : Node) (e : BookEvent) : Prop :=
  (n.bookStep e).InRange ∧ MatchesGrow n (n.bookStep e)

/-- The next message to the target ends with the entry of index `INT_MAX`. -/
def exhaustsLog (n : Node) (targetId : Nat) : Prop :=
  n.smLog.lastIdx = 2147483647 ∧ 0 < n.leaderIdx.nextIndex targetId ∧
    n.leaderIdx.nextIndex targetId ≤ n.smLog.lastIdx ∧
    n.smLog.lastIdx - n.leaderIdx.nextIndex targetId < n.priv.maxEntriesPerPkt ∧
    0 ≤ n.smLog.getPrevLogTerm n.priv.term (n.leaderIdx.nextIndex targetId - 1)

instance exhaustsLog.decidable (n : Node) (targetId : Nat) : Decidable (n.exhaustsLog targetId) :=
  inferInstanceAs (Decidable (_ ∧ _))

/-- A success does not report less than what is on record, a failure reports an index a log can end
with, and `next_index` does not leave the range of `int32_t`. -/
def booksInOrder (n : Node) : BookEvent → Prop
  | .reply lid _ pkt _ => lid < n.numOfTargets →
      (n.takesSuccess pkt → n.leaderIdx.matchIndex lid ≤ asI32 pkt.param4) ∧
      (n.takesFailure pkt → -1 ≤ asI32 pkt.param3 ∧ asI32 pkt.param3 < 2147483647)
  | .setupAppendMsg targetId _ retrans =>
      targetId < n.numOfTargets → retrans = false → ¬n.exhaustsLog targetId

theorem matchesGrow_setMatchIndex (hlid : lid < n.numOfTargets) (idx : Int) :
    MatchesGrow n (n.setMatchIndex lid idx) ↔ n.leaderIdx.matchIndex lid ≤ idx := by
  constructor
  · intro hgrow
    simpa only [setMatchIndex, Function.update_self] using hgrow lid hlid
  · intro hle t _
    by_cases heq : t = lid
    · subst heq
      simpa only [setMatchIndex, Function.update_self] using hle
    · simp only [setMatchIndex, Function.update_of_ne heq, le_refl]

theorem MatchesGrow.congr (hkeeps : KeepsTables n' m) : MatchesGrow n m ↔ MatchesGrow n n' := by
  rw [MatchesGrow, MatchesGrow, hkeeps.matchIndex]

instance keepsBooks.decidable (n : Node) (e : BookEvent) : Decidable (n.keepsBooks e) :=
  inferInstanceAs (Decidable (_ ∧ _))

instance booksInOrder.decidable (n : Node) : (e : BookEvent) → Decidable (n.booksInOrder e)
  | .reply lid _ _ _ => inferInstanceAs (Decidable (lid < n.numOfTargets → _ ∧ _))
  | .setupAppendMsg targetId _ _ => inferInstanceAs (Decidable (targetId < n.numOfTargets → _ → ¬_))

/-! ### Replies -/

theorem reply_outside (h : n.InRange) (hlid : n.numOfTargets ≤ lid) (pkt : ConRecord) :
    (n.leaderProcessAppendReply lid pkt).InRange ∧
      MatchesGrow n (n.leaderProcessAppendReply lid pkt) := by
  by_cases hsuccess : n.takesSuccess pkt
  · have hkeeps := leaderProcessAppendReply_success lid hsuccess
    refine ⟨hkeeps.inRange (inRange_outside h hlid _).1, (MatchesGrow.congr hkeeps).mpr fun t ht => ?_⟩
    have hne : t ≠ lid := (lt_of_lt_of_le ht hlid).ne
    simp only [setMatchIndex, Function.update_of_ne hne, le_refl]
  by_cases hfailure : n.takesFailure pkt
  · rw [leaderProcessAppendReply_failure lid hfailure]
    exact ⟨(inRange_outside h hlid _).2, fun _ _ => le_refl _⟩
  · have hkeeps := leaderProcessAppendReply_other lid hsuccess hfailure
    exact ⟨hkeeps.inRange h, hkeeps.matchesGrow⟩

theorem reply_inside (h : n.InRange) (hlid : lid < n.numOfTargets) (pkt : ConRecord) :
    ((n.leaderProcessAppendReply lid pkt).InRange ∧
        MatchesGrow n (n.leaderProcessAppendReply lid pkt)) ↔
      (n.takesSuccess pkt → n.leaderIdx.matchIndex lid ≤ asI32 pkt.param4) ∧
      (n.takesFailure pkt → -1 ≤ asI32 pkt.param3 ∧ asI32 pkt.param3 < 2147483647) := by
  have hlast := h.le_lastIdx hlid
  by_cases hsuccess : n.takesSuccess pkt
  · have hfailure : ¬n.takesFailure pkt := fun hfailure => by
      have hone := hsuccess.1
      have hzero := hfailure.1
      omega
    have hkeeps := leaderProcessAppendReply_success lid hsuccess
    have hmatch := h lid hlid
    have hle := hsuccess.2
    rw [hkeeps.inRange_iff hlast, inRange_setMatchIndex h hlid, MatchesGrow.congr hkeeps,
      matchesGrow_setMatchIndex hlid]
    constructor
    · exact fun ⟨_, hgrow⟩ => ⟨fun _ => hgrow, fun hfails => absurd hfails hfailure⟩
    · exact fun ⟨hgrow, _⟩ => ⟨⟨hmatch.2.2.1.trans (hgrow hsuccess), hle⟩, hgrow hsuccess⟩
  by_cases hfailure : n.takesFailure pkt
  · have hle := hfailure.2
    have hparam := asI32_le pkt.param3
    have hparam' := le_asI32 pkt.param3
    have hnext : (0 ≤ i32 (asI32 pkt.param3 + 1) ∧
        i32 (asI32 pkt.param3 + 1) ≤ n.smLog.lastIdx + 1) ↔
        -1 ≤ asI32 pkt.param3 ∧ asI32 pkt.param3 < 2147483647 := by
      obtain ⟨_, _, k, hk⟩ := i32_spec (asI32 pkt.param3 + 1)
      omega
    rw [leaderProcessAppendReply_failure lid hfailure, inRange_setNextIndex h hlid, hnext]
    constructor
    · exact fun ⟨hrange, _⟩ => ⟨fun hsucceeds => absurd hsucceeds hsuccess, fun _ => hrange⟩
    · exact fun ⟨_, hrange⟩ => ⟨hrange hfailure, fun _ _ => le_refl _⟩
  · have hkeeps := leaderProcessAppendReply_other lid hsuccess hfailure
    exact iff_of_true ⟨hkeeps.inRange h, hkeeps.matchesGrow⟩
      ⟨fun hsucceeds => absurd hsucceeds hsuccess, fun hfails => absurd hfails hfailure⟩

/-! ### Messages to a target -/

/-- A message leaves the tables, or takes its entries off the index of its target. -/
theorem setupAppendMsg_cases (n : Node) (t : Nat) (nextIndex : Int) (retrans : Bool) :
    KeepsTables n (n.setupAppendMsg t nextIndex retrans).1 ∨
      ∃ idx, KeepsTables (n.setNextIndex t idx) (n.setupAppendMsg t nextIndex retrans).1 := by
  have hrepair := repairLast_keepsTables n
  by_cases hadvances : n.repairLast.advances
      (if retrans then nextIndex else n.repairLast.getNextIdx t) retrans
  · right
    have heq : (n.setupAppendMsg t nextIndex retrans).1 = _ := appendMsgAt_of_advances hadvances
    rw [heq]
    exact ⟨_, rfl, rfl, rfl, hrepair.lastIdx⟩
  · left
    have heq : (n.setupAppendMsg t nextIndex retrans).1 = _ := appendMsgAt_of_not_advances hadvances
    rw [heq]
    exact hrepair

theorem setup_outside (h : n.InRange) (ht : n.numOfTargets ≤ t) (nextIndex : Int) (retrans : Bool) :
    (n.setupAppendMsg t nextIndex retrans).1.InRange ∧
      MatchesGrow n (n.setupAppendMsg t nextIndex retrans).1 := by
  rcases n.setupAppendMsg_cases t nextIndex retrans with hkeeps | ⟨idx, hkeeps⟩
  · exact ⟨hkeeps.inRange h, hkeeps.matchesGrow⟩
  · exact ⟨hkeeps.inRange (inRange_outside h ht idx).2,
      (MatchesGrow.congr hkeeps).mpr fun _ _ => le_refl _⟩

theorem entriesToSend_cases (n : Node) (nextIndex : Int) :
    (n.entriesToSend nextIndex).1 = n.priv.maxEntriesPerPkt ∧
        n.priv.maxEntriesPerPkt < i32 (n.smLog.lastIdx - nextIndex + 1) ∨
      (n.entriesToSend nextIndex).1 = i32 (n.smLog.lastIdx - nextIndex + 1) ∧
        i32 (n.smLog.lastIdx - nextIndex + 1) ≤ n.priv.maxEntriesPerPkt := by
  simp only [entriesToSend]
  split
  case isTrue hmore => exact .inl ⟨rfl, hmore⟩
  case isFalse hall => exact .inr ⟨rfl, not_lt.mp hall⟩

/-- The optimistic update stays in range, except for the last index there is. -/
theorem setup_inside (h : n.InRange) (hint : n.smLog.lastIdx ≤ 2147483647) (ht : t < n.numOfTargets)
    (nextIndex : Int) (retrans : Bool) :
    ((n.setupAppendMsg t nextIndex retrans).1.InRange ∧
        MatchesGrow n (n.setupAppendMsg t nextIndex retrans).1) ↔
      (retrans = false → ¬n.exhaustsLog t) := by
  have hlast := h.le_lastIdx ht
  obtain ⟨hlow, hhigh, -⟩ := h t ht
  have hentries := n.entriesToSend_cases (n.leaderIdx.nextIndex t)
  obtain ⟨_, _, k, hk⟩ := i32_spec (n.smLog.lastIdx - n.leaderIdx.nextIndex t + 1)
  rw [setupAppendMsg, repairLast_of_le hlast]
  cases retrans with
  | true =>
    have hstays : ¬n.advances nextIndex true := fun hadvances => absurd hadvances.1 (by decide)
    rw [if_pos rfl, appendMsgAt_of_not_advances hstays]
    exact iff_of_true ⟨h, fun _ _ => le_refl _⟩ fun hretrans => by cases hretrans
  | false =>
    rw [if_neg Bool.false_ne_true, getNextIdx_eq ht.le]
    by_cases hmore : n.leaderIdx.nextIndex t > n.smLog.lastIdx
    · have hstays : ¬n.advances (-2) false := fun hadvances => hadvances.2.1 rfl
      rw [if_pos hmore, appendMsgAt_of_not_advances hstays]
      exact iff_of_true ⟨h, fun _ _ => le_refl _⟩ fun _ hend => absurd hend.2.2.1 (not_le.mpr hmore)
    rw [if_neg hmore]
    by_cases hadvances : n.advances (n.leaderIdx.nextIndex t) false
    · obtain ⟨_, _, j, hj⟩ := i32_spec
        (n.leaderIdx.nextIndex t + (n.entriesToSend (n.leaderIdx.nextIndex t)).1)
      rw [appendMsgAt_of_advances hadvances, inRange_setNextIndex h ht]
      obtain ⟨-, -, -, hprev, -, hpos⟩ := hadvances
      constructor
      · rintro ⟨hrange, -⟩ - ⟨hend, hidx, -, hfits, -⟩
        omega
      · intro hkeeps
        have hfits : ¬(n.smLog.lastIdx = 2147483647 ∧ 0 < n.leaderIdx.nextIndex t ∧
            n.smLog.lastIdx - n.leaderIdx.nextIndex t < n.priv.maxEntriesPerPkt) := by
          rintro ⟨hend, hidx, hfits⟩
          exact hkeeps rfl ⟨hend, hidx, not_lt.mp hmore, hfits, hprev⟩
        exact ⟨by omega, fun _ _ => le_refl _⟩
    · rw [appendMsgAt_of_not_advances hadvances]
      refine iff_of_true ⟨h, fun _ _ => le_refl _⟩ ?_
      rintro - ⟨hend, hidx, hle, hfits, hprev⟩
      exact hadvances ⟨rfl, by omega, by omega, hprev, hle, by omega⟩

/-! ### Runs -/

theorem bookStep_reply (n : Node) (lid : Nat) (rclusterId : Int) (pkt : ConRecord)
    (hop : pkt.opcodeVal = some .appendReply) :
    n.bookStep (.reply lid rclusterId pkt hop) = n.leaderProcessAppendReply lid pkt := by
  simp only [bookStep, leaderProcessPkt, hop]

/-- The invariant: the ranges, with `last_idx` an `int32_t`. -/
structure Books (n : Node) : Prop where
  inRange : n.InRange
  lastIdx_le : n.numOfTargets ≠ 0 → n.smLog.lastIdx ≤ 2147483647

theorem Books.step_iff (h : n.Books) (e : BookEvent) :
    n.keepsBooks e ↔ n.booksInOrder e := by
  cases e with
  | reply lid rclusterId pkt hop =>
    rw [keepsBooks, bookStep_reply, booksInOrder]
    by_cases hlid : lid < n.numOfTargets
    · rw [reply_inside h.inRange hlid pkt]
      exact ⟨fun hbooks _ => hbooks, fun hbooks => hbooks hlid⟩
    · exact iff_of_true (reply_outside h.inRange (not_lt.mp hlid) pkt) fun hin => absurd hin hlid
  | setupAppendMsg t nextIndex retrans =>
    rw [keepsBooks, booksInOrder]
    by_cases ht : t < n.numOfTargets
    · exact (setup_inside h.inRange (h.lastIdx_le (Nat.ne_zero_of_lt ht)) ht nextIndex retrans).trans
        ⟨fun hbooks _ => hbooks, fun hbooks => hbooks ht⟩
    · exact iff_of_true (setup_outside h.inRange (not_lt.mp ht) nextIndex retrans)
        fun hin => absurd hin ht

/-- The events move the tables only. -/
theorem bookStep_frame (n : Node) (e : BookEvent) :
    (n.bookStep e).numOfTargets = n.numOfTargets ∧
      (-1 ≤ n.smLog.lastIdx → (n.bookStep e).smLog.lastIdx = n.smLog.lastIdx) := by
  cases e with
  | reply lid rclusterId pkt hop =>
    rw [bookStep_reply]
    by_cases hsuccess : n.takesSuccess pkt
    · have hkeeps := leaderProcessAppendReply_success lid hsuccess
      exact ⟨hkeeps.numOfTargets, hkeeps.lastIdx⟩
    by_cases hfailure : n.takesFailure pkt
    · rw [leaderProcessAppendReply_failure lid hfailure]
      exact ⟨rfl, fun _ => rfl⟩
    · have hkeeps := leaderProcessAppendReply_other lid hsuccess hfailure
      exact ⟨hkeeps.numOfTargets, hkeeps.lastIdx⟩
  | setupAppendMsg t nextIndex retrans =>
    rcases n.setupAppendMsg_cases t nextIndex retrans with hkeeps | ⟨idx, hkeeps⟩
    · exact ⟨hkeeps.numOfTargets, hkeeps.lastIdx⟩
    · exact ⟨hkeeps.numOfTargets, hkeeps.lastIdx⟩

theorem Books.step (h : n.Books) {e : BookEvent} (he : n.booksInOrder e) : (n.bookStep e).Books := by
  obtain ⟨hnum, hlast⟩ := n.bookStep_frame e
  refine ⟨((h.step_iff e).mpr he).1, fun hne => ?_⟩
  rw [hnum] at hne
  rw [hlast (h.inRange.le_lastIdx (Nat.pos_of_ne_zero hne))]
  exact h.lastIdx_le hne

/-- **The tables of a leader stay in range in the runs whose replies are in order**: no success
reports less than what is on record, and no failure an index below -1. The tables are apart as long as
they have a slot for every target. -/
theorem bookkeeping_iff (n : Node) (hrange : n.InRange) (hint : n.smLog.lastIdx ≤ 2147483647)
    (hfew : n.numOfTargets ≤ clusterSize) (events : List BookEvent) :
    (Meets bookStep keepsBooks n events ↔ Meets bookStep booksInOrder n events) ∧
      ∀ lk, CmdLogMemory.TablesApart lk (Run.run bookStep n events) := by
  have htargets : (Run.run bookStep n events).numOfTargets = n.numOfTargets :=
    Run.invariant_run bookStep (I := fun m => m.numOfTargets = n.numOfTargets)
      (fun m e hm => (m.bookStep_frame e).1.trans hm) rfl events
  refine ⟨?_, fun lk => CmdLogMemory.tablesApart_of_few lk (htargets.trans_le hfew)⟩
  exact meets_iff bookStep (I := Books) (fun _ e h => h.step_iff e) (fun _ _ h => h.step)
    ⟨hrange, fun _ => hint⟩ events

/-- Node 1 is elected and takes two requests. -/
def leadsWithTwo : List Event := joining ++
  [.handle 0 (setLeOpcode .vote 1 0 0 0), .handle 1 (setLeOpcode .vote 1 0 0 0),
    .request [sampleChunk 7, sampleChunk 8]]

/-- Target 0 acknowledges both entries, target 1 asks for the first one again. -/
def inOrderReplies : List BookEvent :=
  [.setupAppendMsg 0 0 false, .reply 0 2 (setLeOpcode .appendReply 1 1 1 1) rfl,
    .reply 1 3 (setLeOpcode .appendReply 1 0 (-1) (-1)) rfl]

theorem bookkeeping_inOrder :
    Meets bookStep keepsBooks
      (run (consensusInit (smallConfig 1 [2, 3]) zeroUninit) leadsWithTwo) inOrderReplies :=
  (bookkeeping_iff (run (consensusInit (smallConfig 1 [2, 3]) zeroUninit) leadsWithTwo)
    (by decide +kernel) (by decide +kernel) (by decide +kernel) inOrderReplies).1.mpr
      (by decide +kernel)

/-- Two successes arrive in the wrong order; a failure reports an index below -1. -/
theorem replies_leave_range :
    ¬Meets bookStep keepsBooks
        (run (consensusInit (smallConfig 1 [2, 3]) zeroUninit) leadsWithTwo)
        [.reply 0 2 (setLeOpcode .appendReply 1 1 1 1) rfl,
          .reply 0 2 (setLeOpcode .appendReply 1 1 0 0) rfl] ∧
      ¬Meets bookStep keepsBooks
        (run (consensusInit (smallConfig 1 [2, 3]) zeroUninit) leadsWithTwo)
        [.reply 0 2 (setLeOpcode .appendReply 1 0 (-7) (-1)) rfl] := by
  constructor
  · decide +kernel
  · decide +kernel

end Node

end XlaneLkm
