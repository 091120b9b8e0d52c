import XlaneLkm.Proof.Replica
import Mathlib.Data.List.Induction

/-!
# Where the entries below `stable_idx` come from

A follower stores entries with missing predecessors too, above its `stable_idx`. The comment in
`_handle_append_rpc` wants such entries thrown away when the leader changes, but nothing does it: a
later append of the new leader that closes the gap makes them stable. They come from the accepted
leader only where no such entry is waiting whenever leader or term change.
-/

namespace XlaneLkm

open MachineInt

/-- The packet of a target, as the event of handling it. -/
def Event.packet (p : Nat × ConRecord) : Event := .handle p.1 p.2

/-- Among the packets is an APPEND of the given leader and term with this command for the index. -/
def Received (cid : Nat → Int) (packets : List (Nat × ConRecord)) (leaderId : Nat) (term : Int)
    (i : Int) (chunk : DataChunk) : Prop :=
  ∃ p ∈ packets, p.2.opcodeVal = some .append ∧ u32 (cid p.1) = leaderId ∧ asI32 p.2.param1 = term ∧
    ∃ j < p.2.numEntries.toNat, p.2.startIdx + j = i ∧ p.2.entries j = chunk

instance (cid : Nat → Int) (packets : List (Nat × ConRecord)) (leaderId : Nat) (term i : Int)
    (chunk : DataChunk) : Decidable (Received cid packets leaderId term i chunk) :=
  inferInstanceAs (Decidable (∃ p ∈ packets, _ ∧ _ ∧ _ ∧ ∃ j < _, _))

theorem Received.append {cid : Nat → Int} {packets : List (Nat × ConRecord)} {leaderId : Nat}
    {term i : Int} {chunk : DataChunk} (h : Received cid packets leaderId term i chunk)
    (more : List (Nat × ConRecord)) : Received cid (packets ++ more) leaderId term i chunk := by
  obtain ⟨p, hp, hcarries⟩ := h
  exact ⟨p, List.mem_append_left more hp, hcarries⟩

namespace SmLog

/-- No entry is waiting above `stable_idx`. -/
def NoUnstable (log : SmLog) : Prop :=
  ∀ k < (log.lastIdx - log.stableIdx).toNat, (log.entry (log.stableIdx + 1 + k)).valid = false

instance (log : SmLog) : Decidable log.NoUnstable :=
  inferInstanceAs (Decidable (∀ k < _, _))

theorem NoUnstable.eq_false {log : SmLog} (h : log.NoUnstable) {i : Int} (hlow : log.stableIdx < i)
    (hhigh : i ≤ log.lastIdx) : (log.entry i).valid = false := by
  have hk := h (i - log.stableIdx - 1).toNat (by omega)
  rwa [show log.stableIdx + 1 + ((i - log.stableIdx - 1).toNat : Int) = i by omega] at hk

/-- Every entry waiting above `stable_idx` satisfies `R`, with its index. -/
def Waiting (R : Int → DataChunk → Prop) (log : SmLog) : Prop :=
  ∀ i, log.stableIdx < i → i ≤ log.lastApplied + log.maxEntries → (log.entry i).valid = true →
    i ≤ log.lastIdx ∧ R i (log.entry i).dataChunk

/-- On the way from the log `start`, what became stable satisfied `R` and what is waiting does. -/
structure Traced (R : Int → DataChunk → Prop) (start log : SmLog) : Prop where
  replica : log.Replica
  size : log.maxEntries = start.maxEntries
  applied : start.lastApplied ≤ log.lastApplied
  waiting : log.Waiting R
  advanced : ∀ i, start.stableIdx < i → i ≤ log.stableIdx → R i (log.entry i).dataChunk

variable {R : Int → DataChunk → Prop} {start log : SmLog}

theorem Traced.store (h : Traced R start log) (hstart : log.stableIdx = start.stableIdx)
    {chunk : DataChunk} (term : Int) {idx : Int} (hstable : log.stableIdx < idx)
    (hle : idx ≤ 2147483647) (hring : idx ≤ log.lastApplied + log.maxEntries) (hR : R idx chunk) :
    Traced R start (log.store chunk term idx) := by
  refine ⟨h.replica.store chunk term hstable hle hring, h.size, h.applied, ?_, ?_⟩
  · intro i hlow hhigh hvalid
    have hsized := h.replica.refines.sized
    have hindexed := h.replica.indexed
    have := hindexed.le_stable
    have := h.replica.commit_le
    obtain ⟨-, happlied, hcommit, -, -, hlast⟩ := hindexed
    simp only [SmLog.store] at hlow hhigh
    by_cases hslot : log.slot i = log.slot idx
    · have hmax := hsized.2
      obtain rfl : i = idx :=
        hsized.eq_of_slot_eq (by omega) (by omega) (by omega) (by omega) ⟨by omega, by omega⟩ hslot
      rw [store_lastIdx, log.store_entry_self chunk term rfl]
      exact ⟨le_max_right _ _, hR⟩
    · rw [log.store_entry_of_ne chunk term hslot] at hvalid ⊢
      obtain ⟨hlast, hR⟩ := h.waiting i hlow hhigh hvalid
      rw [store_lastIdx]
      exact ⟨le_max_of_le_left hlast, hR⟩
  · intro i hlow hhigh
    have hhigh : i ≤ log.stableIdx := hhigh
    omega

theorem Traced.stabilise (h : Traced R start log) (hlast : log.stableIdx < log.lastIdx)
    (hvalid : (log.entry (log.stableIdx + 1)).valid = true) :
    Traced R start { log with stableIdx := log.stableIdx + 1 } := by
  refine ⟨h.replica.stabilise hlast hvalid, h.size, h.applied, ?_, ?_⟩
  · intro i hlow hhigh
    exact h.waiting i (lt_of_le_of_lt (Int.le_add_one le_rfl) hlow) hhigh
  · intro i hlow hhigh
    rcases (show i ≤ log.stableIdx + 1 from hhigh).lt_or_eq with hlt | rfl
    · exact h.advanced i hlow (by omega)
    · have := h.replica.last_le
      exact (h.waiting _ (by omega) (by omega) hvalid).2

theorem Traced.apply (h : Traced R start log) (hcommit : log.lastApplied < log.commitIdx) :
    Traced R start (log.applied (log.lastApplied + 1)) := by
  have hsame := fun i => (log.invalidate_sameCommands (log.lastApplied + 1) (log.slot i)).1
  have hsized := h.replica.refines.sized
  obtain ⟨hle, -, hcommitLast, -, -, hlast⟩ := h.replica.indexed
  refine ⟨h.replica.apply hcommit, h.size, h.applied.trans (Int.le_add_one le_rfl), ?_, ?_⟩
  · intro i hlow hhigh hvalid
    have := h.replica.commit_le
    simp only [SmLog.applied, invalidate] at hlow hhigh
    have hslot := log.slot_ne_of_applied_valid hvalid
    rw [log.applied_entry_of_ne hslot] at hvalid ⊢
    refine h.waiting i hlow ?_ hvalid
    by_contra hlt
    -- the index that enters the window takes the slot just freed
    refine hslot ?_
    have hi : i = log.lastApplied + 1 + log.maxEntries := by omega
    have := hsized.1
    have := hsized.2
    rw [hsized.slot_eq (by omega) (by omega), hsized.slot_eq (by omega) (by omega),
      show i.toNat = (log.lastApplied + 1).toNat + log.maxEntries.toNat by omega,
      Nat.add_mod_right]
  · intro i hlow hhigh
    change R i ((log.invalidate _).entries (log.slot i)).dataChunk
    rw [hsame]
    exact h.advanced i hlow hhigh

theorem Traced.setCommit (h : Traced R start log) {commitIdx : Int} (retransIdx : Int)
    (hnew : log.commitIdx ≤ commitIdx) (hstable : commitIdx ≤ log.stableIdx) :
    Traced R start { log with commitIdx := commitIdx, nextRetransReqIdx := retransIdx } :=
  ⟨h.replica.setCommit retransIdx hnew hstable, h.size, h.applied, h.waiting, h.advanced⟩

end SmLog

namespace Node

variable {s : Node} {e : Event} {n : Node} {log log' : SmLog} {lid : Nat} {pkt : ConRecord}

/-! ### Leader and term of a follower -/

/-- The packet makes the node take over its term without accepting its sender. -/
def catchesUp (n : Node) (lid : Nat) (pkt : ConRecord) : Prop :=
  n.takesNomination pkt ∧ n.sdev.clusterId < u32 (n.rclusterId lid) ∧
    u32 n.priv.term < pkt.param1.toNat

instance (n : Node) (lid : Nat) (pkt : ConRecord) : Decidable (n.catchesUp lid pkt) :=
  inferInstanceAs (Decidable (_ ∧ _ ∧ _))

/-- Leader and term after a follower has handled a packet. -/
inductive LeaderAfter (s : Node) (lid : Nat) (pkt : ConRecord) (leaderId : Nat) (term : Int) : Prop where
  | same (hleader : leaderId = s.priv.leaderId) (hterm : term = s.priv.term)
      (happend : s.takesAppend lid pkt → asI32 pkt.param1 = s.priv.term)
  | accepted (h : s.takesLeader lid pkt) (hleader : leaderId = u32 (s.rclusterId lid))
      (hterm : term = asI32 pkt.param1)
  | caughtUp (h : s.catchesUp lid pkt)

theorem handleAppendRpc_priv (n : Node) (pkt : ConRecord) (lid : Nat) (rcid : Int) :
    (n.handleAppendRpc pkt lid rcid).priv = n.priv := by
  simp only [handleAppendRpc]
  split
  · rfl
  · rfl
  · split <;> rfl
  · rfl

theorem acceptLeader_priv (n : Node) (lid : Nat) (cid term : Int) :
    (n.acceptLeader lid cid term).priv.nstate = .follower ∧
      (n.acceptLeader lid cid term).priv.leaderId = u32 cid ∧
      (n.acceptLeader lid cid term).priv.term = term := by
  rw [acceptLeader_eq]
  obtain ⟨idx, sent, heq⟩ := enterFollower_eq (n.accept lid cid term)
  rw [heq]
  exact ⟨rfl, rfl, rfl⟩

/-- An APPEND that is taken carries the term the follower is left with. -/
theorem LeaderAfter.of_append {leaderId : Nat} {term : Int} (h : LeaderAfter s lid pkt leaderId term)
    (happend : s.takesAppend lid pkt) : leaderId = u32 (s.rclusterId lid) ∧ term = asI32 pkt.param1 := by
  cases h with
  | same hleader hterm hequal =>
    exact ⟨hleader.trans happend.2.2.2.1, hterm.trans (hequal happend).symm⟩
  | accepted h hleader hterm => exact ⟨hleader, hterm⟩
  | caughtUp h =>
    have hop := happend.2.2.1.symm.trans h.1.2.2
    cases hop

theorem catchUpTerm_leaderAfter (lid : Nat) (hstate : s.priv.nstate = .follower)
    (hrun : s.priv.state = .running) (hop : pkt.opcodeVal = some .nomi) :
    (s.catchUpTerm pkt.param1.toNat (s.rclusterId lid)).priv.nstate = .follower ∧
      LeaderAfter s lid pkt (s.catchUpTerm pkt.param1.toNat (s.rclusterId lid)).priv.leaderId
        (s.catchUpTerm pkt.param1.toNat (s.rclusterId lid)).priv.term := by
  unfold catchUpTerm
  split
  case isTrue h => exact ⟨hstate, .caughtUp ⟨⟨hrun, .inl hstate, hop⟩, h⟩⟩
  case isFalse =>
    refine ⟨hstate, .same rfl rfl fun happend => ?_⟩
    have hop' := hop.symm.trans happend.2.2.1
    cases hop'

theorem acceptLeader_leaderAfter (h : s.takesLeader lid pkt) :
    (s.acceptLeader lid (s.rclusterId lid) (asI32 pkt.param1)).priv.nstate = .follower ∧
      LeaderAfter s lid pkt
        (s.acceptLeader lid (s.rclusterId lid) (asI32 pkt.param1)).priv.leaderId
        (s.acceptLeader lid (s.rclusterId lid) (asI32 pkt.param1)).priv.term := by
  obtain ⟨hfollower, hleader, hterm⟩ := s.acceptLeader_priv lid (s.rclusterId lid) (asI32 pkt.param1)
  exact ⟨hfollower, .accepted h hleader hterm⟩

theorem follower_leaderAfter (hstate : s.priv.nstate = .follower) (hrun : s.priv.state = .running) :
    (s.followerProcessPkt lid (s.rclusterId lid) pkt).priv.nstate = .follower ∧
      LeaderAfter s lid pkt (s.followerProcessPkt lid (s.rclusterId lid) pkt).priv.leaderId
        (s.followerProcessPkt lid (s.rclusterId lid) pkt).priv.term := by
  unfold followerProcessPkt
  dsimp only
  split
  case h_1 hop =>
    have hcatch := catchUpTerm_leaderAfter lid hstate hrun hop
    split
    case h_1 m hcheck =>
      have hm : s.catchUpTerm pkt.param1.toNat (s.rclusterId lid) = m := congrArg Prod.fst hcheck
      rw [hm] at hcatch
      exact hcatch
    case h_2 m hcheck =>
      have hm : s.catchUpTerm pkt.param1.toNat (s.rclusterId lid) = m := congrArg Prod.fst hcheck
      rw [hm] at hcatch
      exact hcatch
  case h_2 hop =>
    have hsame : s.takesAppend lid pkt → asI32 pkt.param1 = s.priv.term := fun happend => by
      have hop' := hop.symm.trans happend.2.2.1
      cases hop'
    split
    case isTrue hnew =>
      have htakes : s.takesLeader lid pkt := ⟨hrun, .inl ⟨hstate, hnew, .inl hop⟩⟩
      have haccepted := acceptLeader_leaderAfter htakes
      split
      · exact haccepted
      · exact haccepted
    case isFalse =>
      split
      · exact ⟨hstate, .same rfl rfl hsame⟩
      · exact ⟨hstate, .same rfl rfl hsame⟩
  case h_3 hop =>
    split
    case isTrue hsender =>
      exact ⟨hstate, .same rfl rfl fun happend => absurd happend.2.2.2.1 hsender⟩
    case isFalse hsender =>
    split
    case isTrue hnew =>
      rw [handleAppendRpc_priv]
      exact acceptLeader_leaderAfter ⟨hrun, .inl ⟨hstate, hnew, .inr ⟨hop, not_not.mp hsender⟩⟩⟩
    case isFalse hnew =>
    split
    case isTrue hterm =>
      change (s.handleAppendRpc pkt lid (s.rclusterId lid)).priv.nstate = .follower ∧ LeaderAfter s lid
        pkt (s.handleAppendRpc pkt lid (s.rclusterId lid)).priv.leaderId
        (s.handleAppendRpc pkt lid (s.rclusterId lid)).priv.term
      rw [handleAppendRpc_priv]
      exact ⟨hstate, .same rfl rfl fun _ => hterm⟩
    case isFalse hterm =>
      exact ⟨hstate, .same rfl rfl fun happend => by have := happend.2.2.2.2; omega⟩
  case h_4 _ _ hother =>
    exact ⟨hstate, .same rfl rfl fun happend => absurd happend.2.2.1 hother⟩

theorem step_leaderAfter (hstate : s.priv.nstate = .follower) (hlid : lid < s.numOfTargets) :
    (s.step (.handle lid pkt)).priv.nstate = .follower ∧
      LeaderAfter s lid pkt (s.step (.handle lid pkt)).priv.leaderId
        (s.step (.handle lid pkt)).priv.term := by
  simp only [step, if_pos hlid, consensusPostPayload, noteVote_priv]
  split
  case isTrue hstopped =>
    rw [noteVote_priv]
    exact ⟨hstate, .same rfl rfl fun happend => absurd happend.1 hstopped⟩
  case isFalse hrun =>
    simp only [hstate]
    by_cases hvote : pkt.opcodeVal = some .vote
    · simp only [followerProcessPkt, hvote, noteVote_priv]
      refine ⟨hstate, .same rfl rfl fun happend => ?_⟩
      have hop := hvote.symm.trans happend.2.2.1
      cases hop
    · rw [noteVote_of_ne hvote]
      exact follower_leaderAfter hstate (not_not.mp hrun)

/-! ### Runs -/

/-- No entry is waiting when the packet makes the node change leader or term, and no APPEND is taken
that reaches a whole turn of the ring ahead of `last_applied`. -/
def dropsUnstable (n : Node) : Event → Prop
  | .handle lid pkt => (n.takesLeader lid pkt ∨ n.catchesUp lid pkt → n.smLog.NoUnstable) ∧
      (n.takesAppend lid pkt → n.smLog.acceptsAppend pkt →
        pkt.startIdx + pkt.numEntries.toNat - 1 ≤ n.smLog.lastApplied + n.smLog.maxEntries)
  | _ => True

instance (n : Node) : (e : Event) → Decidable (n.dropsUnstable e)
  | .handle .. => inferInstanceAs (Decidable ((_ ∨ _ → _) ∧ (_ → _ → _)))
  | .rx .. | .tick | .request .. | .oneShot .. | .work .. | .user .. | .leConfig .. | .pmStart
  | .pmStop | .pmHalt | .pmFail | .start | .stop => isTrue trivial

theorem traced_move {R : Int → DataChunk → Prop} (hunicast : s.sdev.multicastEnable = false)
    (hstate : s.priv.nstate = .follower) (hcond : s.dropsUnstable (.handle lid pkt))
    (hR : s.takesAppend lid pkt → ∀ j < pkt.numEntries.toNat, R (pkt.startIdx + j) (pkt.entries j))
    (h : LogMove s (.handle lid pkt) log log') (hlog : SmLog.Traced R s.smLog log) :
    SmLog.Traced R s.smLog log' := by
  cases h with
  | store lid' pkt' j he hlid h haccepts hj hle hstable hcommit =>
    cases he
    have hindexed := hlog.replica.indexed
    have hlow := stable_lt_of_accepts haccepts
      (hcommit ▸ hindexed.le_applied.trans hindexed.applied_le) j
    have hring := hcond.2 h haccepts
    have hsize := hlog.size
    have := hlog.applied
    exact hlog.store hstable _ (hstable ▸ hlow) hle (by omega) (hR h j hj)
  | stabilise lid pkt he hlid h hlast hvalid => exact hlog.stabilise hlast hvalid
  | apply h => exact hlog.apply h
  | request chunk idx h => rw [hstate] at h; cases h
  | leaderCommit lid pkt N he hlid h =>
    have hrole := hstate.symm.trans h.2.1
    cases hrole
  | repair => exact hlog.replica.indexed.repaired.symm ▸ hlog
  | multicast commitIdx h => rw [hunicast] at h; cases h
  | setCommit lid pkt idx he hlid h hnew hstable => exact hlog.setCommit _ hnew.le (hstable hunicast)
  | retransRequest idx => exact hlog.setCommit idx le_rfl hlog.replica.commit_le

/-- After some packets, every entry waiting has come from the accepted leader. -/
structure FollowerInv (start : Node) (packets : List (Nat × ConRecord)) (n : Node) : Prop where
  role : n.priv.nstate = .follower
  config : n.sdev.config = start.sdev.config
  replica : n.smLog.Replica
  waiting : n.smLog.Waiting (Received start.rclusterId packets n.priv.leaderId n.priv.term)

theorem Received.of_append {start : Node} {packets : List (Nat × ConRecord)} {leaderId : Nat}
    {term : Int} (hconfig : s.sdev.config = start.sdev.config)
    (hafter : LeaderAfter s lid pkt leaderId term) (happend : s.takesAppend lid pkt) {j : Nat}
    (hj : j < pkt.numEntries.toNat) :
    Received start.rclusterId (packets ++ [(lid, pkt)]) leaderId term (pkt.startIdx + j)
      (pkt.entries j) := by
  obtain ⟨hleader, hterm⟩ := hafter.of_append happend
  refine ⟨(lid, pkt), List.mem_append_right packets List.mem_cons_self, happend.2.2.1, ?_, hterm.symm,
    j, hj, rfl, rfl⟩
  rw [hleader, rclusterId_of_config hconfig]

/-- At the beginning of a step: nothing waits if leader or term change, and what waits has come from
the leader that stays. -/
theorem FollowerInv.waiting_after {start : Node} {packets : List (Nat × ConRecord)} {leaderId : Nat}
    {term : Int} (hn : FollowerInv start packets n) (hcond : n.dropsUnstable (.handle lid pkt))
    (hafter : LeaderAfter n lid pkt leaderId term) :
    n.smLog.Waiting (Received start.rclusterId (packets ++ [(lid, pkt)]) leaderId term) := by
  have hnone : n.smLog.NoUnstable →
      n.smLog.Waiting (Received start.rclusterId (packets ++ [(lid, pkt)]) leaderId term) := by
    intro hnone i hlow hhigh hvalid
    have hlast := (hn.waiting i hlow hhigh hvalid).1
    rw [hnone.eq_false hlow hlast] at hvalid
    cases hvalid
  cases hafter with
  | same hleader hterm =>
    intro i hlow hhigh hvalid
    obtain ⟨hlast, hreceived⟩ := hn.waiting i hlow hhigh hvalid
    rw [hleader, hterm]
    exact ⟨hlast, hreceived.append _⟩
  | accepted h => exact hnone (hcond.1 (.inl h))
  | caughtUp h => exact hnone (hcond.1 (.inr h))

theorem followerInv_step {start : Node} {packets : List (Nat × ConRecord)}
    (hunicast : start.sdev.multicastEnable = false) (hn : FollowerInv start packets n)
    (p : Nat × ConRecord) (hcond : n.dropsUnstable (.packet p)) :
    FollowerInv start (packets ++ [p]) (n.step (.packet p)) ∧
      ∀ i, n.smLog.stableIdx < i → i ≤ (n.step (.packet p)).smLog.stableIdx →
        Received start.rclusterId (packets ++ [p]) (n.step (.packet p)).priv.leaderId
          (n.step (.packet p)).priv.term i ((n.step (.packet p)).smLog.entry i).dataChunk := by
  obtain ⟨lid, pkt⟩ := p
  by_cases hlid : lid < n.numOfTargets
  · obtain ⟨hrole, hafter⟩ : (n.step (.handle lid pkt)).priv.nstate = .follower ∧ _ :=
      step_leaderAfter hn.role hlid
    have hmode : n.sdev.multicastEnable = false :=
      (congrArg (fun c => c.2.2) hn.config).trans hunicast
    have hstart : SmLog.Traced (Received start.rclusterId (packets ++ [(lid, pkt)])
        (n.step (.handle lid pkt)).priv.leaderId (n.step (.handle lid pkt)).priv.term)
        n.smLog n.smLog :=
      ⟨hn.replica, rfl, le_rfl, hn.waiting_after hcond hafter, fun i hlow hhigh => by omega⟩
    have hend := n.step_preserves_log (.handle lid pkt)
      (fun _ _ => traced_move hmode hn.role hcond
        fun happend j hj => Received.of_append hn.config hafter happend hj) hstart
    exact ⟨⟨hrole, (n.step_config _).trans hn.config, hend.replica, hend.waiting⟩, hend.advanced⟩
  · have hstep : n.step (.packet (lid, pkt)) = n := if_neg hlid
    rw [hstep]
    refine ⟨⟨hn.role, hn.config, hn.replica, ?_⟩, fun i hlow hhigh => by omega⟩
    intro i hlow hhigh hvalid
    obtain ⟨hlast, hreceived⟩ := hn.waiting i hlow hhigh hvalid
    exact ⟨hlast, hreceived.append _⟩

theorem followerInv_run {start : Node} (c : Config) (u : Uninit)
    (hstate : start.priv.nstate = .follower) (hunicast : start.sdev.multicastEnable = false)
    (hlog : start.smLog = initLog u c.maxEntries) (packets : List (Nat × ConRecord))
    (hmeets : Run.Meets step dropsUnstable start (packets.map Event.packet)) :
    FollowerInv start packets (run start (packets.map Event.packet)) := by
  induction packets using List.reverseRecOn with
  | nil =>
    refine ⟨hstate, rfl, hlog ▸ SmLog.replica_initLog c u, ?_⟩
    intro i _ _ hvalid
    have hinvalid : (start.smLog.entry i).valid = false := by rw [hlog]; rfl
    exact absurd (hinvalid.symm.trans hvalid) Bool.false_ne_true
  | append_singleton packets p ih =>
    rw [List.map_append] at hmeets ⊢
    obtain ⟨hbefore, hcond, -⟩ := (Run.meets_append step).mp hmeets
    rw [run, Run.run_append]
    exact (followerInv_step hunicast (ih hbefore) p hcond).1

/-- Whenever `stable_idx` of a follower advances, the commands it advances over have been received in
APPENDs of the accepted leader and term, in every run in which entries waiting above `stable_idx` meet
no change of leader or term and no turn of the ring. -/
theorem stable_from_leader (c : Config) (u : Uninit) (start : Node)
    (hstate : start.priv.nstate = .follower) (hunicast : start.sdev.multicastEnable = false)
    (hlog : start.smLog = initLog u c.maxEntries) (packets : List (Nat × ConRecord))
    (p : Nat × ConRecord)
    (hmeets : Run.Meets step dropsUnstable start ((packets ++ [p]).map Event.packet)) (i : Int)
    (hbefore : (run start (packets.map Event.packet)).smLog.stableIdx < i)
    (hafter : i ≤ (run start ((packets ++ [p]).map Event.packet)).smLog.stableIdx) :
    Received start.rclusterId (packets ++ [p])
      (run start ((packets ++ [p]).map Event.packet)).priv.leaderId
      (run start ((packets ++ [p]).map Event.packet)).priv.term i
      ((run start ((packets ++ [p]).map Event.packet)).smLog.entry i).dataChunk := by
  rw [List.map_append] at hmeets hafter ⊢
  obtain ⟨hfirst, hcond, -⟩ := (Run.meets_append step).mp hmeets
  have hn := followerInv_run c u hstate hunicast hlog packets hfirst
  rw [run, Run.run_append] at hafter ⊢
  exact (followerInv_step hunicast hn p hcond).2 i hbefore hafter

/-- Node 1 leads in term 1; its second entry arrives before its first. -/
def gap : List (Nat × ConRecord) :=
  [(0, setLeOpcode .alive 1 (-1) (-1) 0), (0, sampleAppend 1 1 0 1 (-1) (sampleChunk 8))]

def warmFollower : Node := run (consensusInit (smallConfig 3 [1, 2]) zeroUninit) joining

theorem stable_from_leader_gap :
    Received warmFollower.rclusterId (gap ++ [(0, sampleAppend 1 1 (-1) 1 (-1) (sampleChunk 7))])
      (run warmFollower ((gap ++ [(0, sampleAppend 1 1 (-1) 1 (-1) (sampleChunk 7))]).map
        Event.packet)).priv.leaderId
      (run warmFollower ((gap ++ [(0, sampleAppend 1 1 (-1) 1 (-1) (sampleChunk 7))]).map
        Event.packet)).priv.term 1
      ((run warmFollower ((gap ++ [(0, sampleAppend 1 1 (-1) 1 (-1) (sampleChunk 7))]).map
        Event.packet)).smLog.entry 1).dataChunk :=
  stable_from_leader (smallConfig 3 [1, 2]) zeroUninit warmFollower rfl rfl rfl gap _
    (by decide +kernel) 1 (by decide +kernel) (by decide +kernel)

/-- The gap is closed by node 2, the leader of term 2. -/
theorem stable_from_former_leader :
    ¬ ∀ (c : Config) (u : Uninit) (start : Node), start.priv.nstate = .follower →
      start.sdev.multicastEnable = false → start.smLog = initLog u c.maxEntries →
      ∀ (packets : List (Nat × ConRecord)) (p : Nat × ConRecord) (i : Int),
        (run start (packets.map Event.packet)).smLog.stableIdx < i →
        i ≤ (run start ((packets ++ [p]).map Event.packet)).smLog.stableIdx →
        Received start.rclusterId (packets ++ [p])
          (run start ((packets ++ [p]).map Event.packet)).priv.leaderId
          (run start ((packets ++ [p]).map Event.packet)).priv.term i
          ((run start ((packets ++ [p]).map Event.packet)).smLog.entry i).dataChunk := by
  intro h
  have hreceived := h (smallConfig 3 [1, 2]) zeroUninit warmFollower rfl rfl rfl
    (gap ++ [(1, setLeOpcode .alive 2 (-1) (-1) 0)])
    (1, sampleAppend 2 2 (-1) 2 (-1) (sampleChunk 9)) 1 (by decide +kernel) (by decide +kernel)
  revert hreceived
  decide +kernel

end Node

end XlaneLkm
