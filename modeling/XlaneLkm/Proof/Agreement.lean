import XlaneLkm.Proof.CommitOrder
import XlaneLkm.Proof.LeaderLog
import XlaneLkm.Proof.CmdLogMemory
import XlaneLkm.Proof.RingPuts
import XlaneLkm.Cluster

/-!
# Agreement under a single leader

As long as one node only has ever led, every other node holds and applies what stands in that node's
log, whatever the network does to its messages: an APPEND says which command is for which index, so
neither the order nor the number of its arrivals matters while the ring has not been filled once.
-/

namespace XlaneLkm

open MachineInt

namespace SmLog

/-- The log of another node beside that of the leader. -/
structure FollowerLog (leader log : SmLog) : Prop where
  indexed : log.Indexed
  sized : log.Sized
  size : log.maxEntries = leader.maxEntries
  commit_le : log.commitIdx ≤ log.stableIdx
  last_le : log.lastIdx ≤ leader.lastIdx
  commit_le_leader : log.commitIdx ≤ leader.commitIdx
  chunk : ∀ i, 0 ≤ i → i < log.maxEntries → (log.entry i).valid = true ∨ i ≤ log.stableIdx →
    i ≤ log.lastIdx ∧ (log.entry i).dataChunk = (leader.entry i).dataChunk
  applied : log.abstract.applied =
    (List.range (log.lastApplied + 1).toNat).map fun k : Nat => (leader.entry k).dataChunk

variable {leader log : SmLog}

theorem followerLog_initLog (c : Config) (u : Uninit) (hleader : leader.Indexed)
    (hsize : c.maxEntries = leader.maxEntries) : FollowerLog leader (initLog u c.maxEntries) where
  indexed := indexed_initLog u c.maxEntries
  sized := ⟨c.maxEntries_pos, c.maxEntries_le⟩
  size := hsize
  commit_le := le_rfl
  last_le := hleader.le_stable.trans hleader.stable_le
  commit_le_leader := hleader.le_applied.trans hleader.applied_le
  chunk i hlow _ h := by
    rcases h with hvalid | hstable
    · cases hvalid
    · simp only [initLog] at hstable
      omega
  applied := rfl

theorem FollowerLog.mono {leader' : SmLog} (h : FollowerLog leader log)
    (hextends : leader.Extends leader') (hsize : leader'.maxEntries = leader.maxEntries) :
    FollowerLog leader' log where
  indexed := h.indexed
  sized := h.sized
  size := h.size.trans hsize.symm
  commit_le := h.commit_le
  last_le := h.last_le.trans hextends.last
  commit_le_leader := h.commit_le_leader.trans hextends.commit
  chunk i hlow hhigh hheld := by
    obtain ⟨hlast, hchunk⟩ := h.chunk i hlow hhigh hheld
    exact ⟨hlast, hchunk.trans (hextends.chunk i hlow (hlast.trans h.last_le)).symm⟩
  applied := by
    rw [h.applied]
    refine List.map_congr_left fun k hk => (hextends.chunk k (Int.natCast_nonneg k) ?_).symm
    have := List.mem_range.mp hk
    have := h.indexed.applied_le
    have := h.indexed.commit_le
    have := h.last_le
    omega

theorem FollowerLog.store (h : FollowerLog leader log) (hroom : leader.lastIdx < leader.maxEntries)
    {chunk : DataChunk} (term : Int) {idx : Int} (hlow : 0 ≤ idx) (hstable : log.stableIdx < idx)
    (hlast : idx ≤ leader.lastIdx) (hchunk : chunk = (leader.entry idx).dataChunk) :
    FollowerLog leader (log.store chunk term idx) := by
  have hsize := h.size
  have hmax := h.sized.2
  refine ⟨h.indexed.store chunk term (by omega), h.sized, h.size, h.commit_le, ?_, h.commit_le_leader,
    ?_, h.applied⟩
  · rw [store_lastIdx]
    exact max_le h.last_le hlast
  · intro i hpos hhigh hheld
    have hhigh : i < log.maxEntries := hhigh
    by_cases hslot : log.slot i = log.slot idx
    · obtain rfl : i = idx :=
        h.sized.eq_of_slot_eq hpos hlow (by omega) (by omega) ⟨by omega, by omega⟩ hslot
      rw [store_lastIdx, log.store_entry_self chunk term rfl]
      exact ⟨le_max_right _ _, hchunk⟩
    · rw [log.store_entry_of_ne chunk term hslot] at hheld ⊢
      obtain ⟨hlast, hsame⟩ := h.chunk i hpos hhigh hheld
      rw [store_lastIdx]
      exact ⟨le_max_of_le_left hlast, hsame⟩

theorem FollowerLog.stabilise (h : FollowerLog leader log) (hlast : log.stableIdx < log.lastIdx)
    (hvalid : (log.entry (log.stableIdx + 1)).valid = true) :
    FollowerLog leader { log with stableIdx := log.stableIdx + 1 } where
  indexed := ⟨h.indexed.1, h.indexed.2, h.indexed.3, h.indexed.4.trans (Int.le_add_one le_rfl), hlast,
    h.indexed.6⟩
  sized := h.sized
  size := h.size
  commit_le := h.commit_le.trans (Int.le_add_one le_rfl)
  last_le := h.last_le
  commit_le_leader := h.commit_le_leader
  chunk i hlow hhigh hheld := by
    refine h.chunk i hlow hhigh ?_
    rcases hheld with hentry | hstable
    · exact .inl hentry
    · rcases (show i ≤ log.stableIdx + 1 from hstable).lt_or_eq with hlt | rfl
      · exact .inr (by omega)
      · exact .inl hvalid
  applied := h.applied

theorem FollowerLog.setCommit (h : FollowerLog leader log) {commitIdx : Int} (retransIdx : Int)
    (hnew : log.commitIdx ≤ commitIdx) (hstable : commitIdx ≤ log.stableIdx)
    (hleader : commitIdx ≤ leader.commitIdx) :
    FollowerLog leader { log with commitIdx := commitIdx, nextRetransReqIdx := retransIdx } where
  indexed :=
    ⟨h.indexed.1, h.indexed.2.trans hnew, hstable.trans h.indexed.5, h.indexed.4, h.indexed.5,
      h.indexed.6⟩
  sized := h.sized
  size := h.size
  commit_le := hstable
  last_le := h.last_le
  commit_le_leader := hleader
  chunk := h.chunk
  applied := h.applied

theorem FollowerLog.apply (h : FollowerLog leader log) (hroom : leader.lastIdx < leader.maxEntries)
    (hcommit : log.lastApplied < log.commitIdx) :
    FollowerLog leader (log.applied (log.lastApplied + 1)) := by
  obtain ⟨hle, happlied, hcommitLast, hstable, hstableLast, hlast⟩ := h.indexed
  have hsame := log.invalidate_sameCommands (log.lastApplied + 1)
  have hsize := h.size
  have := h.last_le
  have := h.commit_le
  refine ⟨⟨?_, hcommit, hcommitLast, hstable, hstableLast, hlast⟩, h.sized, h.size, h.commit_le,
    h.last_le, h.commit_le_leader, ?_, ?_⟩
  · exact hle.trans (Int.le_add_one le_rfl)
  · intro i hlow hhigh hheld
    have hbefore : (log.entry i).valid = true ∨ i ≤ log.stableIdx := by
      rcases hheld with hvalid | hheld
      · left
        rwa [log.applied_entry_of_ne (log.slot_ne_of_applied_valid hvalid)] at hvalid
      · exact .inr hheld
    obtain ⟨hlast, hchunk⟩ := h.chunk i hlow hhigh hbefore
    exact ⟨hlast, (hsame (log.slot i)).1.trans hchunk⟩
  · have hnext := (h.chunk (log.lastApplied + 1) (by omega) (by omega) (.inr (by omega))).2
    change log.abstract.applied ++ [(log.entry (log.lastApplied + 1)).dataChunk] = _
    rw [h.applied, hnext, show (log.applied (log.lastApplied + 1)).lastApplied + 1 =
      log.lastApplied + 1 + 1 from rfl, show (log.lastApplied + 1 + 1).toNat =
      (log.lastApplied + 1).toNat + 1 by omega, List.range_succ, List.map_append, List.map_cons,
      List.map_nil, show ((log.lastApplied + 1).toNat : Int) = log.lastApplied + 1 by omega]

end SmLog

namespace Node

variable {s : Node} {e : Event} {n n' : Node} {log log' leader : SmLog}

/-- A node that does not lead and gets true messages of the leader only. -/
theorem followerLog_move (hunicast : s.sdev.multicastEnable = false) (hrole : s.priv.nstate ≠ .leader)
    (hmsg : ∀ lid pkt, e = .handle lid pkt → pkt.TrueOf leader)
    (hroom : leader.lastIdx < leader.maxEntries) (h : LogMove s e log log')
    (hlog : SmLog.FollowerLog leader log) : SmLog.FollowerLog leader log' := by
  cases h with
  | store lid pkt j he hlid h haccepts hj hle hstable hcommit =>
    obtain ⟨hlow, hlast, hchunk⟩ := (hmsg lid pkt he).entries h.2.2.1 j hj
    have habove := stable_lt_of_accepts haccepts
      (hcommit ▸ hlog.indexed.le_applied.trans hlog.indexed.applied_le) j
    exact hlog.store hroom _ hlow (hstable ▸ habove) hlast hchunk
  | stabilise lid pkt he hlid h hlast hvalid => exact hlog.stabilise hlast hvalid
  | apply h => exact hlog.apply hroom h
  | request chunk idx h => exact absurd h hrole
  | leaderCommit lid pkt N he hlid h => exact absurd h.2.1 hrole
  | repair => exact hlog.indexed.repaired.symm ▸ hlog
  | multicast commitIdx h => rw [hunicast] at h; cases h
  | setCommit lid pkt idx he hlid h hnew hstable =>
    have hleader : idx ≤ leader.commitIdx := by
      rcases h.2.2 with ⟨hop, -, rfl⟩ | ⟨hop, -, -, rfl⟩
      · exact (hmsg lid pkt he).aliveCommit hop
      · exact (hmsg lid pkt he).appendCommit hop
    exact hlog.setCommit _ hnew.le (hstable hunicast) hleader
  | retransRequest idx =>
    exact hlog.setCommit idx le_rfl hlog.commit_le hlog.commit_le_leader

/-- What a node that has never led sends: no leader messages, and replies that do not claim more than
`stable_idx`. -/
def SentByFollower (n : Node) : Prop :=
  ∀ dest pkt, (dest, some pkt) ∈ n.sent → pkt.opcodeVal ≠ some .append ∧
    pkt.opcodeVal ≠ some .alive ∧
      (pkt.opcodeVal = some .appendReply → asI32 pkt.param4 ≤ n.smLog.stableIdx)

theorem sentByFollower_act (hunicast : n.sdev.multicastEnable = false) (hled : n.LedIfLeader)
    (hleads : n.hist.leads = []) (hlog : n.smLog.Indexed) (h : Act s e n n')
    (hstable : n.smLog.stableIdx ≤ n'.smLog.stableIdx) (hn : n.SentByFollower) :
    n'.SentByFollower := by
  have hflag : n.sdev.isLeader ≠ true := fun hflag => hled.2 hflag hleads
  have hold : ∀ dest pkt, (dest, some pkt) ∈ n.sent → pkt.opcodeVal ≠ some .append ∧
      pkt.opcodeVal ≠ some .alive ∧
        (pkt.opcodeVal = some .appendReply → asI32 pkt.param4 ≤ n'.smLog.stableIdx) :=
    fun dest pkt hmem => ⟨(hn dest pkt hmem).1, (hn dest pkt hmem).2.1,
      fun hop => ((hn dest pkt hmem).2.2 hop).trans hstable⟩
  intro dest pkt hmem
  rcases h.sent_cases hunicast with hsame | ⟨hsame, dest', record, hnew, hrecord⟩
  · exact hold dest pkt (hsame ▸ hmem)
  · rcases List.mem_cons.mp (hnew ▸ hmem) with heq | hmem
    · cases heq
      rcases hrecord with hemits | ⟨p1, p2, hvote⟩
      · cases hemits with
        | alive hleader => exact absurd hleader hflag
        | append _ hleader => exact absurd hleader hflag
        | appendReply success loggedIdx =>
          refine ⟨by simp, by simp, fun _ => ?_⟩
          obtain ⟨-, -, -, hle, hlast, hmax⟩ := hlog
          simp only [setLeOpcode, asI32_toU32]
          rw [i32_eq_self (by omega) (by omega)]
          exact hstable
        | _ => exact ⟨by simp, by simp, by simp⟩
      · cases hvote
        exact ⟨by simp, by simp, by simp⟩
    · exact hold dest pkt hmem

theorem LogMoves.indexed (hunicast : s.sdev.multicastEnable = false) (h : LogMoves s e log log')
    (hlog : log.Indexed) : log'.Indexed :=
  Run.preserved_of_moves (I := SmLog.Indexed)
    (fun _ _ hmove hl => indexed_move hunicast hmove hl) h hlog

theorem follower_sent_step (hunicast : n.sdev.multicastEnable = false) (hled : n.LedIfLeader)
    (hlog : n.smLog.Indexed) (hn : n.SentByFollower) (hleads : (n.step e).hist.leads = []) :
    (n.step e).SentByFollower := by
  have h := n.step_preserves (I := fun m => m.sdev.config = n.sdev.config ∧ m.LedIfLeader ∧
    m.smLog.Indexed ∧ (m.hist.leads = [] → m.SentByFollower)) e ?_
    ⟨rfl, hled, hlog, fun _ => hn⟩
  · exact h.2.2.2 hleads
  · rintro m m' hact ⟨hconfig, hled, hindexed, hm⟩
    have hmode : m.sdev.multicastEnable = false :=
      (congrArg (fun c => c.2.2) hconfig).trans hunicast
    have hmoves := hact.logMoves hconfig
    refine ⟨hact.config.trans hconfig, ledIfLeader_act hact hled, hmoves.indexed hunicast hindexed,
      fun hleads => ?_⟩
    have hbefore : m.hist.leads = [] := by
      by_contra hlead
      exact hact.leads_ne_nil hlead hleads
    exact sentByFollower_act hmode hled hbefore hindexed hact hmoves.stableIdx_le (hm hbefore)

end Node

namespace Cluster

variable {ι : Type*}

/-- Every node follows the log of `L`. -/
structure AgreementInv [DecidableEq ι] (c : Cluster ι) (L : ι) (w : World ι) : Prop where
  configured : ∀ i, c.IsConfigured i (w.node i)
  size : (w.node L).smLog.maxEntries = c.maxEntries
  led : ∀ i, (w.node i).LedIfLeader
  leader : (w.node L).smLog.LeaderLog
  sent : (w.node L).SentTrue (w.node L).smLog
  follower : ∀ F, F ≠ L → SmLog.FollowerLog (w.node L).smLog (w.node F).smLog
  followerSent : ∀ F, F ≠ L → (w.node F).SentByFollower
  matched : (w.node L).hist.leads ≠ [] → ∀ F, F ≠ L →
    (w.node L).leaderIdx.matchIndex (c.lid L F) ≤ (w.node F).smLog.stableIdx

/-- No other node has led, and the leader has not filled its ring. -/
def OnlyLeader (c : Cluster ι) (L : ι) (w : World ι) : Prop :=
  (∀ i, i ≠ L → (w.node i).hist.leads = []) ∧ (w.node L).smLog.lastIdx < c.maxEntries

variable [DecidableEq ι] {c : Cluster ι} {L : ι} {w : World ι} {move : Move ι}

theorem agreementInv_init (c : Cluster ι) (L : ι) : AgreementInv c L c.init where
  configured i := init_isConfigured i
  size := rfl
  led _ := ⟨fun h => NodeState.noConfusion h, fun h => Bool.noConfusion h⟩
  leader := SmLog.leaderLog_initLog (c.config L) (c.uninit L)
  sent _ _ h := absurd h List.not_mem_nil
  follower F _ := SmLog.followerLog_initLog (c.config F) (c.uninit F)
    (SmLog.indexed_initLog (c.uninit L) c.maxEntries) rfl
  followerSent _ _ _ _ h := absurd h List.not_mem_nil
  matched h := absurd rfl h

theorem AgreementInv.trueOf_handled (h : AgreementInv c L w) {i : ι} {lid : Nat} {pkt : ConRecord}
    (hevent : c.event w move = some (i, .handle lid pkt)) : pkt.TrueOf (w.node L).smLog := by
  obtain ⟨src, dest, -, -, hsent, -⟩ := event_handle hevent
  by_cases hsrc : src = L
  · exact h.sent dest pkt (hsrc ▸ hsent)
  · obtain ⟨happend, halive, -⟩ := h.followerSent src hsrc dest pkt hsent
    exact ConRecord.trueOf_of_ne _ happend halive

/-- A record that the leader handles is no leader message, and a reply in it does not claim more than
its sender holds. -/
theorem AgreementInv.handled_by_leader (h : AgreementInv c L w) {lid : Nat} {pkt : ConRecord}
    (hevent : c.event w move = some (L, .handle lid pkt)) :
    ∃ src, src ≠ L ∧ lid = c.lid L src ∧ pkt.opcodeVal ≠ some .append ∧
      pkt.opcodeVal ≠ some .alive ∧
      (pkt.opcodeVal = some .appendReply → asI32 pkt.param4 ≤ (w.node src).smLog.stableIdx) := by
  obtain ⟨src, dest, hne, hlid, hsent, -⟩ := event_handle hevent
  exact ⟨src, hne, hlid, h.followerSent src hne dest pkt hsent⟩

theorem lid_lt (c : Cluster ι) {L F : ι} (hne : F ≠ L) : c.lid L F < (c.peers L).length :=
  List.idxOf_lt_length_iff.mpr ((c.mem_peers L F).mpr hne)

/-- The stable index of the node behind a local id of `L`. -/
def stableOf (c : Cluster ι) (L : ι) (w : World ι) (lid : Nat) : Int :=
  match (c.peers L)[lid]? with
  | some F => (w.node F).smLog.stableIdx
  | none => -1

theorem stableOf_lid {F : ι} (hF : F ≠ L) :
    c.stableOf L w (c.lid L F) = (w.node F).smLog.stableIdx := by
  rw [stableOf, peers_lid hF]

theorem AgreementInv.le_stableOf (h : AgreementInv c L w) (lid : Nat) : -1 ≤ c.stableOf L w lid := by
  unfold stableOf
  split
  case h_1 F hF =>
    exact (h.follower F ((c.mem_peers L F).mp (List.mem_of_getElem? hF))).indexed.le_stable
  case h_2 => exact le_rfl

theorem AgreementInv.matchedUpTo (h : AgreementInv c L w) :
    (w.node L).MatchedUpTo (c.stableOf L w) := by
  intro hled lid hlid
  rw [(h.configured L).numOfTargets] at hlid
  have hF := List.getElem?_eq_getElem hlid
  have hne : (c.peers L)[lid] ≠ L := (c.mem_peers L _).mp (List.getElem_mem hlid)
  have hmatched := h.matched hled _ hne
  have hlid : c.lid L (c.peers L)[lid] = lid := (c.nodup_peers L).idxOf_getElem lid hlid
  rwa [hlid, ← stableOf_lid hne, hlid] at hmatched

theorem AgreementInv.act_leader (hunicast : c.multicastEnable = false) (h : AgreementInv c L w)
    {e : Event} (hevent : c.event w move = some (L, e)) (hnext : (w.node L).appendsNext e)
    (hroom : ((w.node L).step e).smLog.lastIdx < c.maxEntries) : AgreementInv c L (w.act L e) := by
  have hmode : (w.node L).sdev.multicastEnable = false :=
    (h.configured L).multicastEnable.trans hunicast
  have hmsg : e.noLeaderMsg := by
    rintro lid pkt rfl
    obtain ⟨-, -, -, happend, halive, -⟩ := h.handled_by_leader hevent
    exact ⟨happend, halive⟩
  have hsize : ((w.node L).step e).smLog.maxEntries = c.maxEntries :=
    (w.node L).step_preserves_log (I := fun log => log.maxEntries = c.maxEntries) e
      (fun _ _ hmove hlog => hmove.maxEntries.trans hlog) h.size
  obtain ⟨hleader, hextends, hsent⟩ :=
    Node.leader_step hmode hnext hmsg h.leader h.sent (hsize ▸ hroom)
  have hreply : ∀ lid pkt, e = .handle lid pkt → (w.node L).takesMatch pkt →
      asI32 pkt.param4 ≤ c.stableOf L w lid := by
    rintro lid pkt rfl htakes
    obtain ⟨src, hne, rfl, -, -, hle⟩ := h.handled_by_leader hevent
    rw [stableOf_lid hne]
    exact hle htakes.2.2.1
  have hmatched := (w.node L).step_preserves e
    (fun _ _ hact => Node.matchedUpTo_act h.le_stableOf hreply hact) h.matchedUpTo
  have hconfigured : c.IsConfigured L ((w.node L).step e) :=
    ((w.node L).step_config e).trans (h.configured L)
  have hother : ∀ i, i ≠ L → (w.act L e).node i = w.node i := fun i hi => World.act_of_ne w e hi
  refine ⟨World.forall_act (fun i _ => h.configured i) hconfigured, ?_,
    World.forall_act (fun i _ => h.led i) (Node.step_ledIfLeader _ e (h.led L)), ?_, ?_, ?_, ?_, ?_⟩
  · rw [World.act_self]
    exact hsize
  · rw [World.act_self]
    exact hleader
  · rw [World.act_self]
    exact hsent
  · intro F hF
    rw [World.act_self, hother F hF]
    exact (h.follower F hF).mono hextends (hsize.trans h.size.symm)
  · intro F hF
    rw [hother F hF]
    exact h.followerSent F hF
  · intro hled F hF
    rw [World.act_self] at hled ⊢
    rw [hother F hF, ← stableOf_lid (c := c) hF]
    exact hmatched hled _ (hconfigured.numOfTargets ▸ c.lid_lt hF)

theorem AgreementInv.act_follower (hunicast : c.multicastEnable = false) (h : AgreementInv c L w)
    {F : ι} (hF : F ≠ L) {e : Event} (hevent : c.event w move = some (F, e))
    (hleads : ((w.node F).step e).hist.leads = [])
    (hroom : (w.node L).smLog.lastIdx < c.maxEntries) : AgreementInv c L (w.act F e) := by
  have hmode : (w.node F).sdev.multicastEnable = false :=
    (h.configured F).multicastEnable.trans hunicast
  have hbefore : (w.node F).hist.leads = [] := by
    by_contra hlead
    exact Node.step_leads_ne_nil _ e hlead hleads
  have hrole : (w.node F).priv.nstate ≠ .leader := fun hstate => (h.led F).1 hstate hbefore
  have hmsg : ∀ lid pkt, e = .handle lid pkt → pkt.TrueOf (w.node L).smLog := by
    rintro lid pkt rfl
    exact h.trueOf_handled hevent
  have hfollower := (w.node F).step_preserves_log e
    (fun _ _ => Node.followerLog_move hmode hrole hmsg (h.size ▸ hroom)) (h.follower F hF)
  have hsent := Node.follower_sent_step (e := e) hmode (h.led F) (h.follower F hF).indexed
    (h.followerSent F hF) hleads
  have hleader : (w.act F e).node L = w.node L := World.act_of_ne w e hF.symm
  constructor
  case size => rw [hleader]; exact h.size
  case leader => rw [hleader]; exact h.leader
  case sent => rw [hleader]; exact h.sent
  case configured =>
    exact World.forall_act (fun i _ => h.configured i)
      (((w.node F).step_config e).trans (h.configured F))
  case led => exact World.forall_act (fun i _ => h.led i) (Node.step_ledIfLeader _ e (h.led F))
  case follower =>
    rw [hleader]
    exact World.forall_act (I := fun G n => G ≠ L → SmLog.FollowerLog (w.node L).smLog n.smLog)
      (fun G _ => h.follower G) fun _ => hfollower
  case followerSent =>
    exact World.forall_act (I := fun G n => G ≠ L → n.SentByFollower)
      (fun G _ => h.followerSent G) fun _ => hsent
  case matched =>
    intro hled
    rw [hleader] at hled ⊢
    exact World.forall_act
      (I := fun G n => G ≠ L → (w.node L).leaderIdx.matchIndex (c.lid L G) ≤ n.smLog.stableIdx)
      (fun G _ => h.matched hled G)
      fun hF => (h.matched hled F hF).trans (Node.step_stableIdx_le _ e)

theorem onlyLeader_of_step (h : c.OnlyLeader L (c.step w move)) : c.OnlyLeader L w := by
  cases hevent : c.event w move with
  | none => rwa [step_of_no_event hevent] at h
  | some p =>
    rw [step_of_event (i := p.1) (e := p.2) hevent] at h
    refine ⟨fun i hi => ?_, ?_⟩
    · by_contra hlead
      by_cases hp : i = p.1
      · subst hp
        have hafter := h.1 _ hi
        rw [World.act_self] at hafter
        exact Node.step_leads_ne_nil _ p.2 hlead hafter
      · have hafter := h.1 i hi
        rw [World.act_of_ne w _ hp] at hafter
        exact hlead hafter
    · have hlast : (w.node L).smLog.lastIdx ≤ ((w.act p.1 p.2).node L).smLog.lastIdx :=
        World.forall_act (I := fun i n => (w.node i).smLog.lastIdx ≤ n.smLog.lastIdx)
          (fun _ _ => le_rfl) (Node.step_lastIdx_le _ p.2) L
      exact hlast.trans_lt h.2

theorem agreementInv_step (hunicast : c.multicastEnable = false) (h : AgreementInv c L w)
    (hcond : c.everyNode Node.appendsNext w move) (honly : c.OnlyLeader L (c.step w move)) :
    AgreementInv c L (c.step w move) := by
  have hroom := (onlyLeader_of_step honly).2
  cases hevent : c.event w move with
  | none => rwa [step_of_no_event hevent]
  | some p =>
    obtain ⟨i, e⟩ := p
    rw [step_of_event hevent] at honly ⊢
    by_cases hi : i = L
    · subst hi
      have hlast := honly.2
      rw [World.act_self] at hlast
      exact h.act_leader hunicast hevent (hcond _ hevent) hlast
    · have hleads := honly.1 i hi
      rw [World.act_self] at hleads
      exact h.act_follower hunicast hi hevent hleads hroom

theorem agreementInv_run (hunicast : c.multicastEnable = false) (moves : List (Move ι))
    (hmeets : Run.Meets c.step (c.everyNode Node.appendsNext) c.init moves)
    (honly : c.OnlyLeader L (c.run moves)) : AgreementInv c L (c.run moves) :=
  Run.invariant_of_final c.step (fun _ _ => onlyLeader_of_step)
    (fun _ _ h hcond honly => agreementInv_step hunicast h hcond honly) (agreementInv_init c L) hmeets
    honly

/-- Agreement with the only node `L` that has ever led, for every other node `F`: what `F` holds or has
applied is what stands in the log of `L`; what `F` has put into its ring are the commands of `L` in order;
`F` has committed no more than `L`; and `L` counts for `F` no more than `F` holds without a gap. That is
as long as the arrays of `L` have a slot for every target. -/
theorem single_leader_agreement (c : Cluster ι) (hunicast : c.multicastEnable = false) (L : ι)
    (hfew : (c.peers L).length ≤ clusterSize) (moves : List (Move ι))
    (hmeets : Run.Meets c.step (c.everyNode Node.appendsNext) c.init moves)
    (honly : c.OnlyLeader L (c.run moves)) (F : ι) (hF : F ≠ L) :
    (∀ i, 0 ≤ i → i < c.maxEntries →
      (((c.run moves).node F).smLog.entry i).valid = true ∨
        i ≤ ((c.run moves).node F).smLog.lastApplied →
      i ≤ ((c.run moves).node L).smLog.lastIdx ∧
        (((c.run moves).node F).smLog.entry i).dataChunk =
          (((c.run moves).node L).smLog.entry i).dataChunk) ∧
    Run.Yields c.step (c.PutsIntoRing F) c.init moves
      ((List.range (((c.run moves).node F).smLog.lastApplied + 1).toNat).map
        fun k : Nat => (((c.run moves).node L).smLog.entry k).dataChunk) ∧
    ((c.run moves).node F).smLog.commitIdx ≤ ((c.run moves).node L).smLog.commitIdx ∧
    (((c.run moves).node L).hist.leads ≠ [] →
      ((c.run moves).node L).leaderIdx.matchIndex (c.lid L F) ≤
        ((c.run moves).node F).smLog.stableIdx) ∧
    ∀ lk, CmdLogMemory.TablesApart lk ((c.run moves).node L) := by
  have h := agreementInv_run hunicast moves hmeets honly
  have hfollower := h.follower F hF
  have htargets := (h.configured L).numOfTargets.trans_le hfew
  refine ⟨?_, hfollower.applied ▸ c.run_putsIntoRing F moves, hfollower.commit_le_leader,
    fun hled => h.matched hled F hF, fun lk => CmdLogMemory.tablesApart_of_few lk htargets⟩
  intro i hlow hhigh hheld
  have hsize := hfollower.size.trans h.size
  have hstable : (((c.run moves).node F).smLog.entry i).valid = true ∨
      i ≤ ((c.run moves).node F).smLog.stableIdx := by
    rcases hheld with hvalid | happlied
    · exact .inl hvalid
    · right
      calc i ≤ ((c.run moves).node F).smLog.lastApplied := happlied
        _ ≤ ((c.run moves).node F).smLog.commitIdx := hfollower.indexed.applied_le
        _ ≤ ((c.run moves).node F).smLog.stableIdx := hfollower.commit_le
  obtain ⟨hlast, hchunk⟩ := hfollower.chunk i hlow (hsize ▸ hhigh) hstable
  exact ⟨hlast.trans hfollower.last_le, hchunk⟩

/-- Node 0 leads and sends two commands. Both others confirm them; the next heartbeat lets node 1
apply them. -/
def twoCommands : List (Move (Fin 3)) :=
  oneElection ++ [.deliver 1 0 1, .deliver 2 0 0, .act 0 (.request [sampleChunk 7, sampleChunk 8]),
    .act 0 (.work 0), .act 0 (.work 0), .deliver 1 0 1, .deliver 2 0 0, .deliver 0 1 0,
    .deliver 0 2 0, .act 0 .tick, .deliver 1 0 1]

example : ((threeNodes.run twoCommands).node 1).smLog.abstract.applied =
    [sampleChunk 7, sampleChunk 8] := by decide +kernel

theorem single_leader_agreement_twoCommands :
    let leader := (threeNodes.run twoCommands).node 0
    let follower := (threeNodes.run twoCommands).node 1
    (∀ i, 0 ≤ i → i < threeNodes.maxEntries →
      (follower.smLog.entry i).valid = true ∨ i ≤ follower.smLog.lastApplied →
      i ≤ leader.smLog.lastIdx ∧
        (follower.smLog.entry i).dataChunk = (leader.smLog.entry i).dataChunk) ∧
    Run.Yields threeNodes.step (threeNodes.PutsIntoRing 1) threeNodes.init twoCommands
      ((List.range (follower.smLog.lastApplied + 1).toNat).map
        fun k : Nat => (leader.smLog.entry k).dataChunk) ∧
    follower.smLog.commitIdx ≤ leader.smLog.commitIdx ∧
    (leader.hist.leads ≠ [] →
      leader.leaderIdx.matchIndex (threeNodes.lid 0 1) ≤ follower.smLog.stableIdx) ∧
    ∀ lk, CmdLogMemory.TablesApart lk leader :=
  single_leader_agreement threeNodes rfl 0 (by decide) twoCommands (by decide +kernel)
    ⟨by decide +kernel, by decide +kernel⟩ 1 (by decide)

/-! ### Five nodes -/

def fiveMembers : Members (Fin 5) where
  cid i := i.val + 1
  peers i := (List.finRange 5).filter (· ≠ i)
  cid_lt i := by omega
  cid_injective i j h := by simpa [Fin.val_inj] using h
  nodup_peers i := (List.nodup_finRange 5).filter _
  mem_peers i j := by simp

def fiveNodes : Cluster (Fin 5) where
  toMembers := fiveMembers
  maxEntries := maxConsensusLog
  multicastEnable := false
  uninit _ := zeroUninit
  selfIp _ := 0
  selfMac _ := Vector.replicate _ 0
  maxEntries_pos := maxConsensusLog_pos
  maxEntries_le := maxConsensusLog_le

/-- All nodes hear of each other, and all others vote for the first one. All but one vote arrive. -/
def fourVotes : List (Move (Fin 5)) :=
  (List.finRange 5).map (fun i => .act i .pmStart) ++ (List.finRange 5).map (fun i => .act i .tick) ++
  (List.finRange 5).flatMap (fun i => (fiveMembers.peers i).map fun j =>
    .arrive i j (3 - (fiveMembers.peers j).idxOf i) 1) ++
  [.deliver 1 0 3, .deliver 2 0 2, .deliver 3 0 1, .deliver 4 0 0, .deliver 0 1 0, .deliver 0 2 0,
    .deliver 0 3 0]

/-- **With a fourth target** its `next_index` is the `match_index` of the first: with the last vote, the
new leader counts index 0 for a follower that holds nothing. -/
theorem fourth_target_matches : ¬∀ (c : Cluster (Fin 5)) (L F : Fin 5) (moves : List (Move (Fin 5)))
    (move : Move (Fin 5)) (lk : RwLock) (mem : CmdLogMemory), c.multicastEnable = false →
    Run.Meets c.step (c.everyNode Node.appendsNext) c.init (moves ++ [move]) →
    c.OnlyLeader L (c.run (moves ++ [move])) → F ≠ L →
    let w := c.run moves
    ((c.step w move).node L).hist.leads ≠ (w.node L).hist.leads →
    CmdLogMemory.Shows lk mem (w.node L) →
    (mem.initializeIndices lk (c.peers L).length).get lk (.matchIndex (c.lid L F)) ≤
      (w.node F).smLog.stableIdx := by
  intro h
  have hmatch := h fiveNodes 0 1 fourVotes (.deliver 0 4 0) CmdLogMemory.kernelRwLock
    (.ofNode CmdLogMemory.kernelRwLock 4096 ((fiveNodes.run fourVotes).node 0))
    rfl (by decide +kernel) ⟨by decide +kernel, by decide +kernel⟩ (by decide) (by decide +kernel)
    (CmdLogMemory.shows_ofNode _ _ (by decide +kernel))
  exact absurd hmatch (by decide +kernel)

end Cluster

end XlaneLkm
