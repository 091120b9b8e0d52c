import XlaneLkm.Proof.AppendMsg
import XlaneLkm.Proof.Replica

/-!
# The log of an only leader

A leader that hears of no other leader appends to its log and never rewrites it, and what its APPEND
and ALIVE messages say stays true of the log as it grows.
-/

namespace XlaneLkm

open MachineInt

namespace SmLog

/-- The second log has grown out of the first. -/
structure Extends (log log' : SmLog) : Prop where
  last : log.lastIdx ≤ log'.lastIdx
  commit : log.commitIdx ≤ log'.commitIdx
  chunk : ∀ i, 0 ≤ i → i ≤ log.lastIdx → (log'.entry i).dataChunk = (log.entry i).dataChunk

theorem Extends.refl (log : SmLog) : log.Extends log := ⟨le_rfl, le_rfl, fun _ _ _ => rfl⟩

theorem Extends.trans {log log' log'' : SmLog} (h : log.Extends log') (h' : log'.Extends log'') :
    log.Extends log'' where
  last := h.last.trans h'.last
  commit := h.commit.trans h'.commit
  chunk i hlow hhigh := (h'.chunk i hlow (hhigh.trans h.last)).trans (h.chunk i hlow hhigh)

theorem extends_of_sameCommands {log log' : SmLog} (hsize : log'.maxEntries = log.maxEntries)
    (hlast : log.lastIdx ≤ log'.lastIdx) (hcommit : log.commitIdx ≤ log'.commitIdx)
    (hsame : SameCommands log.entries log'.entries) : log.Extends log' := by
  refine ⟨hlast, hcommit, fun i _ _ => ?_⟩
  have hslot : log'.slot i = log.slot i := by simp only [slot, hsize]
  rw [entry, entry, hslot]
  exact (hsame _).1

/-- No append of another leader has reached the log: `stable_idx` is where it was at first, and
`last_applied` moves with `commit_idx`. -/
structure LeaderLog (log : SmLog) : Prop where
  indexed : log.Indexed
  sized : log.Sized
  stable : log.stableIdx = -1
  applied : log.lastApplied = log.commitIdx

theorem leaderLog_initLog (c : Config) (u : Uninit) : (initLog u c.maxEntries).LeaderLog where
  indexed := indexed_initLog u c.maxEntries
  sized := ⟨c.maxEntries_pos, c.maxEntries_le⟩
  stable := rfl
  applied := rfl

theorem LeaderLog.store {log : SmLog} (h : log.LeaderLog) (chunk : DataChunk) (term : Int)
    (hroom : log.lastIdx + 1 < log.maxEntries) :
    (log.store chunk term (log.lastIdx + 1)).LeaderLog ∧
      log.Extends (log.store chunk term (log.lastIdx + 1)) := by
  have := h.sized.2
  refine ⟨⟨h.indexed.store chunk term (by omega), h.sized, h.stable, h.applied⟩, ?_, le_rfl, ?_⟩
  · rw [store_lastIdx]
    exact le_max_left _ _
  · intro i hlow hhigh
    rw [store_entry_of_ne]
    intro hslot
    have := h.sized.add_le_of_slot_eq hlow (by omega) (by omega) hslot
    omega

end SmLog

/-- What the record says about the log of its sender: which commands stand where, and how far it has
committed. -/
structure ConRecord.TrueOf (pkt : ConRecord) (log : SmLog) : Prop where
  entries : pkt.opcodeVal = some .append → ∀ j < pkt.numEntries.toNat,
    0 ≤ pkt.startIdx + j ∧ pkt.startIdx + j ≤ log.lastIdx ∧
      pkt.entries j = (log.entry (pkt.startIdx + j)).dataChunk
  appendCommit : pkt.opcodeVal = some .append → asI32 pkt.leaderCommitIdx ≤ log.commitIdx
  aliveCommit : pkt.opcodeVal = some .alive → asI32 pkt.param2 ≤ log.commitIdx

namespace ConRecord

theorem trueOf_of_ne {pkt : ConRecord} (log : SmLog) (happend : pkt.opcodeVal ≠ some .append)
    (halive : pkt.opcodeVal ≠ some .alive) : pkt.TrueOf log :=
  ⟨fun h => absurd h happend, fun h => absurd h happend, fun h => absurd h halive⟩

theorem TrueOf.mono {pkt : ConRecord} {log log' : SmLog} (h : pkt.TrueOf log)
    (hextends : log.Extends log') : pkt.TrueOf log' where
  entries hop j hj := by
    obtain ⟨hlow, hhigh, hchunk⟩ := h.entries hop j hj
    exact ⟨hlow, hhigh.trans hextends.last, hchunk.trans (hextends.chunk _ hlow hhigh).symm⟩
  appendCommit hop := (h.appendCommit hop).trans hextends.commit
  aliveCommit hop := (h.aliveCommit hop).trans hextends.commit

theorem trueOf_setAeData {log : SmLog} (hlog : log.Indexed) (hroom : log.lastIdx < 2147483647)
    (pktSize : UInt16) (term leaderId prevLogTerm : Int) {first num : Int} (hfirst : 0 ≤ first)
    (hnum : 0 < num) (hlast : first + num - 1 ≤ log.lastIdx) :
    (setAeData pktSize term leaderId first prevLogTerm log.commitIdx log num).TrueOf log := by
  obtain ⟨hle, happlied, hcommit, -, -, -⟩ := hlog
  obtain ⟨-, hstart, hnumEntries, hentries⟩ := setAeData_range pktSize term leaderId prevLogTerm
    log.commitIdx log hfirst hnum hlast hroom
  have hcommitIdx : i32 log.commitIdx = log.commitIdx := i32_eq_self (by omega) (by omega)
  refine ⟨fun _ j hj => ?_, fun _ => ?_, fun h => by simp at h⟩
  · rw [hstart]
    exact ⟨by omega, by omega, hentries j (by omega)⟩
  · simp only [setAeData, asI32_toU32, hcommitIdx, le_refl]

end ConRecord

/-- The event is not the handling of a message that only a leader sends. -/
def Event.noLeaderMsg (e : Event) : Prop :=
  ∀ lid pkt, e = .handle lid pkt → pkt.opcodeVal ≠ some .append ∧ pkt.opcodeVal ≠ some .alive

namespace Node

variable {s : Node} {e : Event} {n n' : Node} {log log' : SmLog}

/-- Leaders append their client's commands at the next index only. -/
def appendsNext (n : Node) (e : Event) : Prop := n.priv.nstate = .leader → e.isOneShot = false

instance (n : Node) (e : Event) : Decidable (n.appendsNext e) :=
  inferInstanceAs (Decidable (_ → _))

theorem leaderLog_move (hunicast : s.sdev.multicastEnable = false) (hnext : s.appendsNext e)
    (hmsg : e.noLeaderMsg) (hs : s.smLog.Indexed) (h : LogMove s e log log')
    (hroom : log'.lastIdx < log'.maxEntries) (hlog : log.LeaderLog) :
    log'.LeaderLog ∧ log.Extends log' := by
  have hindexed := indexed_move hunicast h hlog.indexed
  have hextends := SmLog.extends_of_sameCommands h.maxEntries h.lastIdx_le (h.commitIdx_le hunicast)
  cases h with
  | store lid pkt j he hlid h => exact absurd h.2.2.1 (hmsg lid pkt he).1
  | stabilise lid pkt he hlid h => exact absurd h.2.2.1 (hmsg lid pkt he).1
  | setCommit lid pkt idx he hlid h =>
    rcases h.2.2 with h | h
    · exact absurd h.1 (hmsg lid pkt he).2
    · exact absurd h.1 (hmsg lid pkt he).1
  | apply h =>
    have := hlog.applied
    omega
  | request chunk idx hrole hguard hle hidx =>
    have hrange := i32_eq_self (x := s.smLog.lastIdx)
      (by have := hs.le_stable; have := hs.stable_le; omega) hs.last_le
    obtain rfl := hidx (hnext hrole) hrange (hlog.indexed.le_applied.trans hlog.indexed.applied_le)
    refine hlog.store chunk _ ?_
    rw [SmLog.store_lastIdx] at hroom
    exact (le_max_right _ _).trans_lt hroom
  | leaderCommit lid pkt N =>
    refine ⟨?_, hextends (s.smLog.leaderCommit_sameCommands N)⟩
    obtain ⟨entries, heq, -⟩ := s.smLog.leaderCommit_eq N
    rw [heq] at hindexed ⊢
    refine ⟨hindexed, hlog.sized, hlog.stable, ?_⟩
    dsimp only
    rw [hlog.applied]
  | repair => exact hlog.indexed.repaired.symm ▸ ⟨hlog, SmLog.Extends.refl log⟩
  | multicast commitIdx h => rw [hunicast] at h; cases h
  | retransRequest idx =>
    exact ⟨⟨hindexed, hlog.sized, hlog.stable, hlog.applied⟩, hextends fun _ => ⟨rfl, rfl⟩⟩

theorem LogMoves.room (h : LogMoves s e log log') (hroom : log'.lastIdx < log'.maxEntries) :
    log.lastIdx < log.maxEntries := by
  have hbefore := Run.preserved_of_moves
    (I := fun l => l.lastIdx < l.maxEntries → log.lastIdx < log.maxEntries)
    (fun _ _ hmove hl hroom => hl (by
      rw [← hmove.maxEntries]
      exact hmove.lastIdx_le.trans_lt hroom)) h id
  exact hbefore hroom

theorem leaderLog_moves (hunicast : s.sdev.multicastEnable = false) (hnext : s.appendsNext e)
    (hmsg : e.noLeaderMsg) (hs : s.smLog.Indexed) (h : LogMoves s e log log')
    (hroom : log'.lastIdx < log'.maxEntries) (hlog : log.LeaderLog) :
    log'.LeaderLog ∧ log.Extends log' := by
  induction h with
  | refl => exact ⟨hlog, SmLog.Extends.refl log⟩
  | tail hmoves hmove ih =>
    obtain ⟨hmid, hextends⟩ := ih (LogMoves.room (.single hmove) hroom)
    obtain ⟨hend, hmore⟩ := leaderLog_move hunicast hnext hmsg hs hmove hroom hmid
    exact ⟨hend, hextends.trans hmore⟩

/-! ### What a node sends -/

/-- In unicast mode, an action sends at most one record, and then leaves the log alone. -/
theorem Act.sent_cases (hunicast : n.sdev.multicastEnable = false) (h : Act s e n n') :
    n'.sent = n.sent ∨ n'.smLog = n.smLog ∧ ∃ dest record, n'.sent = (dest, record) :: n.sent ∧
      (n.Emits record ∨ ∃ p1 p2, record = some (setLeOpcode .vote p1 p2 0 0)) := by
  cases h with
  | quiet h => exact .inl h.sent
  | emit _ dest record h => exact .inr ⟨rfl, dest, record, rfl, .inl h⟩
  | grant => exact .inr ⟨rfl, _, _, rfl, .inr ⟨_, _, rfl⟩⟩
  | noteVote lid pkt =>
    obtain ⟨voters, heq, -⟩ := s.noteVote_eq lid pkt
    exact .inl (by rw [heq])
  | leaderCommit =>
    obtain ⟨log, heq⟩ := n.updateCommitIdx_eq
    exact .inl (by rw [heq])
  | multicast _ num pkt h => rw [hunicast] at h; cases h
  | _ => exact .inl rfl

/-- What a node emits in unicast mode is true of its log. -/
theorem trueOf_of_emits (hlog : n.smLog.Indexed) (hroom : n.smLog.lastIdx < 2147483647)
    {pkt : ConRecord} (h : n.Emits (some pkt)) : pkt.TrueOf n.smLog := by
  cases h with
  | append _ _ _ h =>
    obtain ⟨pktSize, first, num, prevLogTerm, hfirst, hnum, hlast, -, rfl⟩ := h.exists_range
    exact ConRecord.trueOf_setAeData hlog hroom pktSize _ _ prevLogTerm hfirst hnum hlast
  | alive =>
    obtain ⟨hle, happlied, hcommit, -, -, hmax⟩ := hlog
    refine ⟨fun h => by simp [setupAliveMsg] at h, fun h => by simp [setupAliveMsg] at h, fun _ => ?_⟩
    simp only [setupAliveMsg, setLeOpcode, asI32_toU32]
    rw [i32_eq_self (by omega) (by omega)]
  | _ => exact ConRecord.trueOf_of_ne _ (by simp) (by simp)

/-- Every record sent is true of the log. -/
def SentTrue (n : Node) (log : SmLog) : Prop :=
  ∀ dest pkt, (dest, some pkt) ∈ n.sent → pkt.TrueOf log

theorem leader_step (hunicast : n.sdev.multicastEnable = false) (hnext : n.appendsNext e)
    (hmsg : e.noLeaderMsg) (hlog : n.smLog.LeaderLog) (hsent : n.SentTrue n.smLog)
    (hroom : (n.step e).smLog.lastIdx < (n.step e).smLog.maxEntries) :
    (n.step e).smLog.LeaderLog ∧ n.smLog.Extends (n.step e).smLog ∧
      (n.step e).SentTrue (n.step e).smLog := by
  have h := n.step_preserves (I := fun m => m.sdev.config = n.sdev.config ∧
    (m.smLog.lastIdx < m.smLog.maxEntries → m.smLog.LeaderLog ∧ n.smLog.Extends m.smLog ∧
      m.SentTrue m.smLog)) e ?_ ⟨rfl, fun _ => ⟨hlog, SmLog.Extends.refl _, hsent⟩⟩
  · exact h.2 hroom
  · rintro m m' hact ⟨hconfig, hm⟩
    refine ⟨hact.config.trans hconfig, fun hroom => ?_⟩
    have hmoves := hact.logMoves hconfig
    obtain ⟨hbefore, hextends, hsent⟩ := hm (LogMoves.room hmoves hroom)
    obtain ⟨hafter, hmore⟩ := leaderLog_moves hunicast hnext hmsg hlog.indexed hmoves hroom hbefore
    refine ⟨hafter, hextends.trans hmore, ?_⟩
    intro dest pkt hmem
    have hmode : m.sdev.multicastEnable = false :=
      (congrArg (fun c => c.2.2) hconfig).trans hunicast
    rcases hact.sent_cases hmode with hsame | ⟨hsame, dest', record, hnew, hrecord⟩
    · exact (hsent dest pkt (hsame ▸ hmem)).mono hmore
    · rw [hsame]
      rcases List.mem_cons.mp (hnew ▸ hmem) with heq | hold
      · cases heq
        rcases hrecord with hemits | ⟨p1, p2, hvote⟩
        · have hmax := hbefore.sized.2
          have hroom := LogMoves.room hmoves hroom
          exact trueOf_of_emits hbefore.indexed (by omega) hemits
        · cases hvote
          exact ConRecord.trueOf_of_ne _ (by simp) (by simp)
      · exact hsent dest pkt hold

end Node

end XlaneLkm
