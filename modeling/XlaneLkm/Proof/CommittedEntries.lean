import XlaneLkm.Proof.CommitOrder
import XlaneLkm.Proof.Ring

/-!
# Committed entries

`append_command` refuses indices below `commit_idx` but not `commit_idx` itself. Replicas only store
above `stable_idx`, which makes up for it; a former leader's `stable_idx` lies behind its `commit_idx`,
and a one shot of client requests starts at index 0, so these two can overwrite the last committed
entry.
-/

namespace XlaneLkm

open MachineInt

namespace SmLog

/-- The entry at an index has the same command and term in both logs. -/
def KeepsEntry (log log' : SmLog) (i : Int) : Prop :=
  (log'.entry i).dataChunk = (log.entry i).dataChunk ∧ (log'.entry i).term = (log.entry i).term

/-- From one log to the other, the slot of an index was given to an index a whole turn above. -/
def ReusesSlot (log log' : SmLog) (i : Int) : Prop :=
  ∃ appended, log'.history = appended ++ log.history ∧ ∃ j chunk lastApplied,
    .append j chunk lastApplied ∈ appended ∧ i + log.maxEntries ≤ j ∧ log.slot j = log.slot i

theorem ReusesSlot.mono {log log' log'' : SmLog} {i : Int} (h : ReusesSlot log log' i)
    (hsuffix : log'.history <:+ log''.history) : ReusesSlot log log'' i := by
  obtain ⟨appended, hhistory, j, chunk, la, hmem, hle, hslot⟩ := h
  obtain ⟨more, hmore⟩ := hsuffix
  refine ⟨more ++ appended, ?_, j, chunk, la, List.mem_append_right more hmem, hle, hslot⟩
  rw [← hmore, hhistory, List.append_assoc]

end SmLog

namespace Node

variable {s : Node} {e : Event} {log log' : SmLog}

/-- Whatever would be stored at `commit_idx` is what stands there. -/
def rewritesCommitted (n : Node) : Event → Prop
  | .handle lid pkt => n.takesAppend lid pkt → n.smLog.acceptsAppend pkt →
      pkt.startIdx = n.smLog.commitIdx →
        pkt.entries 0 = (n.smLog.entry n.smLog.commitIdx).dataChunk ∧
          u32 (n.appendTerm pkt) = (n.smLog.entry n.smLog.commitIdx).term
  | .oneShot chunks => n.priv.nstate = .leader → n.smLog.commitIdx = 0 →
      ∀ chunk ∈ chunks[0]?, chunk = (n.smLog.entry 0).dataChunk ∧
        u32 n.priv.term = (n.smLog.entry 0).term
  | _ => True

instance (n : Node) : (e : Event) → Decidable (n.rewritesCommitted e)
  | .handle .. => inferInstanceAs (Decidable (_ → _ → _ → _ ∧ _))
  | .oneShot chunks => inferInstanceAs (Decidable (_ → _ → ∀ chunk ∈ chunks[0]?, _ ∧ _))
  | .rx .. | .tick | .request .. | .work .. | .user .. | .leConfig .. | .pmStart | .pmStop | .pmHalt
  | .pmFail | .start | .stop => isTrue trivial

/-- What a part of the step from `s` has left of the committed entries. -/
structure KeepsCommitted (s : Node) (log : SmLog) : Prop where
  indexed : log.Indexed
  size : log.maxEntries = s.smLog.maxEntries
  history : s.smLog.history <:+ log.history
  commit : s.smLog.commitIdx ≤ log.commitIdx
  entries : ∀ i, 0 ≤ i → i ≤ s.smLog.commitIdx → s.smLog.commitIdx - s.smLog.maxEntries < i →
    s.smLog.KeepsEntry log i ∨ s.smLog.ReusesSlot log i

theorem slot_eq_of_size (hsize : log.maxEntries = log'.maxEntries) (i : Int) :
    log.slot i = log'.slot i := by
  simp only [SmLog.slot, hsize]

theorem KeepsCommitted.store (hsized : s.smLog.Sized) (h : KeepsCommitted s log) (chunk : DataChunk)
    (term : Int) {idx : Int} (hge : s.smLog.commitIdx ≤ idx) (hle : idx ≤ 2147483647)
    (hsame : idx = s.smLog.commitIdx → 0 ≤ idx →
      chunk = (s.smLog.entry idx).dataChunk ∧ u32 term = (s.smLog.entry idx).term) :
    KeepsCommitted s (log.store chunk term idx) := by
  have hslots := fun i => slot_eq_of_size h.size i
  refine ⟨h.indexed.store _ _ hle, h.size, h.history.trans (List.suffix_cons _ _), h.commit, ?_⟩
  intro i hpos hcommitted hwindow
  by_cases hslot : log.slot i = log.slot idx
  · by_cases hi : i = idx
    · subst hi
      obtain ⟨hchunk, hterm⟩ := hsame (by omega) hpos
      left
      rw [SmLog.KeepsEntry, SmLog.store_entry_self log chunk term rfl]
      exact ⟨hchunk, hterm⟩
    · rw [hslots, hslots] at hslot
      have hturn := hsized.add_le_of_slot_eq hpos (by omega) (by omega) hslot
      obtain ⟨appended, hhistory⟩ := h.history
      right
      refine ⟨.append idx chunk log.lastApplied :: appended, ?_, idx, chunk, log.lastApplied,
        List.mem_cons_self, hturn, hslot.symm⟩
      simp only [SmLog.store, List.cons_append, hhistory]
  · rcases h.entries i hpos hcommitted hwindow with hkept | hreused
    · left
      rw [SmLog.KeepsEntry, SmLog.store_entry_of_ne log chunk term hslot]
      exact hkept
    · exact .inr (hreused.mono (List.suffix_cons _ _))

theorem KeepsCommitted.of_sameCommands (h : KeepsCommitted s log) (hindexed : log'.Indexed)
    (hsize : log'.maxEntries = log.maxEntries) (hhistory : log.history <:+ log'.history)
    (hcommit : log.commitIdx ≤ log'.commitIdx)
    (hsame : SmLog.SameCommands log.entries log'.entries) : KeepsCommitted s log' := by
  refine ⟨hindexed, hsize.trans h.size, h.history.trans hhistory, h.commit.trans hcommit, ?_⟩
  intro i hpos hcommitted hwindow
  rcases h.entries i hpos hcommitted hwindow with hkept | hreused
  · left
    have hentry := hsame (log.slot i)
    rw [SmLog.KeepsEntry, SmLog.entry, slot_eq_of_size hsize]
    exact ⟨hentry.1.trans hkept.1, hentry.2.trans hkept.2⟩
  · exact .inr (hreused.mono hhistory)

theorem keepsCommitted_move (hunicast : s.sdev.multicastEnable = false) (hs : s.smLog.Indexed)
    (hsized : s.smLog.Sized) (hcond : s.rewritesCommitted e) (h : LogMove s e log log')
    (hlog : KeepsCommitted s log) : KeepsCommitted s log' := by
  have hframe : SmLog.SameCommands log.entries log'.entries → KeepsCommitted s log' :=
    hlog.of_sameCommands (indexed_move hunicast h hlog.indexed) h.maxEntries h.history_suffix
      (h.commitIdx_le hunicast)
  cases h with
  | store lid pkt j he hlid h haccepts hj hle =>
    subst he
    have hguard := haccepts.2.2.2.2.2
    refine hlog.store hsized _ _ (by omega) hle fun heq _ => ?_
    -- only the first entry can be for the commit index
    obtain rfl : j = 0 := by omega
    rw [Int.natCast_zero, Int.add_zero] at heq ⊢
    rw [heq]
    exact hcond h haccepts heq
  | request chunk idx hrole hguard hle hnext hshot =>
    refine hlog.store hsized _ _ (hlog.commit.trans hguard) hle fun heq hpos => ?_
    cases e with
    | oneShot chunks =>
      obtain ⟨hzero, -, hchunk⟩ := hshot chunks rfl
      obtain rfl : idx = 0 := by have := hlog.commit; omega
      exact hcond hrole heq.symm chunk hchunk
    | _ =>
      have hrange := i32_eq_self (x := s.smLog.lastIdx)
        (by have := hs.le_stable; have := hs.stable_le; omega) hs.last_le
      have hcommit := hlog.indexed.le_applied.trans hlog.indexed.applied_le
      have hidx := hnext rfl hrange hcommit
      have := hlog.indexed.commit_le
      have := hlog.commit
      omega
  | apply => exact hframe (log.invalidate_sameCommands _)
  | leaderCommit lid pkt N => exact hframe (s.smLog.leaderCommit_sameCommands N)
  | repair => exact hframe (by rw [log.getLastIdxSafe_eq]; exact fun _ => ⟨rfl, rfl⟩)
  | _ => exact hframe fun _ => ⟨rfl, rfl⟩

/-- A step keeps the committed entries, or gives their slots to indices a whole turn above, in every
run in which nothing but the same entry is ever stored at the commit index. -/
theorem committed_entries_kept (c : Config) (u : Uninit) (hunicast : c.multicastEnable = false)
    (events : List Event) (e : Event)
    (hmeets : Run.Meets step rewritesCommitted (consensusInit c u) (events ++ [e])) (i : Int)
    (hpos : 0 ≤ i) (hcommitted : i ≤ (run (consensusInit c u) events).smLog.commitIdx)
    (hwindow : (run (consensusInit c u) events).smLog.commitIdx - c.maxEntries < i) :
    (run (consensusInit c u) events).smLog.KeepsEntry
        ((run (consensusInit c u) events).step e).smLog i ∨
      (run (consensusInit c u) events).smLog.ReusesSlot
        ((run (consensusInit c u) events).step e).smLog i := by
  have hindexed := run_indexed c u hunicast events
  have hsize := run_sized c u events
  have hmode := (run_multicastEnable c u events).trans hunicast
  have hcond := (Run.meets_append step).mp hmeets
  generalize hn : run (consensusInit c u) events = n at *
  have hsized : n.smLog.Sized := ⟨hsize ▸ c.maxEntries_pos, hsize ▸ c.maxEntries_le⟩
  have hstart : KeepsCommitted n n.smLog :=
    ⟨hindexed, rfl, List.suffix_rfl, le_rfl, fun _ _ _ _ => .inl ⟨rfl, rfl⟩⟩
  have hend := n.step_preserves_log e
    (fun _ _ => keepsCommitted_move hmode hindexed hsized (hn ▸ hcond.2.1)) hstart
  exact hend.entries i hpos hcommitted (by rw [hsize]; exact hwindow)

theorem committed_entries_kept_following :
    (run (consensusInit (smallConfig 3 [1, 2]) zeroUninit) following).smLog.KeepsEntry
        ((run (consensusInit (smallConfig 3 [1, 2]) zeroUninit) following).step
          (.handle 0 (sampleAppend 1 1 0 1 0 (sampleChunk 8)))).smLog 0 ∨
      (run (consensusInit (smallConfig 3 [1, 2]) zeroUninit) following).smLog.ReusesSlot
        ((run (consensusInit (smallConfig 3 [1, 2]) zeroUninit) following).step
          (.handle 0 (sampleAppend 1 1 0 1 0 (sampleChunk 8)))).smLog 0 :=
  committed_entries_kept _ _ rfl _ _ (by decide) 0 (by decide) (by decide) (by decide)

/-- The leader of `firstCommit` follows another node, whose first APPEND is for index 0. -/
theorem committed_entry_overwritten :
    ¬ ∀ (c : Config) (u : Uninit) (events : List Event) (e : Event) (i : Int),
      c.multicastEnable = false → 0 ≤ i →
      i ≤ (run (consensusInit c u) events).smLog.commitIdx →
      (run (consensusInit c u) events).smLog.commitIdx - c.maxEntries < i →
      (run (consensusInit c u) events).smLog.KeepsEntry
          ((run (consensusInit c u) events).step e).smLog i ∨
        (run (consensusInit c u) events).smLog.ReusesSlot
          ((run (consensusInit c u) events).step e).smLog i := by
  intro h
  have hentry := h (smallConfig 1 [2, 3]) zeroUninit
    (firstCommit ++ [.handle 0 (setLeOpcode .alive 2 (-1) (-1) 0)])
    (.handle 0 (sampleAppend 2 2 (-1) 2 (-1) (sampleChunk 9))) 0 rfl (by decide) (by decide)
    (by decide)
  rcases hentry with hkept | ⟨appended, hhistory, j, chunk, la, hmem, hle, -⟩
  · have hchunk := hkept.1
    revert hchunk
    decide
  · have hone : ((run (consensusInit (smallConfig 1 [2, 3]) zeroUninit) (firstCommit ++
          [.handle 0 (setLeOpcode .alive 2 (-1) (-1) 0)])).step
        (.handle 0 (sampleAppend 2 2 (-1) 2 (-1) (sampleChunk 9)))).smLog.history =
      [.append 0 (sampleChunk 9) 0] ++ (run (consensusInit (smallConfig 1 [2, 3]) zeroUninit)
        (firstCommit ++ [.handle 0 (setLeOpcode .alive 2 (-1) (-1) 0)])).smLog.history := by decide
    obtain rfl := List.append_cancel_right (hhistory.symm.trans hone)
    cases List.mem_singleton.mp hmem
    exact absurd hle (by decide)

end Node

end XlaneLkm
