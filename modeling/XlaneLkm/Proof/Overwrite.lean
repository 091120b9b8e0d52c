import XlaneLkm.Proof.ExactlyOnce

/-!
# Overwriting the ring

`append_command` stores into the slot of an index whatever the slot holds: its check for a valid entry
is commented out. Nothing on the way to it bounds how far an index runs ahead of `last_applied`,
neither the requests of clients nor an APPEND behind a gap. As long as an append ends at most a whole
turn above `last_applied`, and starts less than a turn below `last_idx`, no entry is lost.
-/

namespace XlaneLkm

open MachineInt

/-- The index last appended in the slot `k`. -/
def holder (slot : Int → Nat) (k : Nat) : List LogAction → Option Int
  | [] => none
  | .append idx _ _ :: earlier => if slot idx = k then some idx else holder slot k earlier
  | .apply _ _ _ :: earlier => holder slot k earlier

/-- Every append into a slot that held another index found that index applied. -/
def OverwritesApplied (slot : Int → Nat) : List LogAction → Prop
  | [] => True
  | .append idx _ lastApplied :: earlier =>
    (∀ i ∈ holder slot (slot idx) earlier, i ≠ idx → i ≤ lastApplied) ∧
      OverwritesApplied slot earlier
  | .apply _ _ _ :: earlier => OverwritesApplied slot earlier

instance OverwritesApplied.decidable (slot : Int → Nat) :
    (history : List LogAction) → Decidable (OverwritesApplied slot history)
  | [] => isTrue trivial
  | .append idx _ lastApplied :: earlier =>
    have := OverwritesApplied.decidable slot earlier
    inferInstanceAs (Decidable ((∀ i ∈ holder slot (slot idx) earlier, i ≠ idx → i ≤ lastApplied) ∧ _))
  | .apply _ _ _ :: earlier => OverwritesApplied.decidable slot earlier

theorem mem_of_holder {slot : Int → Nat} {k : Nat} {history : List LogAction} {i : Int}
    (h : i ∈ holder slot k history) :
    slot i = k ∧ ∃ chunk lastApplied, .append i chunk lastApplied ∈ history := by
  induction history with
  | nil => cases h
  | cons action earlier ih =>
    cases action with
    | append idx chunk lastApplied =>
      simp only [holder] at h
      split at h
      case isTrue hslot =>
        cases h
        exact ⟨hslot, chunk, lastApplied, List.mem_cons_self⟩
      case isFalse =>
        obtain ⟨hslot, chunk, lastApplied, hmem⟩ := ih h
        exact ⟨hslot, chunk, lastApplied, List.mem_cons_of_mem _ hmem⟩
    | apply idx chunk valid =>
      obtain ⟨hslot, chunk, lastApplied, hmem⟩ := ih h
      exact ⟨hslot, chunk, lastApplied, List.mem_cons_of_mem _ hmem⟩

namespace SmLog

/-- No append has overwritten an index that was not applied. -/
structure KeepsUnapplied (log : SmLog) : Prop where
  overwrites : OverwritesApplied log.slot log.history

instance (log : SmLog) : Decidable log.KeepsUnapplied :=
  decidable_of_iff (OverwritesApplied log.slot log.history) ⟨fun h => ⟨h⟩, fun h => h.1⟩

/-- On the way from the log `start`: the indices in the ring are those of the log. -/
structure RingInv (start log : SmLog) : Prop where
  sized : log.Sized
  maxEntries : log.maxEntries = start.maxEntries
  indexed : log.Indexed
  applied : start.lastApplied ≤ log.lastApplied
  commit : start.commitIdx ≤ log.commitIdx
  last : start.lastIdx ≤ log.lastIdx
  within : ∀ idx chunk lastApplied, .append idx chunk lastApplied ∈ log.history →
    0 ≤ idx ∧ idx ≤ log.lastIdx
  keeps : log.KeepsUnapplied

variable {start log log' : SmLog}

/-- An append near `last_applied` on one side and near `last_idx` on the other meets applied indices
only in its slot. -/
theorem RingInv.store (h : RingInv start log) (chunk : DataChunk) (term : Int) {idx : Int}
    (hlow : 0 ≤ idx) (hle : idx ≤ 2147483647) (hring : idx ≤ start.lastApplied + log.maxEntries)
    (hlast : log.lastIdx < idx + log.maxEntries) : RingInv start (log.store chunk term idx) := by
  have hmax : log.lastIdx ≤ (log.store chunk term idx).lastIdx := by
    rw [store_lastIdx]
    exact le_max_left _ _
  refine ⟨h.sized, h.maxEntries, h.indexed.store chunk term hle, h.applied, h.commit,
    h.last.trans hmax, ?_, ⟨?_, h.keeps.1⟩⟩
  · intro i chunk' lastApplied hmem
    rcases List.mem_cons.mp hmem with heq | hold
    · cases heq
      rw [store_lastIdx]
      exact ⟨hlow, le_max_right _ _⟩
    · obtain ⟨hpos, hi⟩ := h.within i chunk' lastApplied hold
      exact ⟨hpos, hi.trans hmax⟩
  · intro i hi hne
    obtain ⟨hslot, chunk', lastApplied, hmem⟩ := mem_of_holder hi
    have hslot : log.slot i = log.slot idx := hslot
    obtain ⟨hpos, hile⟩ := h.within i chunk' lastApplied hmem
    have := h.indexed.last_le
    have := h.applied
    by_contra hlt
    exact hne (h.sized.eq_of_slot_eq hpos hlow (by omega) (by omega) ⟨by omega, by omega⟩ hslot)

end SmLog

namespace Node

variable {s n : Node} {e : Event} {log log' : SmLog}

/-- What the event makes the node append stays within a turn of the ring, seen from `last_applied` and
from `last_idx`. -/
def staysInRing (n : Node) : Event → Prop
  | .handle lid pkt => n.takesAppend lid pkt → n.smLog.acceptsAppend pkt →
      pkt.startIdx + pkt.numEntries.toNat - 1 ≤ n.smLog.lastApplied + n.smLog.maxEntries ∧
        n.smLog.lastIdx < pkt.startIdx + n.smLog.maxEntries
  | .request chunks => n.priv.nstate = .leader → n.requestCount (.request chunks) ≠ 0 →
      n.smLog.lastIdx + n.requestCount (.request chunks) ≤ n.smLog.lastApplied + n.smLog.maxEntries
  | .oneShot chunks => n.priv.nstate = .leader → n.smLog.commitIdx ≤ 0 →
      n.requestCount (.oneShot chunks) ≠ 0 →
      n.requestCount (.oneShot chunks) - 1 ≤ n.smLog.lastApplied + n.smLog.maxEntries ∧
        n.smLog.lastIdx < n.smLog.maxEntries
  | _ => True

instance (n : Node) : (e : Event) → Decidable (n.staysInRing e)
  | .handle .. => inferInstanceAs (Decidable (_ → _ → _ ∧ _))
  | .request .. => inferInstanceAs (Decidable (_ → _ → _))
  | .oneShot .. => inferInstanceAs (Decidable (_ → _ → _ → _ ∧ _))
  | .rx .. | .tick | .work .. | .user .. | .leConfig .. | .pmStart | .pmStop | .pmHalt | .pmFail | .start
  | .stop => isTrue trivial

/-- A request for the next index of the log, or for one near its beginning. -/
theorem ringInv_request {idx : Int} (hs : s.smLog.Indexed) (hring : s.staysInRing e)
    (hlog : SmLog.RingInv s.smLog log) (chunk : DataChunk) (hrole : s.priv.nstate = .leader)
    (hle : idx ≤ 2147483647)
    (hnext : e.isOneShot = false → i32 s.smLog.lastIdx = s.smLog.lastIdx →
      -1 ≤ log.commitIdx → idx = log.lastIdx + 1)
    (hshot : ∀ chunks, e = .oneShot chunks →
      log.commitIdx ≤ 0 ∧ 0 ≤ idx ∧ chunks[idx.toNat]? = some chunk)
    (hasks : s.asksFor e idx) (hlast : log.lastIdx ≤ max s.smLog.lastIdx (idx - 1)) :
    SmLog.RingInv s.smLog (log.store chunk s.priv.term idx) := by
  obtain ⟨happlied, hcommit, hcommitLast, hstable, hstableLast, hmax⟩ := hs
  have := hlog.last
  have := hlog.commit
  have hsize := hlog.maxEntries
  have hpos := hlog.sized.1
  cases e with
  | request chunks =>
    have hidx := hnext rfl (i32_eq_self (by omega) hmax) (by omega)
    have hstart : i32 (s.smLog.lastIdx + 1) = s.smLog.lastIdx + 1 :=
      i32_eq_self (by omega) (by omega)
    have hasks : idx < i32 (s.smLog.lastIdx + 1) + s.requestCount (.request chunks) := hasks
    have hwithin := hring hrole (by omega)
    exact hlog.store chunk s.priv.term (by omega) hle (by omega) (by omega)
  | oneShot chunks =>
    obtain ⟨hzero, hlow, -⟩ := hshot chunks rfl
    have hasks : idx < s.requestCount (.oneShot chunks) := hasks
    obtain ⟨hend, hbegin⟩ := hring hrole (by omega) (by omega)
    exact hlog.store chunk s.priv.term hlow hle (by omega) (by omega)
  | _ => exact absurd hasks id

theorem ringInv_move (hunicast : s.sdev.multicastEnable = false) (hs : s.smLog.Indexed)
    (hring : s.staysInRing e) (h : LogMove s e log log') (hlog : SmLog.RingInv s.smLog log) :
    SmLog.RingInv s.smLog log' := by
  have hindexed := indexed_move hunicast h hlog.indexed
  have hcommit := hlog.commit.trans (h.commitIdx_le hunicast)
  have hlast := hlog.last.trans h.lastIdx_le
  cases h with
  | store lid pkt j he hlid h haccepts hj hle hstable hsame hnear =>
    subst he
    obtain ⟨hend, hbegin⟩ := hring h haccepts
    have hsize := hlog.maxEntries
    have hpos := hlog.sized.1
    have hlow := stable_lt_of_accepts haccepts (hs.le_applied.trans hs.applied_le) j
    have := hs.le_stable
    exact hlog.store _ _ (by omega) hle (by omega) (by omega)
  | request chunk idx hrole hguard hle hnext hshot hasks hnear =>
    exact ringInv_request hs hring hlog chunk hrole hle hnext hshot hasks hnear
  | apply h =>
    refine ⟨hlog.sized, hlog.maxEntries, hindexed, ?_, hcommit, hlast, ?_, ⟨hlog.keeps.1⟩⟩
    · exact hlog.applied.trans (Int.le_add_one le_rfl)
    · intro idx chunk lastApplied hmem
      rcases List.mem_cons.mp hmem with heq | hold
      · cases heq
      · exact hlog.within idx chunk lastApplied hold
  | leaderCommit lid pkt N he hlid h hN =>
    obtain ⟨entries, heq, -⟩ := s.smLog.leaderCommit_eq N
    have := hs.applied_le
    rw [heq] at hindexed hcommit hlast ⊢
    refine ⟨hlog.sized, hlog.maxEntries, hindexed, ?_, hcommit, hlast, hlog.within, ⟨hlog.keeps.1⟩⟩
    dsimp only
    split <;> omega
  | repair => exact hlog.indexed.repaired.symm ▸ hlog
  | multicast commitIdx h => rw [hunicast] at h; cases h
  | _ =>
    exact ⟨hlog.sized, hlog.maxEntries, hindexed, hlog.applied, hcommit, hlast, hlog.within, ⟨hlog.keeps.1⟩⟩

theorem ringInv_init (c : Config) (u : Uninit) :
    SmLog.RingInv (initLog u c.maxEntries) (initLog u c.maxEntries) where
  sized := ⟨c.maxEntries_pos, c.maxEntries_le⟩
  maxEntries := rfl
  indexed := SmLog.indexed_initLog u c.maxEntries
  applied := le_rfl
  commit := le_rfl
  last := le_rfl
  within := fun _ _ _ h => absurd h List.not_mem_nil
  keeps := ⟨trivial⟩

/-- **No unapplied entry is overwritten** in a run in which everything appended stays within a turn of
the ring. -/
theorem overwrites_applied (c : Config) (u : Uninit) (hunicast : c.multicastEnable = false)
    (events : List Event) (hmeets : Run.Meets step staysInRing (consensusInit c u) events) :
    (run (consensusInit c u) events).smLog.KeepsUnapplied := by
  have h := Run.invariant step
    (I := fun n => n.sdev.multicastEnable = false ∧ SmLog.RingInv n.smLog n.smLog)
    (fun n e hn hring => by
      have hstep := n.step_preserves_log e
        (fun _ _ => ringInv_move hn.1 hn.2.indexed hring) hn.2
      exact ⟨(multicastEnable_step n e).trans hn.1,
        { hstep with maxEntries := rfl, applied := le_rfl, commit := le_rfl, last := le_rfl }⟩)
    (s := consensusInit c u) ⟨hunicast, ringInv_init c u⟩ hmeets
  exact h.2.keeps

theorem overwrites_applied_secondTurn :
    (run (consensusInit twoSlots zeroUninit) secondTurn).smLog.KeepsUnapplied :=
  overwrites_applied twoSlots zeroUninit rfl secondTurn (by decide +kernel)

/-- The first node, with a ring of two slots. -/
def twoSlotsLeader : Config :=
  { smallConfig 1 [2, 3] with
    maxEntries := 2
    maxEntries_pos := twoSlots.maxEntries_pos
    maxEntries_le := twoSlots.maxEntries_le }

/-- Three requests before the first is confirmed. -/
def threeRequests : List Event := joining ++
  [.handle 0 (setLeOpcode .vote 1 0 0 0), .handle 1 (setLeOpcode .vote 1 0 0 0),
    .request [sampleChunk 7, sampleChunk 8, sampleChunk 9]]

theorem overwrites_unapplied :
    ¬ ∀ (c : Config) (u : Uninit) (events : List Event), c.multicastEnable = false →
      (run (consensusInit c u) events).smLog.KeepsUnapplied := by
  intro h
  have hkeeps := h twoSlotsLeader zeroUninit threeRequests rfl
  revert hkeeps
  decide +kernel

end Node

end XlaneLkm
