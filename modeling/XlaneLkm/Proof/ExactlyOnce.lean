import XlaneLkm.Proof.Replica
import XlaneLkm.Proof.RingPuts

/-!
# Exactly once, in order

What a node that never leads gives to user space, under any packets: index after index the command last
appended there, each put into the ring once.
-/

namespace XlaneLkm

structure SmLog.ExactlyOnce (log : SmLog) : Prop where
  order : log.IndexOrder
  valid : ∀ i, log.lastApplied < i → i ≤ log.stableIdx → (log.entry i).valid = true
  applied : log.abstract.applied.map some =
    (List.range (log.lastApplied + 1).toNat).map log.abstract.cell

namespace Node

/-- A node that never leads keeps its indices in order, holds every index between `last_applied` and
`stable_idx` in a valid slot, and has put into the ring to user space, in order and each once, the
commands last appended at the indices 0 to `last_applied`. -/
theorem applied_exactly_once (c : Config) (u : Uninit) (hunicast : c.multicastEnable = false)
    (events : List Event) (hleads : (run (consensusInit c u) events).hist.leads = [])
    (hring : (run (consensusInit c u) events).smLog.WithinRing) :
    (run (consensusInit c u) events).smLog.ExactlyOnce ∧
      Run.Yields step PutsIntoRing (consensusInit c u) events
        (run (consensusInit c u) events).smLog.abstract.applied := by
  have h := run_replica c u hunicast events hleads hring
  refine ⟨⟨⟨h.indexed.applied_le, h.commit_le, h.indexed.stable_le⟩, h.valid, ?_⟩,
    run_putsIntoRing c u events⟩
  rw [← h.refines.applied, Int.toNat_natCast]
  exact h.refines.inOrder

/-- The third node, with a ring of two slots. -/
def twoSlots : Config :=
  { smallConfig 3 [1, 2] with
    maxEntries := 2
    maxEntries_pos := by decide
    maxEntries_le := by decide }

/-- The third command goes into the slot of the first, which has been applied. -/
def secondTurn : List Event := following ++
  [.handle 0 (sampleAppend 1 1 0 1 0 (sampleChunk 8)),
    .handle 0 (sampleAppend 1 1 1 1 1 (sampleChunk 9)), .handle 0 (setLeOpcode .alive 1 2 (-1) 0)]

theorem applied_exactly_once_secondTurn :
    (run (consensusInit twoSlots zeroUninit) secondTurn).smLog.ExactlyOnce ∧
      Run.Yields step PutsIntoRing (consensusInit twoSlots zeroUninit) secondTurn
        (run (consensusInit twoSlots zeroUninit) secondTurn).smLog.abstract.applied :=
  applied_exactly_once twoSlots zeroUninit rfl secondTurn (by decide +kernel) (by decide +kernel)

end Node

end XlaneLkm
