import XlaneLkm.KvStore
import XlaneLkm.Library.RingLog

/-!
# The ring of entries and the log it stands for

The log is a ring of reused slots, guarded by valid flags only. What it stands for is an unbounded log:
the command last appended at each index, and the commands handed to user space so far. The operations
of the ring refine those of the unbounded log as long as no index is written a whole turn ahead of
`last_applied`.
-/

namespace XlaneLkm

open MachineInt RingLog

namespace SmLog

/-- The size of a log as every configuration has it. -/
def Sized (log : SmLog) : Prop := 0 < log.maxEntries ∧ log.maxEntries ≤ 2147483647

theorem Sized.u32_maxEntries {log : SmLog} (h : log.Sized) :
    u32 log.maxEntries = log.maxEntries.toNat :=
  u32_eq_toNat h.1.le (by have := h.2; omega)

theorem Sized.slot_eq {log : SmLog} (h : log.Sized) {i : Int} (hlow : 0 ≤ i) (hhigh : i < 4294967296) :
    log.slot i = i.toNat % log.maxEntries.toNat := by
  rw [slot, h.u32_maxEntries, u32_eq_toNat hlow hhigh]

/-- Indices that share a slot are at least the size of the log apart. -/
theorem Sized.add_le_of_slot_eq {log : SmLog} (h : log.Sized) {i j : Int} (hi : 0 ≤ i) (hij : i < j)
    (hj : j < 4294967296) (hslot : log.slot i = log.slot j) : i + log.maxEntries ≤ j := by
  rw [h.slot_eq hi (by omega), h.slot_eq (by omega) hj] at hslot
  have := RingLog.add_le_of_mod_eq (by omega) hslot
  omega

/-- Within one turn of the ring, every index has its slot to itself. -/
theorem Sized.eq_of_slot_eq {log : SmLog} (h : log.Sized) {i j : Int} (hi : 0 ≤ i) (hj : 0 ≤ j)
    (hij : i < j + log.maxEntries) (hji : j < i + log.maxEntries)
    (hhigh : i < 4294967296 ∧ j < 4294967296) (hslot : log.slot i = log.slot j) : i = j := by
  rcases lt_trichotomy i j with hlt | heq | hgt
  · have := h.add_le_of_slot_eq hi hlt hhigh.2 hslot
    omega
  · exact heq
  · have := h.add_le_of_slot_eq hj hgt hhigh.1 hslot.symm
    omega

theorem applied_entry_of_ne (log : SmLog) {i idx : Int} (h : log.slot i ≠ log.slot idx) :
    (log.applied idx).entry i = log.entry i :=
  Function.update_of_ne h _ _

theorem slot_ne_of_applied_valid (log : SmLog) {i idx : Int}
    (h : ((log.applied idx).entry i).valid = true) : log.slot i ≠ log.slot idx := by
  intro hslot
  have hinvalid : ((log.applied idx).entry i).valid = false := by
    simp only [applied, invalidate, entry, slot] at hslot ⊢
    rw [hslot, Function.update_self]
  exact absurd (hinvalid.symm.trans h) Bool.false_ne_true

theorem store_entry_self (log : SmLog) (chunk : DataChunk) (term : Int) {i idx : Int}
    (h : log.slot i = log.slot idx) : (log.store chunk term idx).entry i = ⟨true, u32 term, chunk⟩ := by
  simp only [entry, store, slot] at h ⊢
  rw [h, Function.update_self]

theorem store_entry_of_ne (log : SmLog) (chunk : DataChunk) (term : Int) {i idx : Int}
    (h : log.slot i ≠ log.slot idx) : (log.store chunk term idx).entry i = log.entry i := by
  simp only [entry, store, slot] at h ⊢
  rw [Function.update_of_ne h]

/-! ### The unbounded log -/

/-- The history, replayed on an unbounded log. -/
def abstract (log : SmLog) : UnboundedLog DataChunk :=
  log.history.foldr (fun action l =>
    match action with
    | .append idx chunk _ => l.append idx.toNat chunk
    | .apply _ chunk _ => l.apply chunk) .empty

/-- The command in a slot, if it is valid. -/
def live (log : SmLog) (k : Nat) : Option DataChunk :=
  if (log.entries k).valid then some (log.entries k).dataChunk else none

theorem live_store (log : SmLog) (chunk : DataChunk) (term idx : Int) :
    (log.store chunk term idx).live = Function.update log.live (log.slot idx) (some chunk) := by
  funext k
  by_cases hk : k = log.slot idx
  · subst hk
    simp only [live, store, Function.update_self, ↓reduceIte]
  · simp only [live, store, Function.update_of_ne hk]

theorem live_invalidate (log : SmLog) (i : Int) :
    (log.invalidate i).live = Function.update log.live (log.slot i) none := by
  funext k
  by_cases hk : k = log.slot i
  · subst hk
    simp only [live, invalidate, Function.update_self, Bool.false_eq_true, ↓reduceIte]
  · simp only [live, invalidate, Function.update_of_ne hk]

/-- The ring stands for the unbounded log of its history, applied in order up to `last_applied`. -/
structure Refines (log : SmLog) : Prop where
  sized : log.Sized
  applied : (log.abstract.applied.length : Int) = log.lastApplied + 1
  inOrder : log.abstract.InOrder
  shows : log.abstract.Shows log.maxEntries.toNat log.live

theorem refines_of_empty {log : SmLog} (hsized : log.Sized) (hhistory : log.history = [])
    (happlied : log.lastApplied = -1) (hempty : ∀ k, (log.entries k).valid = false) :
    log.Refines := by
  have habstract : log.abstract = .empty := by rw [abstract, hhistory, List.foldr_nil]
  refine ⟨hsized, ?_, ?_, ?_⟩
  · rw [habstract, happlied]
    rfl
  · rw [habstract]
    exact UnboundedLog.inOrder_empty
  · intro i a _ _ hlive
    simp [live, hempty] at hlive

variable {log : SmLog}

theorem Refines.store (h : log.Refines) (chunk : DataChunk) (term : Int) {idx : Int}
    (hlow : log.lastApplied < idx) (hhigh : idx ≤ log.lastApplied + log.maxEntries)
    (hle : idx < 4294967296) : (log.store chunk term idx).Refines := by
  have happlied := h.applied
  have hslot := h.sized.slot_eq (i := idx) (by omega) hle
  refine ⟨h.sized, h.applied, h.inOrder.append (by omega), ?_⟩
  have hshows := h.shows.append (a := chunk) (i := idx.toNat) (by omega) (by omega)
  rwa [← hslot, ← live_store log chunk term idx] at hshows

theorem Refines.apply (h : log.Refines) (hlt : log.lastApplied + 1 < 4294967296)
    (hvalid : (log.entry (log.lastApplied + 1)).valid = true) :
    (log.applied (log.lastApplied + 1)).Refines := by
  have happlied := h.applied
  have hslot := h.sized.slot_eq (i := log.lastApplied + 1) (by omega) hlt
  have hnext : (log.lastApplied + 1).toNat = log.abstract.applied.length := by omega
  rw [hnext] at hslot
  have hlive : log.live (log.abstract.applied.length % log.maxEntries.toNat) =
      some (log.entry (log.lastApplied + 1)).dataChunk := by
    rw [← hslot]
    exact if_pos hvalid
  have hcell := h.shows _ _ le_rfl (by have := h.sized.1; omega) hlive
  refine ⟨h.sized, ?_, h.inOrder.apply hcell, ?_⟩
  · change ((log.abstract.applied ++ [_]).length : Int) = log.lastApplied + 1 + 1
    rw [List.length_append, List.length_singleton]
    omega
  · have hshows := h.shows.apply (a := (log.entry (log.lastApplied + 1)).dataChunk)
    rwa [← hslot, ← live_invalidate log] at hshows

end SmLog

end XlaneLkm
