import Mathlib.Data.Finset.Card
import Mathlib.Data.List.Dedup

/-!
# Counting distinct voters

A counter of votes tells who voted only if no voter is counted twice.
-/

namespace Quorum

/-- As many distinct voters as the electorate has members are all of them. -/
theorem mem_of_nodup_of_length {voters : List Nat} {k : Nat} (hnodup : voters.Nodup)
    (hlt : ∀ v ∈ voters, v < k) (hlength : voters.length = k) {i : Nat} (hi : i < k) :
    i ∈ voters := by
  have hsubset : voters.toFinset ⊆ Finset.range k := fun v hv =>
    Finset.mem_range.mpr (hlt v (List.mem_toFinset.mp hv))
  have hcard : (Finset.range k).card ≤ voters.toFinset.card := by
    rw [List.toFinset_card_of_nodup hnodup, Finset.card_range, hlength]
  have heq := Finset.eq_of_subset_of_card_le hsubset hcard
  exact List.mem_toFinset.mp (heq ▸ Finset.mem_range.mpr hi)

/-- One more member has turned, and no other one. -/
theorem countP_turned {α : Type*} {p q : α → Bool} {electorate : List α} {a : α}
    (hnodup : electorate.Nodup) (ha : a ∈ electorate) (hbefore : p a = false) (hafter : q a = true)
    (hsame : ∀ b ∈ electorate, b ≠ a → q b = p b) :
    electorate.countP q = electorate.countP p + 1 := by
  induction electorate with
  | nil => exact absurd ha List.not_mem_nil
  | cons b rest ih =>
    obtain ⟨hb, hrest⟩ := List.nodup_cons.mp hnodup
    rw [List.countP_cons, List.countP_cons]
    by_cases hab : b = a
    · subst hab
      have hothers : rest.countP q = rest.countP p := List.countP_congr fun x hx => by
        rw [hsame x (List.mem_cons_of_mem b hx) fun heq => hb (heq ▸ hx)]
      rw [hothers, hbefore, hafter]
      rfl
    · have hlater := ih hrest ((List.mem_cons.mp ha).resolve_left fun heq => hab heq.symm)
        fun x hx => hsame x (List.mem_cons_of_mem b hx)
      rw [hlater, hsame b List.mem_cons_self hab]
      omega

end Quorum
