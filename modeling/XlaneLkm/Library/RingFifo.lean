import XlaneLkm.Library.RingLog
import Mathlib.Logic.Function.Basic

/-!
# A ring as a queue

A writer and a reader go round a ring of `m` slots. Counted from the start, the writer has made `w`
steps and the reader `r`; they stand at `w % m` and `r % m`. While fewer than `m` values are unread the
two positions and the knowledge who has turned over last tell how many values wait, and no unread
value is overwritten.
-/

namespace RingFifo

variable {α : Type*} {m k r w : Nat}

/-! ### Positions -/

/-- One step forward: to the next slot, or over the end to the first one. -/
theorem step_cases (hm : 0 < m) (k : Nat) :
    k % m + 1 = m ∧ (k + 1) % m = 0 ∧ (k + 1) / m = k / m + 1 ∨
      k % m + 1 < m ∧ (k + 1) % m = k % m + 1 ∧ (k + 1) / m = k / m := by
  have hk := Nat.div_add_mod k m
  have hlt := Nat.mod_lt k hm
  rcases Nat.lt_or_eq_of_le (Nat.succ_le_of_lt hlt) with hnext | hend
  · right
    have hsplit : k + 1 = m * (k / m) + (k % m + 1) := by omega
    refine ⟨hnext, ?_, ?_⟩
    · rw [hsplit, Nat.mul_add_mod, Nat.mod_eq_of_lt hnext]
    · rw [hsplit, Nat.mul_add_div hm, Nat.div_eq_of_lt hnext, Nat.add_zero]
  · left
    have hsplit : k + 1 = m * (k / m + 1) := by
      rw [Nat.mul_succ]
      omega
    exact ⟨hend, by rw [hsplit, Nat.mul_mod_right], by rw [hsplit, Nat.mul_div_cancel_left _ hm]⟩

/-- Less than a turn ahead, the writer is in the same turn as the reader, or in the next one and
then in front of it. -/
theorem turn_cases (hm : 0 < m) (hle : r ≤ w) (hlt : w < r + m) :
    w / m = r / m ∧ r % m ≤ w % m ∧ w + r % m = r + w % m ∨
      w / m = r / m + 1 ∧ w % m < r % m ∧ w + r % m = r + w % m + m := by
  have hw := Nat.div_add_mod w m
  have hr := Nat.div_add_mod r m
  have hwlt := Nat.mod_lt w hm
  have hrlt := Nat.mod_lt r hm
  have hlow : r / m ≤ w / m := Nat.div_le_div_right hle
  have hhigh : w / m ≤ r / m + 1 := by
    rw [← Nat.add_div_right r hm]
    exact Nat.div_le_div_right hlt.le
  rcases Nat.lt_or_eq_of_le hlow with hnext | hsame
  · right
    have hturn : w / m = r / m + 1 := by omega
    rw [hturn, Nat.mul_succ] at hw
    exact ⟨hturn, by omega, by omega⟩
  · left
    rw [← hsame] at hw
    exact ⟨hsame.symm, by omega, by omega⟩

/-! ### Contents -/

/-- The ring holds what has been written and not yet read, at most a turn of it. -/
structure Holds (m : Nat) (ring : Nat → α) (written : List α) (r : Nat) : Prop where
  pos : 0 < m
  le : r ≤ written.length
  room : written.length < r + m
  slot : ∀ k a, r ≤ k → written[k]? = some a → ring (k % m) = a

theorem holds_nil (hm : 0 < m) (ring : Nat → α) : Holds m ring [] 0 :=
  ⟨hm, le_rfl, by rw [List.length_nil]; omega, fun _ _ _ h => by simp at h⟩

variable {ring : Nat → α} {written : List α} {a : α}

/-- A new value does not meet an unread one. -/
theorem Holds.write (h : Holds m ring written r) (hroom : written.length + 1 < r + m) :
    Holds m (Function.update ring (written.length % m) a) (written ++ [a]) r := by
  have hle := h.le
  refine ⟨h.pos, ?_, ?_, fun k b hk hb => ?_⟩
  · rw [List.length_append]
    omega
  · rw [List.length_append, List.length_singleton]
    exact hroom
  by_cases hlast : k = written.length
  · subst hlast
    rw [Function.update_self]
    simpa using hb
  · have hlt : k < written.length := by
      have := (List.getElem?_eq_some_iff.mp hb).1
      rw [List.length_append, List.length_singleton] at this
      omega
    have hslot : k % m ≠ written.length % m := fun heq =>
      hlast (RingLog.eq_of_mod_eq heq (by omega) (by omega))
    rw [Function.update_of_ne hslot]
    exact h.slot k b hk (by rwa [List.getElem?_append_left hlt] at hb)

theorem Holds.front (h : Holds m ring written r) (hlt : r < written.length) :
    written[r]? = some (ring (r % m)) := by
  have hget := List.getElem?_eq_getElem hlt
  rw [hget, h.slot r _ le_rfl hget]

theorem Holds.read (h : Holds m ring written r) (hlt : r < written.length) :
    Holds m ring written (r + 1) :=
  ⟨h.pos, hlt, by have := h.room; omega, fun k a hk => h.slot k a (by omega)⟩

theorem Holds.position_eq_iff (h : Holds m ring written r) :
    r % m = written.length % m ↔ r = written.length := by
  have hle := h.le
  have hroom := h.room
  constructor
  · exact fun heq => RingLog.eq_of_mod_eq heq (by omega) hroom
  · exact fun heq => heq ▸ rfl

end RingFifo
