import Mathlib.Data.Int.ModEq
import Mathlib.Data.List.Basic

/-!
# A ring as a window onto an unbounded log

An unbounded log has a cell for every index and hands its cells out in order. A ring of `m` slots can
stand for it as long as only the `m` cells from the next one to hand out on are written: within that
window no two indices share a slot.
-/

namespace RingLog

/-- Indices that share a slot are a whole turn apart. -/
theorem add_le_of_mod_eq {m i j : Nat} (hlt : i < j) (h : i % m = j % m) : i + m ≤ j := by
  have hdvd : m ∣ j - i := (Nat.modEq_iff_dvd' hlt.le).mp h
  have hle := Nat.le_of_dvd (by omega) hdvd
  omega

theorem eq_of_mod_eq {m i j : Nat} (h : i % m = j % m) (hi : i < j + m) (hj : j < i + m) :
    i = j := by
  rcases lt_trichotomy i j with hlt | heq | hgt
  · have := add_le_of_mod_eq hlt h
    omega
  · exact heq
  · have := add_le_of_mod_eq hgt h.symm
    omega

structure UnboundedLog (α : Type*) where
  /-- The value last written at each index. -/
  cell : Nat → Option α
  /-- What has been handed out, oldest first. -/
  applied : List α

namespace UnboundedLog

variable {α : Type*} {l : UnboundedLog α} {i : Nat} {a : α}

def empty : UnboundedLog α := ⟨fun _ => none, []⟩

def append (l : UnboundedLog α) (i : Nat) (a : α) : UnboundedLog α :=
  { l with cell := Function.update l.cell i (some a) }

def apply (l : UnboundedLog α) (a : α) : UnboundedLog α :=
  { l with applied := l.applied ++ [a] }

/-- The cells 0, 1, 2, … have been handed out, in order and each once. -/
def InOrder (l : UnboundedLog α) : Prop :=
  l.applied.map some = (List.range l.applied.length).map l.cell

theorem inOrder_empty : InOrder (empty : UnboundedLog α) := rfl

theorem InOrder.append (h : InOrder l) (hi : l.applied.length ≤ i) : InOrder (l.append i a) := by
  rw [InOrder, UnboundedLog.append, h]
  refine List.map_congr_left fun k hk => (Function.update_of_ne ?_ _ _).symm
  have := List.mem_range.mp hk
  omega

theorem InOrder.apply (h : InOrder l) (ha : l.cell l.applied.length = some a) :
    InOrder (l.apply a) := by
  simp only [InOrder, UnboundedLog.apply, List.map_append, List.length_append, List.length_singleton,
    List.range_succ, List.map_cons, List.map_nil, ha]
  rw [h]

variable {m : Nat} {ring : Nat → Option α}

/-- What the ring holds in the window is what the log has there. -/
def Shows (m : Nat) (ring : Nat → Option α) (l : UnboundedLog α) : Prop :=
  ∀ i a, l.applied.length ≤ i → i < l.applied.length + m → ring (i % m) = some a → l.cell i = some a

theorem Shows.append (h : Shows m ring l) (hlow : l.applied.length ≤ i)
    (hhigh : i < l.applied.length + m) :
    Shows m (Function.update ring (i % m) (some a)) (l.append i a) := by
  intro k b hk hk' hring
  by_cases hki : k = i
  · subst hki
    rw [Function.update_self] at hring
    exact (Function.update_self _ _ _).trans hring
  · have hslot : k % m ≠ i % m := fun hmod => hki (eq_of_mod_eq hmod (by
      simp only [UnboundedLog.append] at hk'; omega) (by
      simp only [UnboundedLog.append] at hk; omega))
    rw [Function.update_of_ne hslot] at hring
    exact (Function.update_of_ne hki _ _).trans (h k b hk hk' hring)

theorem Shows.apply (h : Shows m ring l) :
    Shows m (Function.update ring (l.applied.length % m) none) (l.apply a) := by
  intro k b hk hk' hring
  simp only [UnboundedLog.apply, List.length_append, List.length_singleton] at hk hk'
  by_cases hslot : k % m = l.applied.length % m
  · rw [hslot, Function.update_self] at hring
    cases hring
  · rw [Function.update_of_ne hslot] at hring
    refine h k b (by omega) ?_ hring
    by_contra hlt
    have hk : k = l.applied.length + m := by omega
    exact hslot (by rw [hk, Nat.add_mod_right])

end UnboundedLog

end RingLog
