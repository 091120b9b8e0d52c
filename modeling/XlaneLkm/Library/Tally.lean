import Mathlib.Data.List.Basic
import Mathlib.Logic.Function.Basic

/-!
# Counting labels

The first `n` positions carry labels. How many carry a given one, and how that changes when one
position, or every position of a set, gets another label.
-/

namespace Tally

variable {α : Type*} {s s' : Nat → α} {n i : Nat} {a b : α} {T : Nat → Prop} [DecidablePred T]

/-- Every position of the set gets the label. -/
def relabel (T : Nat → Prop) [DecidablePred T] (b : α) (s : Nat → α) : Nat → α := fun i =>
  if T i then b else s i

theorem relabel_none (h : ∀ i, ¬T i) : relabel T b s = s := funext fun i => if_neg (h i)

theorem relabel_below_succ (b : α) (s : Nat → α) (n : Nat) :
    relabel (fun i => i < n + 1 ∧ T i) b s =
      if T n then Function.update (relabel (fun i => i < n ∧ T i) b s) n b
      else relabel (fun i => i < n ∧ T i) b s := by
  have hsame : ∀ i, (T i → i ≠ n) → relabel (fun i => i < n + 1 ∧ T i) b s i =
      relabel (fun i => i < n ∧ T i) b s i := by
    intro i hne
    have hiff : (i < n + 1 ∧ T i) ↔ (i < n ∧ T i) :=
      and_congr_left fun hi => ⟨fun hlt => by have := hne hi; omega, fun hlt => by omega⟩
    simp only [relabel, hiff]
  funext i
  split
  case isTrue hT =>
    by_cases hi : i = n
    · subst hi
      rw [Function.update_self]
      exact if_pos ⟨Nat.lt_succ_self i, hT⟩
    · rw [Function.update_of_ne hi]
      exact hsame i fun _ => hi
  case isFalse hT => exact hsame i fun hi heq => hT (heq ▸ hi)

theorem update_below (f s : Nat → α) (n : Nat) :
    Function.update (fun i => if i < n then f i else s i) n (f n) =
      fun i => if i < n + 1 then f i else s i := by
  funext i
  rcases Nat.lt_trichotomy i n with hlt | rfl | hgt
  · rw [Function.update_of_ne (by omega), if_pos hlt, if_pos (by omega)]
  · rw [Function.update_self, if_pos (by omega)]
  · rw [Function.update_of_ne (by omega), if_neg (by omega), if_neg (by omega)]

/-- A loop that labels the first `n` positions one after the other. -/
theorem foldl_update_range (f s : Nat → α) (n : Nat) :
    (List.range n).foldl (fun s i => Function.update s i (f i)) s = fun i => if i < n then f i else s i := by
  induction n with
  | zero => rfl
  | succ n ih =>
    rw [List.range_succ, List.foldl_append, ih]
    exact update_below f s n

variable [DecidableEq α]

/-- How many of the first `n` positions carry the label. -/
def tally (s : Nat → α) (n : Nat) (a : α) : Nat := (List.range n).countP fun i => s i = a

/-- How many of the positions of the set carry the label. -/
def tallyIn (T : Nat → Prop) [DecidablePred T] (s : Nat → α) (n : Nat) (a : α) : Nat :=
  (List.range n).countP fun i => T i ∧ s i = a

theorem tally_succ (s : Nat → α) (n : Nat) (a : α) :
    tally s (n + 1) a = tally s n a + if s n = a then 1 else 0 := by
  simp only [tally, List.range_succ, List.countP_append, List.countP_singleton, decide_eq_true_eq]

theorem tally_congr (h : ∀ i < n, s i = s' i) : tally s n a = tally s' n a :=
  List.countP_congr fun i hi => by rw [h i (List.mem_range.mp hi)]

theorem tally_update_of_le (h : n ≤ i) (b : α) : tally (Function.update s i b) n a = tally s n a :=
  tally_congr fun _ hj => Function.update_of_ne (by omega) _ _

/-- One position gives up its label for another one. -/
theorem tally_update (h : i < n) (b : α) :
    tally (Function.update s i b) n a + (if s i = a then 1 else 0) =
      tally s n a + if b = a then 1 else 0 := by
  induction n with
  | zero => omega
  | succ n ih =>
    rw [tally_succ, tally_succ]
    by_cases hi : i = n
    · subst hi
      rw [tally_update_of_le (Nat.le_refl i), Function.update_self]
      omega
    · rw [Function.update_of_ne (Ne.symm hi)]
      have := ih (by omega)
      omega

theorem tallyIn_succ (s : Nat → α) (n : Nat) (a : α) :
    tallyIn T s (n + 1) a = tallyIn T s n a + if T n ∧ s n = a then 1 else 0 := by
  simp only [tallyIn, List.range_succ, List.countP_append, List.countP_singleton,
    decide_eq_true_eq]

theorem tallyIn_eq_zero : tallyIn T s n a = 0 ↔ ∀ i < n, T i → s i ≠ a := by
  simp [tallyIn, List.countP_eq_zero]

/-- A label loses what the set holds of it. -/
theorem tally_relabel_of_ne (h : b ≠ a) :
    tally (relabel T b s) n a + tallyIn T s n a = tally s n a := by
  induction n with
  | zero => rfl
  | succ n ih =>
    rw [tally_succ, tally_succ, tallyIn_succ]
    by_cases hT : T n
    · rw [show relabel T b s n = b from if_pos hT, if_neg h]
      simp only [hT, true_and]
      omega
    · rw [show relabel T b s n = s n from if_neg hT]
      simp only [hT, false_and, if_false]
      omega

end Tally
