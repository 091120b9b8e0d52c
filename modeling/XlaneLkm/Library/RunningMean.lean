import Mathlib.Algebra.BigOperators.Intervals
import Mathlib.Algebra.Order.BigOperators.Group.Finset
import Mathlib.Algebra.Order.Field.Rat
import Mathlib.Algebra.Order.Ring.Abs
import Mathlib.Algebra.Order.Ring.Int
import Mathlib.Tactic.Linarith
import Mathlib.Tactic.Ring

/-!
# A running mean in integers

The mean of a growing number of samples, moved at each sample by the deviation over the count, the
quotient truncated. What the truncation loses at the `k`-th sample is less than one in the mean but up
to `k - 1` in the sum, and nothing gives it back.
-/

namespace RunningMean

open Finset

/-- The mean after one more sample, the `k`-th. -/
def step (avg x : ℤ) (k : ℕ) : ℤ := avg + (x - avg).tdiv k

/-- The running mean of the first `k` samples. -/
def mean (d : ℕ → ℤ) : ℕ → ℤ
  | 0 => 0
  | k + 1 => step (mean d k) (d k) (k + 1)

def total (d : ℕ → ℤ) (k : ℕ) : ℤ := ∑ i ∈ range k, d i

variable {d : ℕ → ℤ} {avg x hi : ℤ} {i k m : ℕ}

@[simp]
theorem total_zero : total d 0 = 0 := sum_range_zero d

theorem total_succ : total d (k + 1) = total d k + d k := sum_range_succ d k

/-! ### One sample -/

theorem mul_step (avg x : ℤ) (k : ℕ) : k * step avg x k = k * avg + (x - avg) - (x - avg).tmod k := by
  have hdiv := Int.mul_tdiv_add_tmod (x - avg) k
  rw [step, mul_add]
  linarith

theorem abs_tmod_le (y : ℤ) (hk : 0 < k) : |y.tmod k| ≤ k - 1 := by
  have hlow : -(k : ℤ) < y.tmod k := Int.lt_tmod_of_pos y (by omega)
  have hhigh : y.tmod k < k := Int.tmod_lt_of_pos y (by omega)
  exact abs_le.mpr ⟨by omega, by omega⟩

/-- The mean moves towards the sample and not beyond it. -/
theorem step_between (avg x : ℤ) (hk : 0 < k) :
    avg ≤ step avg x k ∧ step avg x k ≤ x ∨ x ≤ step avg x k ∧ step avg x k ≤ avg := by
  rcases le_total avg x with hle | hle
  · left
    have hpos : 0 ≤ (x - avg).tdiv k := Int.tdiv_nonneg (by omega) (by omega)
    have hself : (x - avg).tdiv k ≤ x - avg := Int.tdiv_le_self _ (by omega)
    exact ⟨by rw [step]; omega, by rw [step]; omega⟩
  · right
    have hneg : (x - avg).tdiv k = -(avg - x).tdiv k := by rw [← Int.neg_tdiv, neg_sub]
    have hpos : 0 ≤ (avg - x).tdiv k := Int.tdiv_nonneg (by omega) (by omega)
    have hself : (avg - x).tdiv k ≤ avg - x := Int.tdiv_le_self _ (by omega)
    exact ⟨by rw [step]; omega, by rw [step]; omega⟩

/-- From above the sample the mean does not rise; from below it rises by less than its share. -/
theorem mul_step_le (hx : 0 ≤ x) (havg : 0 ≤ avg) (hi : i ≤ k) (hk : 0 < k) :
    i * step avg x k ≤ i * avg + x := by
  rcases le_total avg x with hle | hle
  · have hpos : 0 ≤ (x - avg).tdiv k := Int.tdiv_nonneg (by omega) (by omega)
    have hmod : 0 ≤ (x - avg).tmod k := Int.tmod_nonneg _ (by omega)
    have hdiv := Int.mul_tdiv_add_tmod (x - avg) k
    calc (i : ℤ) * step avg x k = i * avg + i * (x - avg).tdiv k := by rw [step, mul_add]
      _ ≤ i * avg + k * (x - avg).tdiv k := by gcongr
      _ ≤ i * avg + x := by omega
  · have hdown : step avg x k ≤ avg := by
      rcases step_between avg x hk with h | h
      · exact h.2.trans hle
      · exact h.2
    calc (i : ℤ) * step avg x k ≤ i * avg := by gcongr
      _ ≤ i * avg + x := by omega

/-! ### Any number of samples -/

theorem mean_nonneg (h : ∀ i < k, 0 ≤ d i) : 0 ≤ mean d k := by
  induction k with
  | zero => exact le_rfl
  | succ k ih =>
    have hprev := ih fun i hi => h i (Nat.lt_succ_of_lt hi)
    have hnew := h k (Nat.lt_succ_self k)
    rw [mean]
    rcases step_between (mean d k) (d k) (Nat.succ_pos k) with hbetween | hbetween
    · exact hprev.trans hbetween.1
    · exact hnew.trans hbetween.1

theorem mean_le (h : ∀ i < k, d i ≤ hi) (hhi : 0 ≤ hi) : mean d k ≤ hi := by
  induction k with
  | zero => exact hhi
  | succ k ih =>
    have hprev := ih fun i hi => h i (Nat.lt_succ_of_lt hi)
    have hnew := h k (Nat.lt_succ_self k)
    rw [mean]
    rcases step_between (mean d k) (d k) (Nat.succ_pos k) with hbetween | hbetween
    · exact hbetween.2.trans hnew
    · exact hbetween.2.trans hprev

/-- **Drift.** The running mean of `k` samples is off by at most `(k - 1) / 2`. -/
theorem abs_drift_le (d : ℕ → ℤ) (k : ℕ) : 2 * |k * mean d k - total d k| ≤ k * (k - 1) := by
  induction k with
  | zero => simp
  | succ k ih =>
    have hsplit : ((k + 1 : ℕ) : ℤ) * mean d (k + 1) - total d (k + 1) =
        (k * mean d k - total d k) - (d k - mean d k).tmod (k + 1 : ℕ) := by
      rw [mean, mul_step, total_succ]
      push_cast
      ring
    have hlost : |(d k - mean d k).tmod (k + 1 : ℕ)| ≤ k := by
      have hle := abs_tmod_le (d k - mean d k) (Nat.succ_pos k)
      push_cast at hle ⊢
      omega
    calc 2 * |((k + 1 : ℕ) : ℤ) * mean d (k + 1) - total d (k + 1)|
        ≤ 2 * (|k * mean d k - total d k| + |(d k - mean d k).tmod (k + 1 : ℕ)|) := by
          rw [hsplit]
          gcongr
          exact abs_sub _ _
      _ ≤ k * (k - 1) + 2 * k := by omega
      _ = ((k + 1 : ℕ) : ℤ) * ((k + 1 : ℕ) - 1) := by
          push_cast
          ring

/-- From the `i`-th sample on the mean rises by at most an `i`-th of what the samples add up to. -/
theorem mul_mean_le (hd : ∀ j < k, 0 ≤ d j) (hik : i ≤ k) :
    i * mean d k ≤ i * mean d i + (total d k - total d i) := by
  induction k, hik using Nat.le_induction with
  | base => omega
  | succ k hik ih =>
    have hnonneg : 0 ≤ mean d k := mean_nonneg fun j hj => hd j (Nat.lt_succ_of_lt hj)
    have hstep := mul_step_le (i := i) (hd k (Nat.lt_succ_self k)) hnonneg (hik.trans (Nat.le_succ k))
      (Nat.succ_pos k)
    calc (i : ℤ) * mean d (k + 1) ≤ i * mean d k + d k := hstep
      _ ≤ i * mean d i + (total d (k + 1) - total d i) := by
        rw [total_succ]
        linarith [ih fun j hj => hd j (Nat.lt_succ_of_lt hj)]

/-- The drift against the true mean. -/
theorem abs_mean_sub_le (d : ℕ → ℤ) (hk : 0 < k) :
    |(mean d k : ℚ) - total d k / k| ≤ (k - 1) / 2 := by
  have hpos : (0 : ℚ) < k := by exact_mod_cast hk
  have hdrift : 2 * |(k : ℚ) * mean d k - total d k| ≤ k * (k - 1) := by
    exact_mod_cast abs_drift_le d k
  have hscale : |(k : ℚ) * mean d k - total d k| = k * |(mean d k : ℚ) - total d k / k| := by
    rw [← abs_of_pos hpos, ← abs_mul, abs_of_pos hpos, mul_sub, mul_div_cancel₀ _ hpos.ne']
  rw [hscale] at hdrift
  have hhalf : k * |(mean d k : ℚ) - total d k / k| ≤ k * ((k - 1) / 2) := by linarith
  exact le_of_mul_le_mul_left hhalf hpos

/-- With a bound on what the samples add up to, the drift is bounded for any number of them: few samples
cannot drift far, and after many the mean is small, and the running mean with it. -/
theorem abs_mean_sub_le_of_total (hd : ∀ j < k, 0 ≤ d j) (hk : 0 < k) (hm : 0 < m)
    (htotal : total d k ≤ m * m) : |(mean d k : ℚ) - total d k / k| ≤ 3 * m / 2 := by
  have hmpos : (0 : ℚ) < m := by exact_mod_cast hm
  have hkpos : (0 : ℚ) < k := by exact_mod_cast hk
  rcases le_total k m with hkm | hmk
  · have hkm' : (k : ℚ) ≤ m := by exact_mod_cast hkm
    calc |(mean d k : ℚ) - total d k / k| ≤ (k - 1) / 2 := abs_mean_sub_le d hk
      _ ≤ 3 * m / 2 := by linarith
  · have hmk' : (m : ℚ) ≤ k := by exact_mod_cast hmk
    have hmean : (0 : ℚ) ≤ mean d k := by exact_mod_cast mean_nonneg hd
    have htrue : (0 : ℚ) ≤ total d k := by
      exact_mod_cast sum_nonneg fun j hj => hd j (mem_range.mp hj)
    have htotal' : (total d k : ℚ) ≤ m * m := by exact_mod_cast htotal
    have hsmall : (total d k : ℚ) / k ≤ m := by
      rw [div_le_iff₀ hkpos]
      exact htotal'.trans (by gcongr)
    have hlarge : (mean d k : ℚ) ≤ 3 * m / 2 := by
      have hdrift : 2 * (m * mean d m - total d m) ≤ m * (m - 1) :=
        (mul_le_mul_of_nonneg_left (le_abs_self _) zero_le_two).trans (abs_drift_le d m)
      have hrise := mul_mean_le hd hmk
      have hscaled : m * (2 * mean d k) ≤ m * (3 * m) := by
        calc (m : ℤ) * (2 * mean d k) ≤ 2 * (m * mean d m - total d m) + 2 * total d k := by linarith
          _ ≤ m * (m - 1) + 2 * (m * m) := by linarith
          _ ≤ m * (3 * m) := by linarith
      have hdouble : 2 * mean d k ≤ 3 * m := le_of_mul_le_mul_left hscaled (by exact_mod_cast hm)
      have hdouble' : (2 * mean d k : ℚ) ≤ 3 * m := by exact_mod_cast hdouble
      linarith
    have hquot : (0 : ℚ) ≤ total d k / k := div_nonneg htrue hkpos.le
    exact abs_le.mpr ⟨by linarith, by linarith⟩

/-- Samples that grow by one each time never move the mean. -/
theorem mean_of_growing (a : ℤ) (k : ℕ) : mean (fun i => a + i) (k + 1) = a := by
  induction k with
  | zero => simp [mean, step]
  | succ k ih =>
    rw [mean, ih, step, Int.tdiv_eq_zero_of_lt (by omega) (by omega), add_zero]

theorem total_of_growing (a : ℤ) (k : ℕ) :
    2 * total (fun i => a + i) k = k * (2 * a + (k - 1)) := by
  induction k with
  | zero => simp
  | succ k ih =>
    rw [total_succ, mul_add, ih]
    push_cast
    ring

end RunningMean
