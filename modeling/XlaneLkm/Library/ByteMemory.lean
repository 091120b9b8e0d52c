import Mathlib.Algebra.Order.Ring.Nat
import Mathlib.Logic.Function.Basic

/-!
# Numbers in a byte memory

A memory is a function from positions to bytes. A number of `k` bytes stands in it with its least
significant byte first.
-/

namespace ByteMemory

variable {m m' : Nat → UInt8} {p q k l v : Nat}

/-- The number in the `k` bytes from `p` on. -/
def read (m : Nat → UInt8) (p : Nat) : Nat → Nat
  | 0 => 0
  | k + 1 => (m p).toNat + 256 * read m (p + 1) k

/-- The memory with the `k` low bytes of `v` from `p` on. -/
def write (m : Nat → UInt8) (p k v : Nat) : Nat → UInt8 := fun q =>
  if p ≤ q ∧ q < p + k then UInt8.ofNat (v / 256 ^ (q - p)) else m q

/-- The memory with the first `k` of the given bytes from `p` on. -/
def copy (m : Nat → UInt8) (p k : Nat) (bytes : Nat → UInt8) : Nat → UInt8 := fun q =>
  if p ≤ q ∧ q < p + k then bytes (q - p) else m q

theorem write_outside (h : q < p ∨ p + k ≤ q) : write m p k v q = m q :=
  if_neg (by omega)

theorem read_congr (h : ∀ q, p ≤ q → q < p + k → m q = m' q) : read m p k = read m' p k := by
  induction k generalizing p with
  | zero => rfl
  | succ k ih =>
    have hfirst := h p le_rfl (by omega)
    have hrest : read m (p + 1) k = read m' (p + 1) k :=
      ih fun q hlow hhigh => h q (by omega) (by omega)
    simp only [read, hfirst, hrest]

theorem read_of_digits (h : ∀ i < k, (m (p + i)).toNat = v / 256 ^ i % 256) :
    read m p k = v % 256 ^ k := by
  induction k generalizing p v with
  | zero => rw [read, pow_zero, Nat.mod_one]
  | succ k ih =>
    have hfirst : (m p).toNat = v % 256 := by simpa using h 0 (Nat.succ_pos k)
    have hrest : read m (p + 1) k = v / 256 % 256 ^ k := ih fun i hi => by
      rw [Nat.div_div_eq_div_mul, ← pow_succ', ← h (i + 1) (by omega)]
      exact congrArg (fun q => (m q).toNat) (by omega)
    calc read m p (k + 1) = v % 256 + 256 * (v / 256 % 256 ^ k) := by rw [read, hfirst, hrest]
      _ = v % 256 ^ (k + 1) := by rw [pow_succ', Nat.mod_mul]

@[simp]
theorem read_write : read (write m p k v) p k = v % 256 ^ k := by
  refine read_of_digits fun i hi => ?_
  rw [write, if_pos (by omega), Nat.add_sub_cancel_left]
  exact UInt8.toNat_ofNat'

theorem read_write_of_disjoint (h : q + l ≤ p ∨ p + k ≤ q) :
    read (write m p k v) q l = read m q l :=
  read_congr fun _ _ _ => write_outside (by omega)

theorem read_lt : read m p k < 256 ^ k := by
  induction k generalizing p with
  | zero => exact Nat.one_pos
  | succ k ih =>
    have hbyte := (m p).toNat_lt
    have hrest := ih (p := p + 1)
    rw [read, pow_succ']
    omega

/-- A number has the bytes it is read from. -/
theorem eq_of_read_eq (h : read m p k = read m' p k) {i : Nat} (hi : i < k) :
    m (p + i) = m' (p + i) := by
  induction k generalizing p i with
  | zero => exact absurd hi (Nat.not_lt_zero i)
  | succ k ih =>
    have hbyte := (m p).toNat_lt
    have hbyte' := (m' p).toNat_lt
    rw [read, read] at h
    cases i with
    | zero => exact UInt8.toNat_inj.mp (by rw [Nat.add_zero]; omega)
    | succ i =>
      have hrest : read m (p + 1) k = read m' (p + 1) k := by omega
      rw [← Nat.add_assoc, Nat.add_right_comm]
      exact ih hrest (Nat.lt_of_succ_lt_succ hi)

theorem copy_outside {bytes : Nat → UInt8} (h : q < p ∨ p + k ≤ q) : copy m p k bytes q = m q :=
  if_neg (by omega)

theorem copy_inside {bytes : Nat → UInt8} {i : Nat} (h : i < k) :
    copy m p k bytes (p + i) = bytes i := by
  rw [copy, if_pos (by omega), Nat.add_sub_cancel_left]

theorem read_copy_of_disjoint {bytes : Nat → UInt8} (h : q + l ≤ p ∨ p + k ≤ q) :
    read (copy m p k bytes) q l = read m q l :=
  read_congr fun _ _ _ => copy_outside (by omega)

/-- A memory that starts later is read later. -/
theorem read_shift (m : Nat → UInt8) (p d k : Nat) : read (fun q => m (q - d)) (p + d) k = read m p k := by
  induction k generalizing p with
  | zero => rfl
  | succ k ih => rw [read, read, Nat.add_sub_cancel, Nat.add_right_comm, ih]

/-! ### Footprints -/

/-- The byte at `q` changes for some memory. -/
def Writes (f : (Nat → UInt8) → Nat → UInt8) (q : Nat) : Prop := ∃ m, f m q ≠ m q

/-- The byte at `q` makes a difference to `f` for some memory. -/
def Reads {β : Type*} (f : (Nat → UInt8) → β) (q : Nat) : Prop :=
  ∃ m b, f (Function.update m q b) ≠ f m

/-- What is overwritten whatever it was is written. -/
theorem writes_of_const {f : (Nat → UInt8) → Nat → UInt8} {b : UInt8} (h : ∀ m, f m q = b) :
    Writes f q := by
  refine ⟨fun _ => b + 1, ?_⟩
  rw [h]
  exact fun hb => absurd (UInt8.add_right_inj b |>.mp (hb.symm.trans (UInt8.add_zero b).symm)) (by decide)

end ByteMemory
