import Mathlib.Data.Int.Basic

/-!
# Fixed-width integers as integers

A `int32_t` is the integer it denotes, an `uint32_t` the natural number it denotes. `i32` and `u32`
are the conversions C applies wherever a value may leave its range, and `toU32` and `asI32` go to and
from the 32-bit pattern that stands in memory. `i64` and `u64` are the same for 64 bits.
-/

namespace MachineInt

/-- The unsigned 32-bit value of an integer. -/
def u32 (x : Int) : Nat := (x % 4294967296).toNat

/-- The signed 32-bit value of an integer (two's complement). -/
def i32 (x : Int) : Int := if u32 x < 2147483648 then u32 x else (u32 x : Int) - 4294967296

def toU32 (x : Int) : UInt32 := UInt32.ofNat (u32 x)

def asI32 (w : UInt32) : Int := i32 w.toNat

theorem i32_spec (x : Int) :
    -2147483648 ≤ i32 x ∧ i32 x ≤ 2147483647 ∧ ∃ k, i32 x = x + 4294967296 * k := by
  unfold i32 u32
  split
  · exact ⟨by omega, by omega, -(x / 4294967296), by omega⟩
  · exact ⟨by omega, by omega, -(x / 4294967296) - 1, by omega⟩

theorem i32_le (x : Int) : i32 x ≤ 2147483647 := (i32_spec x).2.1

theorem le_i32 (x : Int) : -2147483648 ≤ i32 x := (i32_spec x).1

theorem i32_eq_self {x : Int} (hlow : -2147483648 ≤ x) (hhigh : x ≤ 2147483647) :
    i32 x = x := by
  obtain ⟨hle, hge, k, hk⟩ := i32_spec x
  omega

theorem i32_eq_self_iff {x : Int} : i32 x = x ↔ -2147483648 ≤ x ∧ x ≤ 2147483647 := by
  constructor
  · intro h
    rw [← h]
    exact ⟨le_i32 x, i32_le x⟩
  · exact fun h => i32_eq_self h.1 h.2

@[simp]
theorem i32_i32 (x : Int) : i32 (i32 x) = i32 x :=
  i32_eq_self (le_i32 x) (i32_le x)

theorem i32_i32_add (x y : Int) : i32 (i32 x + y) = i32 (x + y) := by
  obtain ⟨_, _, k, hk⟩ := i32_spec x
  obtain ⟨_, _, k', hk'⟩ := i32_spec (i32 x + y)
  obtain ⟨_, _, k'', hk''⟩ := i32_spec (x + y)
  omega

theorem u32_lt (x : Int) : u32 x < 4294967296 := by
  unfold u32
  omega

@[simp]
theorem u32_i32 (x : Int) : u32 (i32 x) = u32 x := by
  obtain ⟨_, _, k, hk⟩ := i32_spec x
  unfold u32
  omega

@[simp]
theorem i32_u32 (x : Int) : i32 (u32 x) = i32 x := by
  obtain ⟨_, _, k, hk⟩ := i32_spec x
  obtain ⟨_, _, k', hk'⟩ := i32_spec (u32 x)
  unfold u32 at *
  omega

@[simp]
theorem u32_u32 (x : Int) : u32 (u32 x) = u32 x := by
  unfold u32
  omega

theorem u32_natCast {k : Nat} (h : k < 4294967296) : u32 k = k := by
  unfold u32
  omega

@[simp]
theorem u32_toNat (w : UInt32) : u32 w.toNat = w.toNat := u32_natCast w.toNat_lt

theorem u32_eq_toNat {x : Int} (hlow : 0 ≤ x) (hhigh : x < 4294967296) : u32 x = x.toNat := by
  unfold u32
  omega

@[simp]
theorem toU32_toNat (x : Int) : (toU32 x).toNat = u32 x := by
  have := u32_lt x
  simp only [toU32, UInt32.toNat_ofNat']
  omega

@[simp]
theorem asI32_toU32 (x : Int) : asI32 (toU32 x) = i32 x := by
  simp [asI32]

theorem asI32_le (w : UInt32) : asI32 w ≤ 2147483647 := i32_le _

theorem le_asI32 (w : UInt32) : -2147483648 ≤ asI32 w := le_i32 _

@[simp]
theorem u32_asI32 (w : UInt32) : u32 (asI32 w) = w.toNat := by
  have h : w.toNat < 4294967296 := w.toNat_lt
  simp only [asI32, u32_i32]
  unfold u32
  omega

/-! ### 64 bits -/

/-- The unsigned 64-bit value of an integer. -/
def u64 (x : Int) : Nat := (x % 18446744073709551616).toNat

/-- The signed 64-bit value of an integer (two's complement). -/
def i64 (x : Int) : Int :=
  if u64 x < 9223372036854775808 then u64 x else (u64 x : Int) - 18446744073709551616

theorem u64_lt (x : Int) : u64 x < 18446744073709551616 := by
  unfold u64
  omega

theorem u64_eq_toNat {x : Int} (hlow : 0 ≤ x) (hhigh : x < 18446744073709551616) :
    u64 x = x.toNat := by
  unfold u64
  omega

theorem i64_eq_self {x : Int} (hlow : -9223372036854775808 ≤ x) (hhigh : x < 9223372036854775808) :
    i64 x = x := by
  unfold i64 u64
  split <;> omega

theorem i64_neg {x : Int} (hlow : 9223372036854775808 ≤ x) (hhigh : x < 18446744073709551616) :
    i64 x < 0 := by
  unfold i64 u64
  split <;> omega

end MachineInt
