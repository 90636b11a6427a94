import Mathlib.Data.Int.Basic

/-!
# Counters of type `int`

A signed 32-bit counter that moves by one below a bound, or above zero, does not
overflow, so it counts like an integer.
-/

namespace IpcBench.Lib

/-- A positive `int` is a positive integer. -/
theorem toInt_pos {x : Int32} (h : 0 < x) : 0 < x.toInt := by
  rwa [Int32.lt_iff_toInt_lt, Int32.toInt_zero] at h

/-- An `int` from one on is positive. -/
theorem pos_of_one_le {x : Int32} (h : 1 ≤ x) : 0 < x := by
  rw [Int32.lt_iff_toInt_lt]
  exact Int.lt_of_lt_of_le (by decide) (Int32.le_iff_toInt_le.mp h)

/-- Counting up below the largest value. -/
theorem toInt_add_one {x : Int32} (h : x.toInt < 2147483647) : (x + 1).toInt = x.toInt + 1 := by
  have hlow := x.le_toInt
  rw [Int32.toInt_add, show (1 : Int32).toInt = 1 from rfl]
  apply Int.bmod_eq_of_le <;> omega

/-- Counting down above zero. -/
theorem toInt_sub_one {x : Int32} (h : 0 < x) : (x - 1).toInt = x.toInt - 1 := by
  have hlow := toInt_pos h
  have hhigh := x.toInt_lt
  rw [Int32.toInt_sub, show (1 : Int32).toInt = 1 from rfl]
  apply Int.bmod_eq_of_le <;> omega

/-- A counter of type `unsigned int` is compared with a positive `int` as an integer. -/
theorem lt_toUInt32_iff {n : UInt32} {x : Int32} (h : 0 < x) :
    n < x.toUInt32 ↔ (n.toNat : ℤ) < x.toInt := by
  have hle : (0 : Int32) ≤ x := Int32.le_of_lt h
  rw [UInt32.lt_iff_toNat_lt, Int32.toNat_toUInt32_of_le hle, ← Int32.cast_toNatClampNeg x hle,
    Int.ofNat_lt]

end IpcBench.Lib
