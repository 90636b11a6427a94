import Mathlib.Data.Nat.Size
import Mathlib.Data.Nat.Log
import Mathlib.Algebra.Order.Ring.Nat

/-!
# Rounding up to a power of two by smearing bits

The classical cascade `v |= v >> 1; v |= v >> 2; ...` copies the highest set bit
of `v` to every lower position. `SmearedBy w v x` says that `x` is `v` after the
cascade has covered `w` positions; one line of the cascade doubles `w`. When `w`
covers the whole word, `x` is one less than a power of two.
-/

namespace IpcBench.Lib

/-- Bit `i` of `x` is set exactly when `v` has a set bit among the `w` positions
from `i` upwards. -/
def SmearedBy (w v x : ℕ) : Prop :=
  ∀ i, x.testBit i = true ↔ ∃ j, i ≤ j ∧ j < i + w ∧ v.testBit j = true

/-- Before the cascade every bit covers itself. -/
theorem SmearedBy.refl (v : ℕ) : SmearedBy 1 v v := by
  intro i
  constructor
  · intro h
    exact ⟨i, le_rfl, by omega, h⟩
  · rintro ⟨j, hij, hji, h⟩
    obtain rfl : j = i := by omega
    exact h

/-- One line of the cascade doubles the number of positions covered. -/
theorem SmearedBy.double {w v x : ℕ} (h : SmearedBy w v x) :
    SmearedBy (2 * w) v (x ||| x >>> w) := by
  intro i
  rw [Nat.testBit_or, Nat.testBit_shiftRight, Bool.or_eq_true, h i, h (w + i)]
  constructor
  · rintro (⟨j, hij, hji, hj⟩ | ⟨j, hij, hji, hj⟩)
    · exact ⟨j, hij, by omega, hj⟩
    · exact ⟨j, by omega, by omega, hj⟩
  · rintro ⟨j, hij, hji, hj⟩
    by_cases hnear : j < i + w
    · exact Or.inl ⟨j, hij, hnear, hj⟩
    · exact Or.inr ⟨j, by omega, by omega, hj⟩

/-- One line `v |= v >> w` of the 32-bit cascade. -/
theorem SmearedBy.uint32_double {w v₀ : ℕ} {v k : UInt32} (h : SmearedBy w v₀ v.toNat)
    (hk : k.toNat = w) (hw : w < 32) : SmearedBy (2 * w) v₀ (v ||| v >>> k).toNat := by
  rw [UInt32.toNat_or, UInt32.toNat_shiftRight, hk, Nat.mod_eq_of_lt hw]
  exact h.double

/-- A cascade covering the whole word leaves all bits below the length of `v`
set and no others. -/
theorem SmearedBy.eq_two_pow_sub_one {w v x : ℕ} (h : SmearedBy w v x) (hv : v < 2 ^ w) :
    x = 2 ^ v.size - 1 := by
  apply Nat.eq_of_testBit_eq
  intro i
  rw [Nat.testBit_two_pow_sub_one, Bool.eq_iff_iff, decide_eq_true_eq, h i, Nat.lt_size]
  constructor
  · rintro ⟨j, hij, _, hj⟩
    exact (Nat.pow_le_pow_right (by omega) hij).trans (Nat.ge_two_pow_of_testBit hj)
  · intro hi
    obtain ⟨j, hij, hj⟩ := Nat.exists_ge_and_testBit_of_ge_two_pow hi
    have hjw : j < w :=
      (Nat.pow_lt_pow_iff_right (by omega)).mp ((Nat.ge_two_pow_of_testBit hj).trans_lt hv)
    exact ⟨j, hij, by omega, hj⟩

/-- The length of `n - 1` in bits is the exponent of the least power of two that
is at least `n`. -/
theorem size_sub_one_eq_clog {n : ℕ} (hn : 0 < n) : (n - 1).size = Nat.clog 2 n := by
  apply Nat.le_antisymm
  · rw [Nat.size_le]
    have h := Nat.le_pow_clog (b := 2) (by omega) n
    omega
  · apply Nat.clog_le_of_le_pow
    have h := Nat.lt_size_self (n - 1)
    omega

/-- A power of two is its own least power of two. -/
theorem two_pow_clog_of_isPowerOfTwo {n : ℕ} (hn : n.isPowerOfTwo) : 2 ^ Nat.clog 2 n = n := by
  obtain ⟨k, rfl⟩ := hn
  rw [Nat.clog_pow 2 k (by omega)]

end IpcBench.Lib
