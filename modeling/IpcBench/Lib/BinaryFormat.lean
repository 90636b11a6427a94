import Mathlib.Algebra.Order.Floor.Ring
import Mathlib.Data.Int.Log
import Mathlib.Data.Rat.Floor
import Mathlib.Tactic.Linarith
import Mathlib.Tactic.NormNum
import Mathlib.Tactic.Positivity
import Mathlib.Tactic.Ring
import Mathlib.Tactic.FieldSimp

/-!
# Rational numbers in a binary floating-point format

The result of an operation is the exact one, rounded to `p` significant bits: to the nearest
multiple of a quantum that depends on the size of the result, to the even multiple if two are
equally near. The range of the exponents is not bounded here, and the numbers are positive or
zero.
-/

namespace IpcBench.Lib

/-- The nearest integer, the even one if two are equally near. -/
def nearestInt (x : ℚ) : ℤ :=
  if x - ⌊x⌋ < 1 / 2 then ⌊x⌋
  else if 1 / 2 < x - ⌊x⌋ then ⌊x⌋ + 1
  else ⌊x⌋ + ⌊x⌋ % 2

/-- The distance of the numbers of the format around `x`. -/
def quantum (p : ℕ) (x : ℚ) : ℚ := 2 ^ (Int.log 2 x + 1 - p)

/-- `x` rounded to `p` significant bits. -/
def roundBits (p : ℕ) (x : ℚ) : ℚ := nearestInt (x / quantum p x) * quantum p x

section Nearest

variable {x y : ℚ}

end Nearest

section Format

variable {p : ℕ} {x y : ℚ}

end Format

end IpcBench.Lib
