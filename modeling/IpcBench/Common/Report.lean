import IpcBench.Lib.BinaryFormat
import IpcBench.Common.Arguments
import IpcBench.Common.Clock
import IpcBench.Common.RoundTrip

/-!
# What `evaluate` prints

`evaluate` divides in `double` and prints three decimals. All it prints is a function of the
accumulator: the minimum and the maximum come out exactly, the average and the total are off
by what three decimals cannot show, and the message rate by the truncation to `int`.
-/

namespace IpcBench

open Lib

/-- A division of two numbers of type `double`. -/
def quotient (x y : ℚ) : ℚ := roundBits 53 (x / y)

/-- What `%.3f` prints, in thousandths. -/
def thousandths (x : ℚ) : ℤ := nearestInt (1000 * x)

/-- The conversion of a `double` to an `int` by truncation; it is undefined for numbers that
are out of range. -/
def toInt32? (x : ℚ) : Option Int32 :=
  let n := if 0 ≤ x then ⌊x⌋ else ⌈x⌉
  if -2 ^ 31 ≤ n ∧ n < 2 ^ 31 then some (.ofInt n) else none

/-- The lines that `evaluate` prints. The total is in thousandths of a millisecond, the other
durations in thousandths of a microsecond. -/
structure Figures where
  size : Int32
  count : Int32
  total : ℤ
  average : ℤ
  minimum : ℤ
  maximum : ℤ
  messageRate : Int32
  deriving DecidableEq, Repr

/-- `evaluate`; `none` when the assertion fails or the message rate is not a number of type
`int`, as it is after a division by zero. -/
def evaluate (bench : Benchmarks) (args : Arguments) : Option Figures :=
  if 0 < args.count then
    let sum : ℚ := double bench.sum.toNat
    let count : ℚ := bench.count.toInt
    if sum = 0 ∨ count = 0 then none
    else
      let average := quotient sum count
      (toInt32? (quotient count (quotient sum 1000000000))).map fun messageRate =>
        { size := args.size
          count := bench.count
          total := thousandths (quotient sum 1000000)
          average := thousandths (quotient average 1000)
          minimum := thousandths (quotient (double bench.minimum.toNat) 1000)
          maximum := thousandths (quotient (double bench.maximum.toNat) 1000)
          messageRate := messageRate }
  else none

section Quotient

variable {x y : ℚ} {m n : ℕ}

end Quotient

end IpcBench
