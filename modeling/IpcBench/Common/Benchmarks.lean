import Mathlib.Data.List.Basic

/-!
# The sample accumulator of `common/benchmarks.c`

`bench_t` is `unsigned long`, so the subtraction and the sum wrap at 64 bits;
`count` is an `int`. The readings of `now` are arguments: they come from the
system clock.
-/

namespace IpcBench

/-- `struct Benchmarks`. -/
structure Benchmarks where
  totalStart : UInt64
  singleStart : UInt64
  minimum : UInt64
  maximum : UInt64
  sum : UInt64
  squaredSum : UInt64
  count : Int32
  deriving DecidableEq, Repr

/-- `setup_benchmarks`: everything but `single_start` is set, the minimum to
`INT32_MAX`. -/
def setupBenchmarks (bench : Benchmarks) (now : UInt64) : Benchmarks :=
  { bench with
    minimum := 2147483647
    maximum := 0
    sum := 0
    squaredSum := 0
    totalStart := now
    count := 0 }

/-- `benchmark`: one more sample, the time since `single_start`. -/
def benchmark (bench : Benchmarks) (now : UInt64) : Benchmarks :=
  let time := now - bench.singleStart
  let bench := if time < bench.minimum then { bench with minimum := time } else bench
  let bench := if time > bench.maximum then { bench with maximum := time } else bench
  { bench with sum := bench.sum + time, count := bench.count + 1 }

@[simp] theorem setupBenchmarks_count (bench : Benchmarks) (now : UInt64) :
    (setupBenchmarks bench now).count = 0 := rfl

/-- Every sample is counted. -/
@[simp] theorem benchmark_count (bench : Benchmarks) (now : UInt64) :
    (benchmark bench now).count = bench.count + 1 := by
  unfold benchmark
  dsimp only
  split <;> split <;> rfl

/-- A sample leaves the timestamp it was taken from. -/
theorem benchmark_singleStart (bench : Benchmarks) (now : UInt64) :
    (benchmark bench now).singleStart = bench.singleStart := by
  unfold benchmark
  dsimp only
  split <;> split <;> rfl

/-- If the clock does not go back, the time between two of its readings does not wrap. -/
theorem no_wrap_of_readings {readings : List UInt64} (hclock : readings.Pairwise (· ≤ ·))
    {start now : UInt64} (hreadings : [start, now].Sublist readings) :
    start ≤ now ∧ (now - start).toNat = now.toNat - start.toNat := by
  have hle : start ≤ now := by
    simpa using hclock.sublist hreadings
  exact ⟨hle, UInt64.toNat_sub_of_le _ _ hle⟩

end IpcBench
