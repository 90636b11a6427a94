import Mathlib.Algebra.Order.BigOperators.Group.List
import Mathlib.Algebra.Order.Ring.Nat
import Mathlib.Algebra.Group.Action.Defs
import Mathlib.Order.Bounds.Defs
import IpcBench.Lib.Extremes
import IpcBench.Lib.IntCounter
import IpcBench.Common.Benchmarks

/-!
# What the sample accumulator has seen

`setup_benchmarks` starts the maximum and the sum at zero, which is neutral for every
sample. It starts the minimum at `INT32_MAX`, although the samples have 64 bits: if all of
them are larger, about two seconds each, the minimum is none of them.
-/

namespace IpcBench

open Lib

/-- One round as the accumulator sees it: what is stored into `single_start`, and a later
reading of the clock. -/
structure Sample where
  start : UInt64
  now : UInt64
  ordered : start ≤ now
  deriving DecidableEq, Repr

/-- The time between the two readings. -/
def Sample.time (s : Sample) : ℕ := s.now.toNat - s.start.toNat

/-- A round stores its start and calls `benchmark`. -/
def record (bench : Benchmarks) (s : Sample) : Benchmarks :=
  benchmark { bench with singleStart := s.start } s.now

/-- `setup_benchmarks` and then one round per sample. -/
def accumulate (bench : Benchmarks) (now : UInt64) (samples : List Sample) : Benchmarks :=
  samples.foldl record (setupBenchmarks bench now)

/-- The times of the samples. -/
def times (samples : List Sample) : List ℕ := samples.map Sample.time

/-- The subtraction of `benchmark` does not wrap. -/
theorem Sample.toNat_sub (s : Sample) : (s.now - s.start).toNat = s.time :=
  UInt64.toNat_sub_of_le _ _ s.ordered

theorem benchmark_minimum (bench : Benchmarks) (now : UInt64) :
    (benchmark bench now).minimum =
      if now - bench.singleStart < bench.minimum then now - bench.singleStart
      else bench.minimum := by
  simp only [benchmark]
  split <;> split <;> rfl

theorem benchmark_maximum (bench : Benchmarks) (now : UInt64) :
    (benchmark bench now).maximum =
      if now - bench.singleStart > bench.maximum then now - bench.singleStart
      else bench.maximum := by
  simp only [benchmark]
  split
  · dsimp only
    split <;> rfl
  · split <;> rfl

theorem benchmark_sum (bench : Benchmarks) (now : UInt64) :
    (benchmark bench now).sum = bench.sum + (now - bench.singleStart) := by
  simp only [benchmark]
  split <;> split <;> rfl

/-- A round takes the smaller one of the minimum and its time. -/
theorem minimum_record (bench : Benchmarks) (s : Sample) :
    (record bench s).minimum.toNat = min bench.minimum.toNat s.time := by
  rw [record, benchmark_minimum, ← s.toNat_sub]
  by_cases hless : s.now - s.start < bench.minimum
  · have hnat := UInt64.lt_iff_toNat_lt.mp hless
    rw [if_pos hless, Nat.min_eq_right hnat.le]
  · have hnat := mt UInt64.lt_iff_toNat_lt.mpr hless
    rw [if_neg hless, Nat.min_eq_left (Nat.le_of_not_lt hnat)]

/-- A round takes the larger one of the maximum and its time. -/
theorem maximum_record (bench : Benchmarks) (s : Sample) :
    (record bench s).maximum.toNat = max bench.maximum.toNat s.time := by
  rw [record, benchmark_maximum, ← s.toNat_sub]
  by_cases hmore : s.now - s.start > bench.maximum
  · have hnat := UInt64.lt_iff_toNat_lt.mp hmore
    rw [if_pos hmore, Nat.max_eq_right hnat.le]
  · have hnat := mt UInt64.lt_iff_toNat_lt.mpr hmore
    rw [if_neg hmore, Nat.max_eq_left (Nat.le_of_not_lt hnat)]

/-- A round adds its time. -/
theorem sum_record (bench : Benchmarks) (s : Sample) :
    (record bench s).sum = bench.sum + (s.now - s.start) :=
  benchmark_sum _ _

/-- A round is counted. -/
theorem count_record (bench : Benchmarks) (s : Sample) :
    (record bench s).count = bench.count + 1 :=
  benchmark_count _ _

/-- The minimum after any number of rounds. -/
theorem minimum_foldl (samples : List Sample) (bench : Benchmarks) :
    (samples.foldl record bench).minimum.toNat =
      (times samples).foldl min bench.minimum.toNat := by
  induction samples generalizing bench with
  | nil => rfl
  | cons s samples ih =>
    rw [List.foldl_cons, ih, minimum_record, times, times, List.map_cons, List.foldl_cons]

/-- The maximum after any number of rounds. -/
theorem maximum_foldl (samples : List Sample) (bench : Benchmarks) :
    (samples.foldl record bench).maximum.toNat =
      (times samples).foldl max bench.maximum.toNat := by
  induction samples generalizing bench with
  | nil => rfl
  | cons s samples ih =>
    rw [List.foldl_cons, ih, maximum_record, times, times, List.map_cons, List.foldl_cons]

/-- As long as the total fits into 64 bits, the sum is the total. -/
theorem sum_foldl (samples : List Sample) (bench : Benchmarks)
    (hfit : bench.sum.toNat + (times samples).sum < 2 ^ 64) :
    (samples.foldl record bench).sum.toNat = bench.sum.toNat + (times samples).sum := by
  induction samples generalizing bench with
  | nil => rfl
  | cons s samples ih =>
    rw [times, List.map_cons, List.sum_cons] at hfit
    have hnext : (record bench s).sum.toNat = bench.sum.toNat + s.time := by
      rw [sum_record, UInt64.toNat_add, s.toNat_sub]
      exact Nat.mod_eq_of_lt (by omega)
    rw [List.foldl_cons, ih _ (by rw [hnext, times]; omega), hnext, times, times, List.map_cons,
      List.sum_cons, Nat.add_assoc]

/-- As long as the number of rounds fits into an `int`, the count is that number. -/
theorem count_foldl (samples : List Sample) (bench : Benchmarks)
    (hfit : bench.count.toInt + samples.length < 2 ^ 31) :
    (samples.foldl record bench).count.toInt = bench.count.toInt + samples.length := by
  induction samples generalizing bench with
  | nil => simp
  | cons s samples ih =>
    rw [List.length_cons, Int.natCast_add, Int.natCast_one] at hfit
    have hnext : (record bench s).count.toInt = bench.count.toInt + 1 := by
      rw [count_record]
      exact toInt_add_one (by omega)
    rw [List.foldl_cons, ih _ (by rw [hnext]; omega), hnext, List.length_cons, Int.natCast_add,
      Int.natCast_one]
    omega

/-- The accumulator describes the samples: minimum, maximum, sum and count are theirs, and
the sum lies between the count times the minimum and the count times the maximum. -/
structure Describes (bench : Benchmarks) (samples : List Sample) : Prop where
  minimum : IsLeast {t | t ∈ times samples} bench.minimum.toNat
  maximum : IsGreatest {t | t ∈ times samples} bench.maximum.toNat
  sum : bench.sum.toNat = (times samples).sum
  count : bench.count.toInt = samples.length
  bounds : (bench.minimum.toNat : ℤ) * bench.count.toInt ≤ bench.sum.toNat ∧
    (bench.sum.toNat : ℤ) ≤ bench.maximum.toNat * bench.count.toInt

/-- A least element below every time and a greatest one above bound the total. -/
theorem sum_times_bounds {samples : List Sample} {low high : ℕ}
    (hlow : ∀ t ∈ times samples, low ≤ t) (hhigh : ∀ t ∈ times samples, t ≤ high) :
    low * samples.length ≤ (times samples).sum ∧
      (times samples).sum ≤ high * samples.length := by
  have hlength : (times samples).length = samples.length := List.length_map _
  have hfirst := List.card_nsmul_le_sum (times samples) low hlow
  have hsecond := List.sum_le_card_nsmul (times samples) high hhigh
  rw [hlength, smul_eq_mul, Nat.mul_comm] at hfirst hsecond
  exact ⟨hfirst, hsecond⟩

/-- The sample accumulator, for every nonempty sequence of samples whose number fits into an
`int` and whose total fits into 64 bits: it describes the samples if and only if one of them
is at most `INT32_MAX`. -/
theorem accumulate_describes_iff (bench : Benchmarks) (now : UInt64) (samples : List Sample)
    (hcount : samples.length < 2 ^ 31)
    (htotal : (times samples).sum < 2 ^ 64) :
    Describes (accumulate bench now samples) samples ↔
      ∃ t ∈ times samples, t ≤ 2147483647 := by
  have hminimum : IsLeast {t | t ∈ times samples} (accumulate bench now samples).minimum.toNat ↔
      ∃ t ∈ times samples, t ≤ 2147483647 := by
    rw [accumulate, minimum_foldl]
    exact isLeast_foldl_min_iff
  have hmaximum : IsGreatest {t | t ∈ times samples} (accumulate bench now samples).maximum.toNat ↔
      ∃ t ∈ times samples, 0 ≤ t := by
    rw [accumulate, maximum_foldl]
    exact isGreatest_foldl_max_iff
  have hsum := sum_foldl samples (setupBenchmarks bench now)
    (by simpa [setupBenchmarks] using htotal)
  have hcounted := count_foldl samples (setupBenchmarks bench now)
    (by rw [setupBenchmarks_count, Int32.toInt_zero]; omega)
  rw [setupBenchmarks_count, Int32.toInt_zero, Int.zero_add] at hcounted
  rw [show (setupBenchmarks bench now).sum.toNat = 0 from rfl, Nat.zero_add] at hsum
  constructor
  · intro h
    exact hminimum.mp h.minimum
  · intro hsmall
    have hleast := hminimum.mpr hsmall
    -- the initial maximum is zero, so it never hides a sample
    have hgreatest := hmaximum.mpr (hsmall.imp fun t ht => ⟨ht.1, Nat.zero_le t⟩)
    obtain ⟨hlow, hhigh⟩ := sum_times_bounds hleast.2 hgreatest.2
    refine ⟨hleast, hgreatest, hsum, hcounted, ?_⟩
    rw [accumulate, hsum, hcounted]
    exact_mod_cast And.intro hlow hhigh

/-- Two samples of a few nanoseconds. -/
theorem accumulate_describes_iff_short_samples :
    Describes (accumulate ⟨0, 0, 0, 0, 0, 0, 0⟩ 5
        [⟨10, 25, by decide⟩, ⟨30, 70, by decide⟩])
      [⟨10, 25, by decide⟩, ⟨30, 70, by decide⟩] :=
  (accumulate_describes_iff _ 5 _ (by decide) (by decide)).mpr ⟨15, by decide, by decide⟩

/-- A single sample of three seconds: the minimum stays at `INT32_MAX`. -/
theorem minimum_of_long_sample :
    times [⟨0, 3000000000, by decide⟩] = [3000000000] ∧
      (accumulate ⟨0, 0, 0, 0, 0, 0, 0⟩ 5 [⟨0, 3000000000, by decide⟩]).minimum = 2147483647 ∧
      ¬ Describes (accumulate ⟨0, 0, 0, 0, 0, 0, 0⟩ 5 [⟨0, 3000000000, by decide⟩])
        [⟨0, 3000000000, by decide⟩] := by
  refine ⟨by decide, by decide, fun h => ?_⟩
  have hmem := h.minimum.1
  exact absurd hmem (by decide)

end IpcBench
