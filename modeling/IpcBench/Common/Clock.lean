import IpcBench.Lib.RoundToEven
import IpcBench.Common.Accumulator

/-!
# The clock of `common/benchmarks.c`

`now` multiplies the seconds by `1e9` and adds the nanoseconds, both as `double`. The product
is exact for the next ninety years, because `1e9` contains nine factors of two; the sum is
not. From 2006 to 2043 the time in nanoseconds lies between `2 ^ 60` and `2 ^ 61`, where the
numbers of the format are 256 apart, so every reading, every sample and every sum is a
multiple of 256 nanoseconds.
-/

namespace IpcBench

open Lib

/-- `struct timespec` as `timespec_get` fills it. -/
structure Timespec where
  sec : ℕ
  nsec : ℕ
  nsec_lt : nsec < 1000000000
  deriving DecidableEq, Repr

/-- The time that is meant. -/
def Timespec.nanoseconds (ts : Timespec) : ℕ := ts.sec * 1000000000 + ts.nsec

/-- A natural number as a `double`. -/
def double (n : ℕ) : ℕ := roundToEven 53 n

/-- `now`: the conversions to `double`, the product and the sum are rounded. -/
def now (ts : Timespec) : UInt64 :=
  .ofNat (double (double (double ts.sec * 1000000000) + double ts.nsec))

/-- The product of the seconds and `1e9` is exact. -/
def Timespec.InRange (ts : Timespec) : Prop := ts.sec * 1953125 < 2 ^ 53

/-- The time lies where the numbers of the format are 256 apart. -/
structure Timespec.Current (ts : Timespec) : Prop where
  low : 2 ^ 60 ≤ ts.nanoseconds
  high : ts.nanoseconds < 2 ^ 61

namespace Timespec

variable {ts ts' : Timespec}

theorem Current.inRange (h : ts.Current) : ts.InRange := by
  have hhigh := h.high
  unfold nanoseconds at hhigh
  have hsec : ts.sec < 2305843010 := by omega
  unfold InRange
  clear hhigh
  omega

theorem InRange.nanoseconds_lt (h : ts.InRange) : ts.nanoseconds < 2 ^ 63 := by
  have hnsec := ts.nsec_lt
  unfold InRange at h
  have hsec : ts.sec < 4611686019 := by omega
  unfold nanoseconds
  clear h
  omega

/-- Only the sum is rounded. -/
theorem InRange.double_eq (h : ts.InRange) :
    double (double (double ts.sec * 1000000000) + double ts.nsec) = double ts.nanoseconds := by
  have hnsec := ts.nsec_lt
  rw [InRange] at h
  have hsec : double ts.sec = ts.sec := roundToEven_of_lt (by omega)
  have hsmall : double ts.nsec = ts.nsec := roundToEven_of_lt (by omega)
  have hproduct : double (ts.sec * 1000000000) = ts.sec * 1000000000 := by
    have hexact := roundToEven_mul_two_pow (e := 9) h
    rwa [Nat.mul_assoc] at hexact
  rw [hsec, hproduct, hsmall, nanoseconds]

/-- The reading is the time as a `double`. -/
theorem InRange.toNat_now (h : ts.InRange) : (now ts).toNat = double ts.nanoseconds := by
  have hle : double ts.nanoseconds ≤ 2 ^ 63 := roundToEven_le_two_pow (by decide) h.nanoseconds_lt
  rw [now, h.double_eq, UInt64.toNat_ofNat']
  exact Nat.mod_eq_of_lt (by omega)

/-- A later time is not read as an earlier one. -/
theorem now_le_now (h : ts.InRange) (h' : ts'.InRange) (hle : ts.nanoseconds ≤ ts'.nanoseconds) :
    now ts ≤ now ts' := by
  rw [UInt64.le_iff_toNat_le, h.toNat_now, h'.toNat_now]
  exact roundToEven_mono (by decide) hle

end Timespec

/-- A round at two moments of the clock. -/
structure TimedRound where
  start : Timespec
  finish : Timespec
  ordered : start.nanoseconds ≤ finish.nanoseconds
  start_current : start.Current
  finish_current : finish.Current

namespace TimedRound

/-- The readings of the two moments. -/
def sample (r : TimedRound) : Sample :=
  ⟨now r.start, now r.finish,
    Timespec.now_le_now r.start_current.inRange r.finish_current.inRange r.ordered⟩

end TimedRound

/-- The samples of the rounds. -/
def samples (rounds : List TimedRound) : List Sample := rounds.map TimedRound.sample

/-- The clock of the benchmarks, for times before the year 2116: if the moments follow each
other, their readings do, and each reading is off by at most half the spacing of the format
around it. -/
theorem readings_of_moments (moments : List Timespec) (hrange : ∀ ts ∈ moments, ts.InRange)
    (hordered : moments.Pairwise fun ts ts' => ts.nanoseconds ≤ ts'.nanoseconds) :
    (moments.map now).Pairwise (· ≤ ·) ∧
      ∀ ts ∈ moments,
        2 * ts.nanoseconds ≤ 2 * (now ts).toNat + spacing 53 ts.nanoseconds ∧
          2 * (now ts).toNat ≤ 2 * ts.nanoseconds + spacing 53 ts.nanoseconds := by
  constructor
  · rw [List.pairwise_map]
    exact hordered.imp_of_mem fun hts hts' hle =>
      Timespec.now_le_now (hrange _ hts) (hrange _ hts') hle
  · intro ts hts
    rw [(hrange ts hts).toNat_now]
    exact nearestMultiple_error (spacing_pos 53 _) _

/-- Two moments two hundred nanoseconds apart are read as 256 nanoseconds apart. -/
theorem readings_of_moments_near :
    now ⟨1700000000, 0, by decide⟩ = 1700000000000000000 ∧
      now ⟨1700000000, 200, by decide⟩ = 1700000000000000256 ∧
      ([⟨1700000000, 0, by decide⟩, ⟨1700000000, 200, by decide⟩].map now).Pairwise (· ≤ ·) := by
  refine ⟨by decide +kernel, by decide +kernel, ?_⟩
  refine (readings_of_moments _ ?_ (by decide)).1
  simp [Timespec.InRange]

end IpcBench
