import IpcBench.Lib.TimedLoop
import IpcBench.Common.Accumulator

/-!
# What a measured exchange is for

The clients of the request and reply benchmarks store the timestamp they receive into
`single_start` and call `benchmark`. Whatever transports the timestamps, the rounds of a
client follow each other, so their times do not overlap: with a clock that does not go back,
what `evaluate` prints as the total duration fits into the time since `setup_benchmarks`.
-/

namespace IpcBench

open Lib

/-- What is received goes to `single_start`. -/
def storeStart (bench : Benchmarks) (value : UInt64) : Benchmarks :=
  { bench with singleStart := value }

/-- The client of an exchange, with nothing of how the timestamps are transported. -/
def measured : Exchange UInt64 Benchmarks → Event UInt64 → Option (Exchange UInt64 Benchmarks) :=
  Exchange.next storeStart benchmark

/-- The two readings of a sample. -/
def Sample.readings (s : Sample) : UInt64 × UInt64 := (s.start, s.now)

/-- The side that times each turn of its loop, with nothing of what it does in a turn. -/
def timed (count : ℕ) :
    TimedLoop UInt64 Benchmarks → Event UInt64 → Option (TimedLoop UInt64 Benchmarks) :=
  TimedLoop.next storeStart benchmark count

/-- The loop of a server as its variables show it: in a turn, `single_start` contains the
first reading. -/
def turnView (inTurn : Bool) (message : ℕ) (bench : Benchmarks) : TimedLoop UInt64 Benchmarks :=
  ⟨if inTurn then some bench.singleStart else none, message, bench⟩

section TurnView

variable {count message : ℕ} {bench : Benchmarks}

/-- The first reading of a turn. -/
theorem run_timed_stamp (hmore : message < count) (now : UInt64) :
    run (timed count) (turnView false message bench) [.stamp now] =
      some (turnView true message (storeStart bench now)) := by
  simp [run, turnView, timed, TimedLoop.next, storeStart, hmore]

/-- The second reading of a turn. -/
theorem run_timed_sample (now : UInt64) :
    run (timed count) (turnView true message bench) [.sample now] =
      some (turnView false (message + 1) (benchmark bench now)) := by
  simp [run, turnView, timed, TimedLoop.next]

/-- No turn has begun when the server is between two of them. -/
theorem turnView_eq_none {inTurn : Bool} (h : (turnView inTurn message bench).begun = none) :
    inTurn = false := by
  cases inTurn with
  | false => rfl
  | true => cases h

/-- A turn has begun when the server is in one. -/
theorem turnView_eq_some {inTurn : Bool} {start : UInt64}
    (h : (turnView inTurn message bench).begun = some start) : inTurn = true := by
  cases inTurn with
  | true => rfl
  | false => cases h

end TurnView

end IpcBench
