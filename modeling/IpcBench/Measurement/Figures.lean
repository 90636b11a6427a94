import IpcBench.Common.Report
import IpcBench.Measurement.Transports

/-!
# What the request and reply benchmarks print

The client ends by `evaluate`. Whatever transported the timestamps, the printed figures are
those of the rounds, as long as they have taken any time at all: a clock that has not moved
makes `evaluate` divide by zero.
-/

namespace IpcBench.Measurement

open Lib

end IpcBench.Measurement
