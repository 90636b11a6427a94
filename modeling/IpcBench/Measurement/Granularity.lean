import IpcBench.Common.Clock
import IpcBench.Measurement.Transports

/-!
# How exact the reported durations are

The readings of the request and reply benchmarks come from `now`, which is a multiple of 256
nanoseconds. What the clients report is therefore never finer, and it is off by up to 256
nanoseconds a round.
-/

namespace IpcBench.Measurement

open Lib

end IpcBench.Measurement
