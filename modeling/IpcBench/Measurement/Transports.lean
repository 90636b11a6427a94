import IpcBench.Domain.Refinement
import IpcBench.Guard.Refinement
import IpcBench.Mq.Refinement
import IpcBench.Stream.Refinement
import IpcBench.Tcp.Refinement

/-!
# What the request and reply benchmarks report

The benchmarks over shared memory, a mapped file, a message queue, a fifo, a pipe and the two
kinds of sockets differ in how a timestamp comes from the server to the client. What their clients
report is the same function of the readings of the clock, so it is established once for all
of them.
-/

namespace IpcBench.Measurement

open Lib

/-- The benchmarks in which a client asks for timestamps, with what each of them starts
from. -/
inductive Transport where
  | region (tokens : Guard.Tokens) (guard : UInt8) (payload : List UInt8)
  | queue (limits : QueueLimits) (size : ℕ) (atClient atServer : Mq.Message)
  | stream (b : Stream.Benchmark)
  | tcp (setup : Tcp.Setup) (clientErrno serverErrno : ℤ) (buffer : List UInt8)
  | domain (setup : Tcp.Setup) (clientErrno serverErrno : ℤ) (buffer : List UInt8)

/-- What the system and the earlier runs must have left: a region without a stale token, a
queue that lets a message through, messages of at least one byte. -/
def Transport.Ready : Transport → Prop
  | .region tokens guard payload =>
      tokens ∈ [Guard.shm, Guard.mmap] ∧ payload.length = 8 ∧ guard ≠ tokens.serverWait
  | .queue limits size _ _ => Mq.Admissible limits ∧ size ≤ Mq.maximumMessageSize
  | .stream _ => True
  | .tcp setup _ _ _ | .domain setup _ _ _ => 1 ≤ setup.size

/-- Two rounds, after which the client leaves. -/
def twoRounds : List (Event UInt64) :=
  [.ask, .stamp 200, .receive 200, .sample 250, .ask, .stamp 300, .receive 300, .sample 370, .leave]

end IpcBench.Measurement
