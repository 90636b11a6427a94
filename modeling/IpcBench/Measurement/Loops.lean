import IpcBench.Eventfd.BiRefinement
import IpcBench.Signal.Refinement
import IpcBench.Uintrfd.BiRefinement
import IpcBench.Zeromq.Refinement

/-!
# What the benchmarks with a timed loop report

In `zeromq`, `eventfd-bi`, `uintrfd-bi` and `signal` the server measures its own turns. What
it reports is the same function of the readings of the clock in all of them, and the number of
samples is the number of turns it has finished.
-/

namespace IpcBench.Measurement

open Lib

/-- The benchmarks in which the server times its turns, with what each of them starts from. -/
inductive Loop where
  | zeromq {κ : Type} (calls : ReqRepCalls UInt8 κ) (connection : κ) (setup : Zeromq.Setup)
      (clientBuffer serverBuffer : List UInt8)
  | eventfdBi (count : ℕ)
  | uintrfdBi (count : ℕ)
  | signal (args : Arguments)

/-- `args->count`. -/
def Loop.count : Loop → ℕ
  | .zeromq _ _ setup _ _ => setup.count
  | .eventfdBi count | .uintrfdBi count => count
  | .signal args => args.count.toInt.toNat

/-- The library of `zeromq` keeps what is promised, the buffers have the size of the messages,
and where the count is an `int` it is positive. -/
def Loop.Ready : Loop → Prop
  | .zeromq calls connection setup clientBuffer serverBuffer =>
      (∃ known, calls.Documented known ∧ known connection = .empty) ∧
        clientBuffer.length = setup.size ∧ serverBuffer.length = setup.size
  | .eventfdBi _ | .uintrfdBi _ => True
  | .signal args => 0 < args.count

/-- Some run of the benchmark shows the events and leads to the given state of the loop. -/
def Loop.Shows (bench : Benchmarks) (events : List (Event UInt64))
    (x : TimedLoop UInt64 Benchmarks) : Loop → Prop
  | .zeromq calls connection setup clientBuffer serverBuffer =>
      ∃ s, Reaches (Zeromq.step calls setup) Zeromq.event
        (Zeromq.start setup connection clientBuffer serverBuffer bench) events s ∧
        Zeromq.view s = x
  | .eventfdBi count =>
      ∃ s, Reaches (EventfdBi.step count) EventfdBi.event (EventfdBi.start count bench) events s ∧
        EventfdBi.view s = x
  | .uintrfdBi count =>
      ∃ s, Reaches (UintrfdBi.step count) UintrfdBi.event (UintrfdBi.start count bench) events s ∧
        UintrfdBi.view s = x
  | .signal args =>
      ∃ s, Reaches (SignalBench.step args) SignalBench.event (SignalBench.loopStart args bench)
        events s ∧ SignalBench.view s = x

end IpcBench.Measurement
