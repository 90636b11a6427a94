import IpcBench.Common.KfifoBounds
import IpcBench.UintrPro.DataPointer
import IpcBench.UintrPro.Setup
import IpcBench.Guard.Pairing
import IpcBench.Eventfd.BiTokens
import IpcBench.Eventfd.Uni
import IpcBench.Uintrfd.BiPingPong
import IpcBench.Uintrfd.UniAccounting
import IpcBench.OneWay.Accounting
import IpcBench.Stream.Handoff
import IpcBench.Signal.Completion
import IpcBench.StartUp.Handshake
import IpcBench.Mmap.StartUp
import IpcBench.ShmSync.Deadlock
import IpcBench.Tcp.Pairing
import IpcBench.Mq.Pairing
import IpcBench.Common.Accumulator
import IpcBench.Common.ReceiveStream
import IpcBench.Tcp.Address
import IpcBench.Common.CommandLine
import IpcBench.Domain.ServerLoop
import IpcBench.ShmSync.Layout
import IpcBench.Bounds.Messages
import IpcBench.Measurement.Granularity
import IpcBench.Measurement.Loops
import IpcBench.Stream.StartUp
import IpcBench.Measurement.Figures
import IpcBench.UintrPro.Refinement
import IpcBench.Common.Process
import IpcBench.Mq.Leftovers
