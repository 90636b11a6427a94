import IpcBench.Lib.Runs
import IpcBench.Lib.LittleEndian
import IpcBench.Lib.Journal
import IpcBench.Common.Benchmarks
import IpcBench.Common.Signals

/-!
# The signal-paced streams of `fifo` and `pipe`

The client asks with `SIGUSR1`, the server writes its timestamp into a stream and
answers with `SIGUSR2`. The wake-ups and the data travel on different channels. The
server writes through the buffer of its `FILE`, which `fflush` empties into the
stream; the client takes eight bytes from the stream and blocks while there are fewer.
The two benchmarks differ only in how they test the results of `fread` and `fwrite`.
-/

namespace IpcBench.Stream

open Lib

/-- The two benchmarks. -/
inductive Benchmark where
  | fifo
  | pipe
  deriving DecidableEq, Repr

/-- The test of the result of `fread`: `fifo` compares with `0`, `pipe` with `-1`. -/
def Benchmark.freadFails : Benchmark → UInt64 → Bool
  | .fifo, items => items = 0
  | .pipe, items => items = -1

/-- The test of the result of `fwrite`. -/
def Benchmark.fwriteFails : Benchmark → UInt64 → Bool
  | .fifo, items => items = 0
  | .pipe, items => items = -1

/-- How many bytes a pipe holds. -/
def pipeCapacity : ℕ := 65536

/-- `fread(&single_start, 8, 1, stream)`: the items read, the bytes, and what is left;
`none` while the call blocks. -/
def fread (stream : List UInt8) : Option (UInt64 × List UInt8 × List UInt8) :=
  if stream.length < 8 then none else some (1, stream.take 8, stream.drop 8)

/-- `fwrite(&timestamp, 8, 1, stream)`: the items written and the buffer after it. -/
def fwrite (buffer : List UInt8) (timestamp : UInt64) : UInt64 × List UInt8 :=
  (1, buffer ++ wordBytes timestamp)

/-- Where the loop of the client stands. -/
inductive ClientPc where
  | notify
  | wait
  | read
  | bench
  | left
  | thrown
  deriving DecidableEq, Repr

/-- Where the loop of the server stands. -/
inductive ServerPc where
  | wait
  | stamp
  | write (timestamp : UInt64)
  | flush
  | notify
  | thrown
  deriving DecidableEq, Repr

/-- The signals, the buffer of the server, the stream, the two processes, and the
record. -/
structure State where
  link : SignalLink
  buffer : List UInt8
  stream : List UInt8
  client : ClientPc
  server : ServerPc
  bench : Benchmarks
  journal : Journal UInt64
  deriving DecidableEq, Repr

/-- The calls of the two processes. The client leaves its loop between two rounds. -/
inductive Action where
  | clientNotify
  | clientWait
  | clientRead
  | clientBenchmark (now : UInt64)
  | clientLeave
  | serverWait
  | serverStamp (now : UInt64)
  | serverWrite
  | serverFlush
  | serverNotify
  deriving DecidableEq, Repr

/-- Both processes behind their set-ups, with both ends of the stream open. -/
def start (bench : Benchmarks) : State := ⟨.start, [], [], .notify, .wait, bench, .empty⟩

/-- The client after its `fread`. -/
def afterRead (b : Benchmark) (s : State) (items : UInt64) (bytes rest : List UInt8) : State :=
  if b.freadFails items then { s with stream := rest, client := .thrown }
  else
    { s with
      stream := rest
      client := .bench
      bench := { s.bench with singleStart := ofWordBytes bytes }
      journal := s.journal.receive (ofWordBytes bytes) }

/-- The server after its `fwrite`. -/
def afterWrite (b : Benchmark) (s : State) (items : UInt64) (buffer : List UInt8) : State :=
  if b.fwriteFails items then { s with buffer := buffer, server := .thrown }
  else { s with buffer := buffer, server := .flush }

/-- One step of either process. -/
def step (b : Benchmark) (s : State) : Action → Option State
  | .clientNotify =>
      if s.client = .notify then
        some { s with
          link := s.link.notifyServer
          client := .wait
          journal := s.journal.ask }
      else none
  | .clientWait =>
      if s.client = .wait then
        s.link.clientWait.map fun link => { s with link := link, client := .read }
      else none
  | .clientRead =>
      if s.client = .read then
        (fread s.stream).map fun (items, bytes, rest) => afterRead b s items bytes rest
      else none
  | .clientBenchmark now =>
      if s.client = .bench then
        some { s with
          client := .notify
          bench := benchmark s.bench now
          journal := s.journal.sample s.bench.singleStart now }
      else none
  | .clientLeave => if s.client = .notify then some { s with client := .left } else none
  | .serverWait =>
      if s.server = .wait then
        s.link.serverWait.map fun link => { s with link := link, server := .stamp }
      else none
  | .serverStamp now =>
      if s.server = .stamp then
        some { s with server := .write now, journal := s.journal.stamp now }
      else none
  | .serverWrite =>
      match s.server with
      | .write timestamp =>
          let (items, buffer) := fwrite s.buffer timestamp
          some (afterWrite b s items buffer)
      | _ => none
  | .serverFlush =>
      if s.server = .flush ∧ s.stream.length + s.buffer.length ≤ pipeCapacity then
        some { s with buffer := [], stream := s.stream ++ s.buffer, server := .notify }
      else none
  | .serverNotify =>
      if s.server = .notify then
        some { s with link := s.link.notifyClient, server := .wait }
      else none

section Inversion

variable {b : Benchmark} {s t : State} {now : UInt64}

/-- What `clientNotify` does. -/
theorem step_clientNotify (h : step b s .clientNotify = some t) :
    s.client = .notify ∧
      t = { s with
        link := s.link.notifyServer
        client := .wait
        journal := s.journal.ask } := by
  simpa [step, eq_comm] using h

/-- What `clientWait` does. -/
theorem step_clientWait (h : step b s .clientWait = some t) :
    s.client = .wait ∧ ∃ link, s.link.clientWait = some link ∧
      t = { s with link := link, client := .read } := by
  simp only [step, Option.ite_none_right_eq_some, Option.map_eq_some_iff] at h
  obtain ⟨hclient, link, hwait, rfl⟩ := h
  exact ⟨hclient, link, hwait, rfl⟩

/-- What `clientRead` does: the tests of both benchmarks let the one item pass. -/
theorem step_clientRead (h : step b s .clientRead = some t) :
    s.client = .read ∧ 8 ≤ s.stream.length ∧
      t = { s with
        stream := s.stream.drop 8
        client := .bench
        bench := { s.bench with singleStart := ofWordBytes (s.stream.take 8) }
        journal := s.journal.receive (ofWordBytes (s.stream.take 8)) } := by
  simp only [step, fread, Option.ite_none_right_eq_some, Option.map_eq_some_iff,
    Option.ite_none_left_eq_some, Option.some.injEq, Nat.not_lt] at h
  obtain ⟨hclient, _, ⟨hlength, rfl⟩, rfl⟩ := h
  refine ⟨hclient, hlength, ?_⟩
  cases b <;> rfl

/-- What `clientBenchmark` does. -/
theorem step_clientBenchmark (h : step b s (.clientBenchmark now) = some t) :
    s.client = .bench ∧
      t = { s with
        client := .notify
        bench := benchmark s.bench now
        journal := s.journal.sample s.bench.singleStart now } := by
  simpa [step, eq_comm] using h

/-- What `clientLeave` does. -/
theorem step_clientLeave (h : step b s .clientLeave = some t) :
    s.client = .notify ∧ t = { s with client := .left } := by
  simpa [step, eq_comm] using h

/-- What `serverWait` does. -/
theorem step_serverWait (h : step b s .serverWait = some t) :
    s.server = .wait ∧ ∃ link, s.link.serverWait = some link ∧
      t = { s with link := link, server := .stamp } := by
  simp only [step, Option.ite_none_right_eq_some, Option.map_eq_some_iff] at h
  obtain ⟨hserver, link, hwait, rfl⟩ := h
  exact ⟨hserver, link, hwait, rfl⟩

/-- What `serverStamp` does. -/
theorem step_serverStamp (h : step b s (.serverStamp now) = some t) :
    s.server = .stamp ∧
      t = { s with server := .write now, journal := s.journal.stamp now } := by
  simpa [step, eq_comm] using h

/-- What `serverWrite` does: the tests of both benchmarks let the one item pass. -/
theorem step_serverWrite (h : step b s .serverWrite = some t) :
    ∃ timestamp, s.server = .write timestamp ∧
      t = { s with buffer := s.buffer ++ wordBytes timestamp, server := .flush } := by
  cases hserver : s.server with
  | write timestamp =>
    simp only [step, hserver, fwrite, Option.some.injEq] at h
    refine ⟨timestamp, rfl, h.symm.trans ?_⟩
    cases b <;> rfl
  | _ => simp [step, hserver] at h

/-- What `serverFlush` does. -/
theorem step_serverFlush (h : step b s .serverFlush = some t) :
    s.server = .flush ∧
      t = { s with buffer := [], stream := s.stream ++ s.buffer, server := .notify } := by
  simp only [step, Option.ite_none_right_eq_some, Option.some.injEq] at h
  exact ⟨h.1.1, h.2.symm⟩

/-- What `serverNotify` does. -/
theorem step_serverNotify (h : step b s .serverNotify = some t) :
    s.server = .notify ∧ t = { s with link := s.link.notifyClient, server := .wait } := by
  simpa [step, eq_comm] using h

end Inversion

end IpcBench.Stream
