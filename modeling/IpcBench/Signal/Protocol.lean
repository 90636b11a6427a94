import IpcBench.Lib.Runs
import IpcBench.Common.Arguments
import IpcBench.Common.Benchmarks
import IpcBench.Common.Signals

/-!
# The loops of the `signal` benchmark

Server and client only exchange signals. Both processes parse the same command line,
so both start with the same `Arguments`; the loop of the client tests `args->count` and
decrements `args->size`. The state counts the finished bodies of that loop and keeps,
for each sample of the server, how often the client had called `notify_server` when the
sample ended.
-/

namespace IpcBench.SignalBench

open Lib

/-- Where `communicate` of the client stands: before its first notification, in the two
calls of the loop body, or behind the loop. -/
inductive ClientPc where
  | begin
  | wait
  | notify
  | done
  deriving DecidableEq, Repr

/-- Where `communicate` of the server stands. -/
inductive ServerPc where
  | begin
  | setup
  | stamp
  | notify
  | wait
  | bench
  | done
  deriving DecidableEq, Repr

/-- The signals, the two processes with their variables, and the record. -/
structure State where
  link : SignalLink
  client : ClientPc
  clientArgs : Arguments
  server : ServerPc
  message : Int32
  bench : Benchmarks
  bodies : ℕ
  samples : List ℕ
  deriving DecidableEq, Repr

/-- The calls of the two processes. -/
inductive Action where
  | clientBegin
  | clientWait
  | clientNotify
  | serverBegin
  | serverSetup (now : UInt64)
  | serverStamp (now : UInt64)
  | serverNotify
  | serverWait
  | serverBenchmark (now : UInt64)
  deriving DecidableEq, Repr

/-- The condition of the client's loop: `args->count > 0`. -/
def clientHead (args : Arguments) : ClientPc := if args.count > 0 then .wait else .done

/-- The condition of the server's loop: `message < args->count`. -/
def serverHead (args : Arguments) (message : Int32) : ServerPc :=
  if message < args.count then .stamp else .done

/-- Both processes behind their set-ups. -/
def start (args : Arguments) (bench : Benchmarks) : State :=
  ⟨.start, .begin, args, .begin, 0, bench, 0, []⟩

/-- One step of either process; `args` are the arguments of the server. -/
def step (args : Arguments) (s : State) : Action → Option State
  | .clientBegin =>
      if s.client = .begin then
        some { s with link := s.link.notifyServer, client := clientHead s.clientArgs }
      else none
  | .clientWait =>
      if s.client = .wait then
        s.link.clientWait.map fun link => { s with link := link, client := .notify }
      else none
  | .clientNotify =>
      if s.client = .notify then
        -- the step of the loop is `--args->size`
        let clientArgs := { s.clientArgs with size := s.clientArgs.size - 1 }
        some { s with
          link := s.link.notifyServer
          client := clientHead clientArgs
          clientArgs := clientArgs
          bodies := s.bodies + 1 }
      else none
  | .serverBegin =>
      if s.server = .begin then
        s.link.serverWait.map fun link => { s with link := link, server := .setup }
      else none
  | .serverSetup now =>
      if s.server = .setup then
        some { s with server := serverHead args s.message, bench := setupBenchmarks s.bench now }
      else none
  | .serverStamp now =>
      if s.server = .stamp then
        some { s with server := .notify, bench := { s.bench with singleStart := now } }
      else none
  | .serverNotify =>
      if s.server = .notify then
        some { s with link := s.link.notifyClient, server := .wait }
      else none
  | .serverWait =>
      if s.server = .wait then
        s.link.serverWait.map fun link => { s with link := link, server := .bench }
      else none
  | .serverBenchmark now =>
      if s.server = .bench then
        some { s with
          server := serverHead args (s.message + 1)
          message := s.message + 1
          bench := benchmark s.bench now
          samples := s.samples ++ [s.link.clientNotifies] }
      else none

section Inversion

variable {args : Arguments} {s t : State} {now : UInt64}

/-- What `clientBegin` does. -/
theorem step_clientBegin (h : step args s .clientBegin = some t) :
    s.client = .begin ∧
      t = { s with link := s.link.notifyServer, client := clientHead s.clientArgs } := by
  simpa [step, eq_comm] using h

/-- What `clientWait` does. -/
theorem step_clientWait (h : step args s .clientWait = some t) :
    s.client = .wait ∧ ∃ link, s.link.clientWait = some link ∧
      t = { s with link := link, client := .notify } := by
  simp only [step, Option.ite_none_right_eq_some, Option.map_eq_some_iff] at h
  obtain ⟨hclient, link, hwait, rfl⟩ := h
  exact ⟨hclient, link, hwait, rfl⟩

/-- What `clientNotify` does: it leaves `args->count` alone. -/
theorem step_clientNotify (h : step args s .clientNotify = some t) :
    s.client = .notify ∧ ∃ clientArgs : Arguments, clientArgs.count = s.clientArgs.count ∧
      t = { s with
        link := s.link.notifyServer
        client := clientHead clientArgs
        clientArgs := clientArgs
        bodies := s.bodies + 1 } := by
  simp only [step, Option.ite_none_right_eq_some, Option.some.injEq] at h
  obtain ⟨hclient, rfl⟩ := h
  exact ⟨hclient, { s.clientArgs with size := s.clientArgs.size - 1 }, rfl, rfl⟩

/-- What `serverBegin` does. -/
theorem step_serverBegin (h : step args s .serverBegin = some t) :
    s.server = .begin ∧ ∃ link, s.link.serverWait = some link ∧
      t = { s with link := link, server := .setup } := by
  simp only [step, Option.ite_none_right_eq_some, Option.map_eq_some_iff] at h
  obtain ⟨hserver, link, hwait, rfl⟩ := h
  exact ⟨hserver, link, hwait, rfl⟩

/-- What `serverSetup` does. -/
theorem step_serverSetup (h : step args s (.serverSetup now) = some t) :
    s.server = .setup ∧
      t = { s with
        server := serverHead args s.message
        bench := setupBenchmarks s.bench now } := by
  simpa [step, eq_comm] using h

/-- What `serverStamp` does. -/
theorem step_serverStamp (h : step args s (.serverStamp now) = some t) :
    s.server = .stamp ∧
      t = { s with server := .notify, bench := { s.bench with singleStart := now } } := by
  simpa [step, eq_comm] using h

/-- What `serverNotify` does. -/
theorem step_serverNotify (h : step args s .serverNotify = some t) :
    s.server = .notify ∧ t = { s with link := s.link.notifyClient, server := .wait } := by
  simpa [step, eq_comm] using h

/-- What `serverWait` does. -/
theorem step_serverWait (h : step args s .serverWait = some t) :
    s.server = .wait ∧ ∃ link, s.link.serverWait = some link ∧
      t = { s with link := link, server := .bench } := by
  simp only [step, Option.ite_none_right_eq_some, Option.map_eq_some_iff] at h
  obtain ⟨hserver, link, hwait, rfl⟩ := h
  exact ⟨hserver, link, hwait, rfl⟩

/-- What `serverBenchmark` does. -/
theorem step_serverBenchmark (h : step args s (.serverBenchmark now) = some t) :
    s.server = .bench ∧
      t = { s with
        server := serverHead args (s.message + 1)
        message := s.message + 1
        bench := benchmark s.bench now
        samples := s.samples ++ [s.link.clientNotifies] } := by
  simpa [step, eq_comm] using h

end Inversion

end IpcBench.SignalBench
