import IpcBench.Lib.Runs
import IpcBench.Lib.EventFd
import IpcBench.Common.Benchmarks

/-!
# The token protocol of `eventfd-bi`

One event descriptor carries the notifications of both directions: the client
writes `SERVER_TOKEN`, the server `CLIENT_TOKEN`, and whoever reads the other's
token writes it back. The state counts the finished calls of `eventfd_notify` and
`eventfd_wait` on both sides.
-/

namespace IpcBench.EventfdBi

open Lib

/-- `SERVER_TOKEN`, the value the server waits for. -/
def serverToken : ℕ := 1

/-- `CLIENT_TOKEN`, the value the client waits for. -/
def clientToken : ℕ := 2

/-- Where a call of `eventfd_wait` stands: before its `read`, or before the `write`
that puts the value it has read back. -/
inductive WaitPc where
  | read
  | writeBack (stored : ℕ)
  deriving DecidableEq, Repr

/-- One system call of `eventfd_wait`: the new counter, and where the call stands
then, `none` when it has returned. -/
def eventfdWait (wanted counter : ℕ) : WaitPc → Option (ℕ × Option WaitPc)
  | .read =>
      (eventFdRead counter).map fun (stored, counter) =>
        (counter, if stored = wanted then none else some (.writeBack stored))
  | .writeBack stored => (eventFdWrite counter stored).map fun counter => (counter, some .read)

/-- Where `client_communicate` stands. -/
inductive ClientPc where
  | notify
  | wait (pc : WaitPc)
  | done
  deriving DecidableEq, Repr

/-- Where `server_communicate` stands. -/
inductive ServerPc where
  | stamp
  | wait (pc : WaitPc)
  | notify
  | bench
  | done
  deriving DecidableEq, Repr

/-- The descriptor, the two loops with their counters, and the finished calls.
`remaining` is `args->count` of the client, which it counts down. -/
structure State where
  counter : ℕ
  client : ClientPc
  remaining : ℕ
  server : ServerPc
  message : ℕ
  bench : Benchmarks
  clientNotifies : ℕ
  clientWaits : ℕ
  serverNotifies : ℕ
  serverWaits : ℕ
  deriving DecidableEq, Repr

/-- The system calls and clock readings of the two processes. -/
inductive Action where
  | clientNotify
  | clientWait
  | serverStamp (now : UInt64)
  | serverWait
  | serverNotify
  | serverBenchmark (now : UInt64)
  deriving DecidableEq, Repr

/-- The head of the client's loop. -/
def clientHead (remaining : ℕ) : ClientPc := if remaining > 0 then .notify else .done

/-- The head of the server's loop. -/
def serverHead (count message : ℕ) : ServerPc := if message < count then .stamp else .done

/-- The two processes after the `fork`, with a fresh descriptor. -/
def start (count : ℕ) (bench : Benchmarks) : State :=
  ⟨0, clientHead count, count, serverHead count 0, 0, bench, 0, 0, 0, 0⟩

/-- One step of either process; `count` is `args->count` of the server. -/
def step (count : ℕ) (s : State) : Action → Option State
  | .clientNotify =>
      if s.client = .notify then
        (eventFdWrite s.counter serverToken).map fun counter =>
          { s with
            counter := counter
            client := .wait .read
            clientNotifies := s.clientNotifies + 1 }
      else none
  | .clientWait =>
      match s.client with
      | .wait pc =>
          (eventfdWait clientToken s.counter pc).map fun
            | (counter, some pc) => { s with counter := counter, client := .wait pc }
            | (counter, none) =>
                { s with
                  counter := counter
                  client := clientHead (s.remaining - 1)
                  remaining := s.remaining - 1
                  clientWaits := s.clientWaits + 1 }
      | _ => none
  | .serverStamp now =>
      if s.server = .stamp then
        some { s with server := .wait .read, bench := { s.bench with singleStart := now } }
      else none
  | .serverWait =>
      match s.server with
      | .wait pc =>
          (eventfdWait serverToken s.counter pc).map fun
            | (counter, some pc) => { s with counter := counter, server := .wait pc }
            | (counter, none) =>
                { s with
                  counter := counter
                  server := .notify
                  serverWaits := s.serverWaits + 1 }
      | _ => none
  | .serverNotify =>
      if s.server = .notify then
        (eventFdWrite s.counter clientToken).map fun counter =>
          { s with
            counter := counter
            server := .bench
            serverNotifies := s.serverNotifies + 1 }
      else none
  | .serverBenchmark now =>
      if s.server = .bench then
        some { s with
          server := serverHead count (s.message + 1)
          message := s.message + 1
          bench := benchmark s.bench now }
      else none

end IpcBench.EventfdBi
