import IpcBench.Lib.Runs
import IpcBench.Lib.Monitor
import IpcBench.Common.Benchmarks

/-!
# The loops of `shm-sync`

Server and client share a message area and a `struct Sync` of a mutex and a condition
variable. `sync_wait` locks the mutex and waits for the condition; it returns as the
owner of the mutex, and there is no call that unlocks it. `sync_notify` signals the
condition without taking the mutex.
-/

namespace IpcBench.ShmSync

open Lib

/-- The two processes that share the monitor. -/
inductive Process where
  | server
  | client
  deriving DecidableEq, Repr

/-- Where a call of `sync_wait` stands: before `pthread_mutex_lock`, before
`pthread_cond_wait`, or blocked in it. -/
inductive WaitPc where
  | lock
  | beginWait
  | endWait
  deriving DecidableEq, Repr

/-- One step of `sync_wait`: the monitor after it, and where the call stands then,
`none` when it has returned. -/
def syncWait (p : Process) (sync : Monitor Process) :
    WaitPc → Option (Monitor Process × Option WaitPc)
  | .lock => (sync.lock p).map fun sync => (sync, some .beginWait)
  | .beginWait => (sync.beginWait p).map fun sync => (sync, some .endWait)
  | .endWait => (sync.endWait p).map fun sync => (sync, none)

/-- `sync_notify`. -/
def syncNotify (sync : Monitor Process) : Monitor Process := sync.signal

/-- Where `communicate` of the server stands. -/
inductive ServerPc where
  | first (pc : WaitPc)
  | setup
  | stamp
  | write
  | notify
  | wait (pc : WaitPc)
  | read
  | answer
  | bench
  | done
  deriving DecidableEq, Repr

/-- Where `communicate` of the client stands. -/
inductive ClientPc where
  | begin
  | wait (pc : WaitPc)
  | read
  | write
  | notify
  | done
  deriving DecidableEq, Repr

/-- The shared segment and the two processes with their variables. `remaining` is
`args->count` of the client, which it counts down. -/
structure State where
  sync : Monitor Process
  memory : List UInt8
  server : ServerPc
  message : ℕ
  bench : Benchmarks
  serverBuffer : List UInt8
  client : ClientPc
  remaining : ℕ
  clientBuffer : List UInt8
  deriving DecidableEq, Repr

/-- The calls of the two processes. -/
inductive Action where
  | serverWait
  | serverSetup (now : UInt64)
  | serverStamp (now : UInt64)
  | serverWrite
  | serverNotify
  | serverRead
  | serverBenchmark (now : UInt64)
  | clientNotify
  | clientWait
  | clientRead
  | clientWrite
  deriving DecidableEq, Repr

/-- The head of the server's loop. -/
def serverHead (count message : ℕ) : ServerPc := if message < count then .stamp else .done

/-- The head of the client's loop. -/
def clientHead (remaining : ℕ) : ClientPc := if remaining > 0 then .wait .lock else .done

/-- Both processes in front of `communicate`, with the monitor initialised and the
message area zeroed. -/
def start (count size : ℕ) (bench : Benchmarks) : State :=
  ⟨.fresh, List.replicate size 0, .first .lock, 0, bench, [], .begin, count, []⟩

/-- One step of either process; `count` and `size` are the arguments of both. -/
def step (count size : ℕ) (s : State) : Action → Option State
  | .serverWait =>
      match s.server with
      | .first pc =>
          (syncWait .server s.sync pc).map fun
            | (sync, some pc) => { s with sync := sync, server := .first pc }
            | (sync, none) => { s with sync := sync, server := .setup }
      | .wait pc =>
          (syncWait .server s.sync pc).map fun
            | (sync, some pc) => { s with sync := sync, server := .wait pc }
            | (sync, none) => { s with sync := sync, server := .read }
      | _ => none
  | .serverSetup now =>
      if s.server = .setup then
        some { s with
          server := serverHead count s.message
          bench := setupBenchmarks s.bench now }
      else none
  | .serverStamp now =>
      if s.server = .stamp then
        some { s with server := .write, bench := { s.bench with singleStart := now } }
      else none
  | .serverWrite =>
      if s.server = .write then
        some { s with memory := List.replicate size '1'.toUInt8, server := .notify }
      else none
  | .serverNotify =>
      match s.server with
      | .notify => some { s with sync := syncNotify s.sync, server := .wait .lock }
      | .answer => some { s with sync := syncNotify s.sync, server := .bench }
      | _ => none
  | .serverRead =>
      if s.server = .read then some { s with serverBuffer := s.memory, server := .answer }
      else none
  | .serverBenchmark now =>
      if s.server = .bench then
        some { s with
          server := serverHead count (s.message + 1)
          message := s.message + 1
          bench := benchmark s.bench now }
      else none
  | .clientNotify =>
      match s.client with
      | .begin => some { s with sync := syncNotify s.sync, client := clientHead s.remaining }
      | .notify =>
          some { s with
            sync := syncNotify s.sync
            client := clientHead (s.remaining - 1)
            remaining := s.remaining - 1 }
      | _ => none
  | .clientWait =>
      match s.client with
      | .wait pc =>
          (syncWait .client s.sync pc).map fun
            | (sync, some pc) => { s with sync := sync, client := .wait pc }
            | (sync, none) => { s with sync := sync, client := .read }
      | _ => none
  | .clientRead =>
      if s.client = .read then some { s with clientBuffer := s.memory, client := .write }
      else none
  | .clientWrite =>
      if s.client = .write then
        some { s with memory := List.replicate size '2'.toUInt8, client := .notify }
      else none

end IpcBench.ShmSync
