import IpcBench.Lib.Runs
import IpcBench.Lib.ReqRep
import IpcBench.Common.Benchmarks

/-!
# The loops of `zeromq`

The client sends a message of the given size over a requesting socket and receives one of
that size; the server receives, overwrites the message with stars and sends it back. The
number of rounds is the same on both sides. The calls of the library are a parameter. The state
keeps a record of what the client has received.
-/

namespace IpcBench.Zeromq

open Lib

/-- What both processes are started with: `args->count` and `args->size`. -/
structure Setup where
  count : ℕ
  size : ℕ
  deriving DecidableEq, Repr

/-- Where `communicate` of the client stands. -/
inductive ClientPc where
  | send
  | recv
  | done
  | thrown
  deriving DecidableEq, Repr

/-- Where `communicate` of the server stands. -/
inductive ServerPc where
  | stamp
  | recv
  | fill
  | send
  | bench
  | done
  | thrown
  deriving DecidableEq, Repr

/-- What the library keeps, the two loops with their counters and buffers, and the record.
`remaining` is `args->count` of the client, which it counts down. -/
structure State (κ : Type) where
  connection : κ
  client : ClientPc
  remaining : ℕ
  clientBuffer : List UInt8
  server : ServerPc
  message : ℕ
  serverBuffer : List UInt8
  bench : Benchmarks
  received : List (List UInt8)
  deriving DecidableEq, Repr

/-- The calls of the two processes; a reading of the clock is an argument. -/
inductive Action where
  | clientSend
  | clientRecv
  | serverStamp (now : UInt64)
  | serverRecv
  | serverFill
  | serverSend
  | serverBenchmark (now : UInt64)
  deriving DecidableEq, Repr

/-- The head of the client's loop. -/
def clientHead (remaining : ℕ) : ClientPc := if remaining > 0 then .send else .done

/-- The head of the server's loop. -/
def serverHead (count message : ℕ) : ServerPc := if message < count then .stamp else .done

variable {κ : Type}

/-- Both processes before their loops, connected to each other. The buffers contain whatever
`malloc` has found. -/
def start (setup : Setup) (connection : κ) (clientBuffer serverBuffer : List UInt8)
    (bench : Benchmarks) : State κ :=
  ⟨connection, clientHead setup.count, setup.count, clientBuffer, serverHead setup.count 0, 0,
    serverBuffer, bench, []⟩

/-- The client after its `zmq_recv`. -/
def clientReceived (setup : Setup) (s : State κ) (code : ℤ) (bytes : List UInt8)
    (connection : κ) : State κ :=
  let buffer := bytes ++ s.clientBuffer.drop bytes.length
  if code < setup.size then
    { s with connection := connection, clientBuffer := buffer, client := .thrown }
  else
    { s with
      connection := connection
      clientBuffer := buffer
      client := clientHead (s.remaining - 1)
      remaining := s.remaining - 1
      received := s.received ++ [buffer] }

/-- The server after its `zmq_recv`. -/
def serverReceived (setup : Setup) (s : State κ) (code : ℤ) (bytes : List UInt8)
    (connection : κ) : State κ :=
  { s with
    connection := connection
    serverBuffer := bytes ++ s.serverBuffer.drop bytes.length
    server := if code < setup.size then .thrown else .fill }

/-- One step of either process. -/
def step (calls : ReqRepCalls UInt8 κ) (setup : Setup) (s : State κ) : Action → Option (State κ)
  | .clientSend =>
      if s.client = .send then
        let (code, connection) := calls.sendRequest s.connection (s.clientBuffer.take setup.size)
        some { s with
          connection := connection
          client := if code < setup.size then .thrown else .recv }
      else none
  | .clientRecv =>
      if s.client = .recv then
        (calls.recvReply s.connection setup.size).map fun (code, bytes, connection) =>
          clientReceived setup s code bytes connection
      else none
  | .serverStamp now =>
      if s.server = .stamp then
        some { s with server := .recv, bench := { s.bench with singleStart := now } }
      else none
  | .serverRecv =>
      if s.server = .recv then
        (calls.recvRequest s.connection setup.size).map fun (code, bytes, connection) =>
          serverReceived setup s code bytes connection
      else none
  | .serverFill =>
      if s.server = .fill then
        some { s with
          server := .send
          serverBuffer := List.replicate setup.size '*'.toUInt8 ++ s.serverBuffer.drop setup.size }
      else none
  | .serverSend =>
      if s.server = .send then
        let (code, connection) := calls.sendReply s.connection (s.serverBuffer.take setup.size)
        some { s with
          connection := connection
          server := if code < setup.size then .thrown else .bench }
      else none
  | .serverBenchmark now =>
      if s.server = .bench then
        some { s with
          server := serverHead setup.count (s.message + 1)
          message := s.message + 1
          bench := benchmark s.bench now }
      else none

/-- The state with what is known of the connection in place of what the library keeps. -/
def State.through (known : κ → ReqRep UInt8) (s : State κ) : State (ReqRep UInt8) :=
  ⟨known s.connection, s.client, s.remaining, s.clientBuffer, s.server, s.message, s.serverBuffer,
    s.bench, s.received⟩

/-- Before the loops nothing has been sent. -/
theorem through_start {known : κ → ReqRep UInt8} {connection : κ}
    (hconnected : known connection = .empty) (setup : Setup)
    (clientBuffer serverBuffer : List UInt8) (bench : Benchmarks) :
    (start setup connection clientBuffer serverBuffer bench).through known =
      start setup .empty clientBuffer serverBuffer bench := by
  rw [start, State.through, hconnected, start]

section Library

variable {calls : ReqRepCalls UInt8 κ} {known : κ → ReqRep UInt8} {setup : Setup} {s t : State κ}
  {a : Action}

theorem clientReceived_through (known : κ → ReqRep UInt8) (setup : Setup) (s : State κ) (code : ℤ)
    (bytes : List UInt8) (connection : κ) :
    (clientReceived setup s code bytes connection).through known =
      clientReceived setup (s.through known) code bytes (known connection) := by
  simp only [clientReceived]
  by_cases hshort : code < setup.size <;> simp [hshort, State.through]

/-- With a library that keeps what is promised the processes do what they do with the promised
calls. -/
theorem step_through (hcalls : calls.Documented known) (setup : Setup) (s : State κ) (a : Action) :
    (step calls setup s a).map (State.through known) =
      step ReqRep.calls setup (s.through known) a := by
  cases a with
  | clientSend =>
    have hsend := hcalls.sendRequest s.connection (s.clientBuffer.take setup.size)
    by_cases hclient : s.client = .send
    · simp [step, State.through, hclient, ReqRep.calls, ← hsend]
    · simp [step, State.through, hclient]
  | clientRecv =>
    have hrecv := hcalls.recvReply s.connection setup.size
    by_cases hclient : s.client = .recv
    · simp only [step, hclient, State.through, if_true, Option.map_map]
      rw [show ReqRep.calls.recvReply = ReqRep.recvReply from rfl, ← hrecv, Option.map_map]
      congr 1
      funext r
      obtain ⟨code, bytes, connection⟩ := r
      exact clientReceived_through known setup s code bytes connection
    · simp [step, State.through, hclient]
  | serverRecv =>
    have hrecv := hcalls.recvRequest s.connection setup.size
    by_cases hserver : s.server = .recv
    · simp only [step, hserver, State.through, if_true, Option.map_map]
      rw [show ReqRep.calls.recvRequest = ReqRep.recvRequest from rfl, ← hrecv, Option.map_map]
      rfl
    · simp [step, State.through, hserver]
  | serverSend =>
    have hsend := hcalls.sendReply s.connection (s.serverBuffer.take setup.size)
    by_cases hserver : s.server = .send
    · simp [step, State.through, hserver, ReqRep.calls, ← hsend]
    · simp [step, State.through, hserver]
  | serverStamp now =>
    by_cases hserver : s.server = .stamp <;> simp [step, State.through, hserver]
  | serverFill =>
    by_cases hserver : s.server = .fill <;> simp [step, State.through, hserver]
  | serverBenchmark now =>
    by_cases hserver : s.server = .bench <;> simp [step, State.through, hserver]

/-- What a step does to what is known. -/
theorem step_known (hcalls : calls.Documented known) (hstep : step calls setup s a = some t) :
    step ReqRep.calls setup (s.through known) a = some (t.through known) := by
  rw [← step_through hcalls, hstep]
  rfl

/-- A step that is possible for what is known is possible. -/
theorem exists_step (hcalls : calls.Documented known) {u : State (ReqRep UInt8)}
    (hstep : step ReqRep.calls setup (s.through known) a = some u) :
    ∃ t, step calls setup s a = some t ∧ t.through known = u := by
  rw [← step_through hcalls] at hstep
  exact Option.map_eq_some_iff.mp hstep

end Library

end IpcBench.Zeromq
