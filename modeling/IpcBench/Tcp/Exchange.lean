import IpcBench.Lib.Runs
import IpcBench.Lib.LittleEndian
import IpcBench.Lib.Journal
import IpcBench.Lib.ByteStream
import IpcBench.Common.Benchmarks
import IpcBench.Common.Sockets

/-!
# The loops of `tcp`

The client sends a message of the given size and receives eight bytes into
`single_start`; the server receives a message of that size, takes a timestamp and sends
its eight bytes. The two directions of the connection are two streams without frames. A
`send` hands over all its bytes, and a `recv` yields all the bytes it asks for as soon as
they have arrived. Before that it blocks, or fails with `EAGAIN` on a busy socket; there it
may also fail for no reason. Every call of `recv` is a step, and a call of `receive` is
known by what its calls of `recv` have yielded so far.
-/

namespace IpcBench.Tcp

open Lib

/-- What the two processes are started with: the buffer that the client sends, as long as
the size of a message, and whether their sockets are busy. -/
structure Setup where
  message : List UInt8
  clientBusy : Bool
  serverBusy : Bool
  deriving DecidableEq, Repr

/-- The size of a message, the same on both sides. -/
def Setup.size (setup : Setup) : ℕ := setup.message.length

/-- Where the loop of the client stands. -/
inductive ClientPc where
  | send
  | receive (results : List RecvResult)
  | bench
  | left
  | thrown
  deriving DecidableEq, Repr

/-- Where the loop of `communicate` in the server stands. -/
inductive ServerPc where
  | receive (results : List RecvResult)
  | stamp
  | send (timestamp : UInt64)
  | thrown
  deriving DecidableEq, Repr

/-- The two streams, the two processes with what `errno` and the buffer of the server
contain, and the record. The journal counts the requests that have wholly arrived. -/
structure State where
  requests : ByteStream UInt8
  replies : ByteStream UInt8
  client : ClientPc
  server : ServerPc
  clientErrno : ℤ
  serverErrno : ℤ
  buffer : List UInt8
  bench : Benchmarks
  journal : Journal UInt64
  deriving DecidableEq, Repr

/-- The steps of the two processes and of the connection; `again` is a `recv` that fails
with `EAGAIN`. -/
inductive Action where
  | clientSend
  | clientRecv (again : Bool)
  | clientBenchmark (now : UInt64)
  | clientLeave
  | serverRecv (again : Bool)
  | serverStamp (now : UInt64)
  | serverSend
  | requestArrives (n : ℕ)
  | replyArrives (n : ℕ)
  deriving DecidableEq, Repr

/-- Both processes before their loops, connected to each other. -/
def start (clientErrno serverErrno : ℤ) (buffer : List UInt8) (bench : Benchmarks) : State :=
  ⟨.empty, .empty, .send, .receive [], clientErrno, serverErrno, buffer, bench, .empty⟩

/-- `send`: the number of bytes sent, which are all, and the stream after it. -/
def send (stream : ByteStream UInt8) (bytes : List UInt8) : ℤ × ByteStream UInt8 :=
  (bytes.length, stream.send bytes)

/-- What one `recv` of `size` bytes yields; `none` while it blocks. -/
def recvYields (busy : Bool) (stream : ByteStream UInt8) (size : ℕ) (again : Bool) :
    Option (RecvResult × ByteStream UInt8) :=
  if again then
    if busy then some (.error eagain, stream) else none
  else (stream.take size).map fun taken => (.data taken.1, taken.2)

/-- The client in its `receive` after one more `recv`. -/
def clientReceive (setup : Setup) (s : State) (results : List RecvResult) : State :=
  match receive 8 setup.clientBusy s.clientErrno (wordBytes s.bench.singleStart) results with
  | none => { s with client := .receive results }
  | some result =>
      if result.code = -1 then { s with client := .thrown }
      else
        { s with
          client := .bench
          clientErrno := result.errno
          bench := { s.bench with singleStart := ofWordBytes result.buffer }
          journal := s.journal.receive (ofWordBytes result.buffer) }

/-- The server in its `receive` after one more `recv`. -/
def serverReceive (setup : Setup) (s : State) (results : List RecvResult) : State :=
  match receive setup.size setup.serverBusy s.serverErrno s.buffer results with
  | none => { s with server := .receive results }
  | some result =>
      if result.code = -1 then { s with server := .thrown }
      else { s with server := .stamp, serverErrno := result.errno, buffer := result.buffer }

/-- One step of either process or of the connection. -/
def step (setup : Setup) (s : State) : Action → Option State
  | .clientSend =>
      if s.client = .send then
        let (sent, requests) := send s.requests setup.message
        some { s with
          requests := requests
          client := if sent = -1 then .thrown else .receive [] }
      else none
  | .clientRecv again =>
      match s.client with
      | .receive results =>
          (recvYields setup.clientBusy s.replies 8 again).map fun yielded =>
            clientReceive setup { s with replies := yielded.2 } (results ++ [yielded.1])
      | _ => none
  | .clientBenchmark now =>
      if s.client = .bench then
        some { s with
          client := .send
          bench := benchmark s.bench now
          journal := s.journal.sample s.bench.singleStart now }
      else none
  | .clientLeave => if s.client = .send then some { s with client := .left } else none
  | .serverRecv again =>
      match s.server with
      | .receive results =>
          (recvYields setup.serverBusy s.requests setup.size again).map fun yielded =>
            serverReceive setup { s with requests := yielded.2 } (results ++ [yielded.1])
      | _ => none
  | .serverStamp now =>
      if s.server = .stamp then
        some { s with server := .send now, journal := s.journal.stamp now }
      else none
  | .serverSend =>
      match s.server with
      | .send timestamp =>
          let (sent, replies) := send s.replies (wordBytes timestamp)
          some { s with
            replies := replies
            server := if sent = -1 then .thrown else .receive [] }
      | _ => none
  | .requestArrives n =>
      (s.requests.arrive n).map fun requests =>
        { s with
          requests := requests
          journal := { s.journal with asked := requests.delivered / setup.size } }
  | .replyArrives n => (s.replies.arrive n).map fun replies => { s with replies := replies }

section Inversion

variable {setup : Setup} {s t : State} {now : UInt64}

/-- What `clientSend` does. -/
theorem step_clientSend (h : step setup s .clientSend = some t) :
    s.client = .send ∧
      t = { s with requests := s.requests.send setup.message, client := .receive [] } := by
  have hsent : (setup.message.length : ℤ) ≠ -1 := by omega
  simpa [step, send, hsent, eq_comm] using h

/-- What `clientBenchmark` does. -/
theorem step_clientBenchmark (h : step setup s (.clientBenchmark now) = some t) :
    s.client = .bench ∧
      t = { s with
        client := .send
        bench := benchmark s.bench now
        journal := s.journal.sample s.bench.singleStart now } := by
  simpa [step, eq_comm] using h

/-- What `clientLeave` does. -/
theorem step_clientLeave (h : step setup s .clientLeave = some t) :
    s.client = .send ∧ t = { s with client := .left } := by
  simpa [step, eq_comm] using h

/-- What `serverStamp` does. -/
theorem step_serverStamp (h : step setup s (.serverStamp now) = some t) :
    s.server = .stamp ∧ t = { s with server := .send now, journal := s.journal.stamp now } := by
  simpa [step, eq_comm] using h

/-- What `serverSend` does. -/
theorem step_serverSend (h : step setup s .serverSend = some t) :
    ∃ timestamp, s.server = .send timestamp ∧
      t = { s with replies := s.replies.send (wordBytes timestamp), server := .receive [] } := by
  cases hserver : s.server with
  | send timestamp =>
    simp only [step, hserver, send, length_wordBytes, Option.some.injEq] at h
    exact ⟨timestamp, rfl, h.symm⟩
  | _ => simp [step, hserver] at h

/-- What one `recv` yields. -/
theorem recvYields_eq_some {busy again : Bool} {stream stream' : ByteStream UInt8} {size : ℕ}
    {result : RecvResult} (h : recvYields busy stream size again = some (result, stream')) :
    (busy = true ∧ result = .error eagain ∧ stream' = stream) ∨
      ∃ bytes, stream.take size = some (bytes, stream') ∧ result = .data bytes := by
  unfold recvYields at h
  split at h
  · simp only [Option.ite_none_right_eq_some, Option.some.injEq, Prod.mk.injEq] at h
    exact Or.inl ⟨h.1, h.2.1.symm, h.2.2.symm⟩
  · simp only [Option.map_eq_some_iff, Prod.mk.injEq] at h
    obtain ⟨⟨bytes, rest⟩, htake, hresult, rfl⟩ := h
    exact Or.inr ⟨bytes, htake, hresult.symm⟩

/-- What `clientRecv` does: another attempt, or a message out of the stream. -/
theorem step_clientRecv {again : Bool} (h : step setup s (.clientRecv again) = some t) :
    ∃ results, s.client = .receive results ∧
      ((setup.clientBusy = true ∧ t = clientReceive setup s (results ++ [.error eagain])) ∨
        ∃ bytes replies, s.replies.take 8 = some (bytes, replies) ∧
          t = clientReceive setup { s with replies := replies } (results ++ [.data bytes])) := by
  cases hclient : s.client with
  | receive results =>
    simp only [step, hclient, Option.map_eq_some_iff] at h
    obtain ⟨⟨result, replies⟩, hyields, rfl⟩ := h
    refine ⟨results, rfl, ?_⟩
    rcases recvYields_eq_some hyields with ⟨hbusy, rfl, rfl⟩ | ⟨bytes, htake, rfl⟩
    · exact Or.inl ⟨hbusy, rfl⟩
    · exact Or.inr ⟨bytes, replies, htake, rfl⟩
  | _ => simp [step, hclient] at h

/-- What `serverRecv` does. -/
theorem step_serverRecv {again : Bool} (h : step setup s (.serverRecv again) = some t) :
    ∃ results, s.server = .receive results ∧
      ((setup.serverBusy = true ∧ t = serverReceive setup s (results ++ [.error eagain])) ∨
        ∃ bytes requests, s.requests.take setup.size = some (bytes, requests) ∧
          t = serverReceive setup { s with requests := requests } (results ++ [.data bytes])) := by
  cases hserver : s.server with
  | receive results =>
    simp only [step, hserver, Option.map_eq_some_iff] at h
    obtain ⟨⟨result, requests⟩, hyields, rfl⟩ := h
    refine ⟨results, rfl, ?_⟩
    rcases recvYields_eq_some hyields with ⟨hbusy, rfl, rfl⟩ | ⟨bytes, htake, rfl⟩
    · exact Or.inl ⟨hbusy, rfl⟩
    · exact Or.inr ⟨bytes, requests, htake, rfl⟩
  | _ => simp [step, hserver] at h

end Inversion

end IpcBench.Tcp
