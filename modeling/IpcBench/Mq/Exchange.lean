import IpcBench.Lib.Runs
import IpcBench.Lib.LittleEndian
import IpcBench.Lib.Journal
import IpcBench.Lib.MessageQueue
import IpcBench.Common.Benchmarks

/-!
# The loops of `mq`

Both directions go through one message queue; the type of a message tells them apart. Each
process has one message object, which it fills, sends from and receives into. The buffer of
the object is the memory from its first byte on, and a copy into it overwrites that memory
from the start. The state keeps a record of who has received whose messages.
-/

namespace IpcBench.Mq

open Lib

/-- `MAXIMUM_MESSAGE_SIZE`. -/
def maximumMessageSize : ℕ := 2048

/-- `CLIENT_MESSAGE`. -/
def clientMessage : ℤ := 1

/-- `SERVER_MESSAGE`. -/
def serverMessage : ℤ := 2

/-- The two processes. -/
inductive Party where
  | client
  | server
  deriving DecidableEq, Repr

/-- `struct Message`. -/
structure Message where
  type : ℤ
  buffer : List UInt8
  deriving DecidableEq, Repr

/-- A message with the given bytes copied over the start of its buffer. -/
def Message.fill (message : Message) (type : ℤ) (bytes : List UInt8) : Message :=
  ⟨type, bytes ++ message.buffer.drop bytes.length⟩

/-- What `msgsnd` of `size` bytes takes from a message. -/
def Message.sent (message : Message) (size : ℕ) (sender : Party) : QueueMessage ℤ UInt8 Party :=
  ⟨message.type, message.buffer.take size, sender⟩

/-- The message after a `msgrcv`; one that has failed does not write to it. -/
def Message.receive (message : Message) : Option (QueueMessage ℤ UInt8 Party) → Message
  | some received => message.fill received.type received.payload
  | none => message

/-- Where the loop of the client stands. -/
inductive ClientPc where
  | fill
  | send
  | receive
  | bench
  | left
  | thrown
  deriving DecidableEq, Repr

/-- Where the loop of `communicate` in the server stands. -/
inductive ServerPc where
  | receive
  | stamp
  | fill (timestamp : UInt64)
  | send
  | thrown
  deriving DecidableEq, Repr

/-- The queue, the two processes with their message objects, and the record. -/
structure State where
  queue : List (QueueMessage ℤ UInt8 Party)
  client : ClientPc
  server : ServerPc
  atClient : Message
  atServer : Message
  bench : Benchmarks
  journal : Journal UInt64
  receipts : List (Party × Party)
  deriving DecidableEq, Repr

/-- The steps of the two processes. -/
inductive Action where
  | clientFill
  | clientSend
  | clientReceive
  | clientBenchmark (now : UInt64)
  | clientLeave
  | serverReceive
  | serverStamp (now : UInt64)
  | serverFill
  | serverSend
  deriving DecidableEq, Repr

/-- Both processes before their loops. The queue is empty, and the two objects contain
whatever `malloc` has found. -/
def start (atClient atServer : Message) (bench : Benchmarks) : State :=
  ⟨[], .fill, .receive, atClient, atServer, bench, .empty, []⟩

/-- Who has sent what is received now. -/
def receipt (receiver : Party) : Option (QueueMessage ℤ UInt8 Party) → List (Party × Party)
  | some received => [(receiver, received.sender)]
  | none => []

/-- One step of either process. -/
def step (limits : QueueLimits) (size : ℕ) (s : State) : Action → Option State
  | .clientFill =>
      if s.client = .fill then
        some { s with
          client := .send
          atClient := s.atClient.fill clientMessage (List.replicate size '1'.toUInt8) }
      else none
  | .clientSend =>
      if s.client = .send then
        (msgsnd limits false s.queue (s.atClient.sent size .client)).map fun (code, queue) =>
          if code = -1 then { s with client := .thrown }
          else { s with queue := queue, client := .receive, journal := s.journal.ask }
      else none
  | .clientReceive =>
      if s.client = .receive then
        (msgrcv 8 serverMessage s.queue).map fun (code, received, queue) =>
          let atClient := s.atClient.receive received
          let receipts := s.receipts ++ receipt .client received
          if code < 8 then
            { s with
              queue := queue
              atClient := atClient
              receipts := receipts
              client := .thrown }
          else
            { s with
              queue := queue
              atClient := atClient
              receipts := receipts
              client := .bench
              bench := { s.bench with singleStart := ofWordBytes (atClient.buffer.take 8) }
              journal := s.journal.receive (ofWordBytes (atClient.buffer.take 8)) }
      else none
  | .clientBenchmark now =>
      if s.client = .bench then
        some { s with
          client := .fill
          bench := benchmark s.bench now
          journal := s.journal.sample s.bench.singleStart now }
      else none
  | .clientLeave => if s.client = .fill then some { s with client := .left } else none
  | .serverReceive =>
      if s.server = .receive then
        (msgrcv size clientMessage s.queue).map fun (code, received, queue) =>
          { s with
            queue := queue
            atServer := s.atServer.receive received
            receipts := s.receipts ++ receipt .server received
            server := if code < size then .thrown else .stamp }
      else none
  | .serverStamp now =>
      if s.server = .stamp then
        some { s with server := .fill now, journal := s.journal.stamp now }
      else none
  | .serverFill =>
      match s.server with
      | .fill timestamp =>
          some { s with
            server := .send
            atServer := s.atServer.fill serverMessage (wordBytes timestamp) }
      | _ => none
  | .serverSend =>
      if s.server = .send then
        (msgsnd limits true s.queue (s.atServer.sent 8 .server)).map fun (code, queue) =>
          if code = -1 then { s with server := .thrown }
          else { s with queue := queue, server := .receive }
      else none

end IpcBench.Mq
