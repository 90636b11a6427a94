import IpcBench.Lib.Runs
import IpcBench.Lib.LittleEndian
import IpcBench.Common.Benchmarks

/-!
# The guard-byte protocol of `shm` and `mmap`

Both benchmarks share one region: a guard byte and behind it eight bytes of
payload. The client asks by storing one token into the guard, the server answers
by storing the other. Every access to the guard and every copied byte is a step
of its own. Besides the shared region and the two control flows the state keeps a
record of what happened: how often the client has asked, the timestamps with the
number of questions at that moment, the values the client has copied, the
subtractions of `benchmark`, and all readings of the clock.
-/

namespace IpcBench.Guard

open Lib

/-- The four tokens of one benchmark: what the client stores and waits for and
what the server waits for and stores. -/
structure Tokens where
  clientNotify : UInt8
  clientWait : UInt8
  serverWait : UInt8
  serverNotify : UInt8
  deriving DecidableEq, Repr

/-- `shm_notify` and `shm_wait` of the two sides. -/
def shm : Tokens := ⟨'s'.toUInt8, 'c'.toUInt8, 's'.toUInt8, 'c'.toUInt8⟩

/-- `mmap_notify` and `mmap_wait` of the two sides. -/
def mmap : Tokens := ⟨'s'.toUInt8, 'c'.toUInt8, 's'.toUInt8, 'c'.toUInt8⟩

/-- Where the loop of the client stands. `msg_wait` consists of `wait`, `copy` with
the bytes copied so far, and `bench`. -/
inductive ClientPc where
  | notify
  | wait
  | copy (copied : List UInt8)
  | bench
  | left
  deriving DecidableEq, Repr

/-- Where the loop of `communicate` in the server stands. -/
inductive ServerPc where
  | wait
  | stamp
  | copy (timestamp : UInt64) (done : ℕ)
  | notify
  deriving DecidableEq, Repr

/-- The shared region, the two sides, and the record. -/
structure State where
  guard : UInt8
  payload : List UInt8
  client : ClientPc
  server : ServerPc
  bench : Benchmarks
  asked : ℕ
  stamps : List (UInt64 × ℕ)
  received : List (List UInt8)
  samples : List (UInt64 × UInt64)
  readings : List UInt64
  deriving DecidableEq, Repr

/-- The steps of the two sides; a reading of the clock is an argument. The client
leaves its loop between two rounds. -/
inductive Action where
  | clientNotify
  | clientWait
  | clientCopy
  | clientBenchmark (now : UInt64)
  | clientLeave
  | serverWait
  | serverStamp (now : UInt64)
  | serverCopy
  | serverNotify
  deriving DecidableEq, Repr

/-- Both sides before their loops. The region keeps whatever it contained. -/
def start (guard : UInt8) (payload : List UInt8) (bench : Benchmarks) : State :=
  ⟨guard, payload, .notify, .wait, bench, 0, [], [], [], []⟩

/-- The client after one more byte of its `memcpy`. -/
def copyIn (s : State) (copied : List UInt8) : State :=
  if copied.length < 8 then { s with client := .copy copied }
  else
    { s with
      client := .bench
      bench := { s.bench with singleStart := ofWordBytes copied }
      received := s.received ++ [copied] }

/-- The server after one more byte of its `memcpy`. -/
def copyOut (s : State) (timestamp : UInt64) (done : ℕ) (b : UInt8) : State :=
  { s with
    payload := s.payload.set done b
    server := if done + 1 < 8 then .copy timestamp (done + 1) else .notify }

/-- One step of either side. -/
def step (tokens : Tokens) (s : State) : Action → Option State
  | .clientNotify =>
      if s.client = .notify then
        some { s with guard := tokens.clientNotify, client := .wait, asked := s.asked + 1 }
      else none
  | .clientWait =>
      if s.client = .wait then
        some (if s.guard = tokens.clientWait then { s with client := .copy [] } else s)
      else none
  | .clientCopy =>
      match s.client with
      | .copy copied => s.payload[copied.length]?.map fun b => copyIn s (copied ++ [b])
      | _ => none
  | .clientBenchmark now =>
      if s.client = .bench then
        some { s with
          client := .notify
          bench := benchmark s.bench now
          samples := s.samples ++ [(s.bench.singleStart, now)]
          readings := s.readings ++ [now] }
      else none
  | .clientLeave => if s.client = .notify then some { s with client := .left } else none
  | .serverWait =>
      if s.server = .wait then
        some (if s.guard = tokens.serverWait then { s with server := .stamp } else s)
      else none
  | .serverStamp now =>
      if s.server = .stamp then
        some { s with
          server := .copy now 0
          stamps := s.stamps ++ [(now, s.asked)]
          readings := s.readings ++ [now] }
      else none
  | .serverCopy =>
      match s.server with
      | .copy timestamp done => (wordBytes timestamp)[done]?.map (copyOut s timestamp done)
      | _ => none
  | .serverNotify =>
      if s.server = .notify then
        some { s with guard := tokens.serverNotify, server := .wait }
      else none

section Inversion

variable {tokens : Tokens} {s t : State} {now : UInt64}

/-- What `clientNotify` does. -/
theorem step_clientNotify (h : step tokens s .clientNotify = some t) :
    s.client = .notify ∧
      t = { s with guard := tokens.clientNotify, client := .wait, asked := s.asked + 1 } := by
  simpa [step, eq_comm] using h

/-- What `clientWait` does. -/
theorem step_clientWait (h : step tokens s .clientWait = some t) :
    s.client = .wait ∧ (s.guard = tokens.clientWait ∧ t = { s with client := .copy [] } ∨
      s.guard ≠ tokens.clientWait ∧ t = s) := by
  simp only [step, Option.ite_none_right_eq_some, Option.some.injEq] at h
  obtain ⟨hclient, rfl⟩ := h
  by_cases hguard : s.guard = tokens.clientWait
  · exact ⟨hclient, Or.inl ⟨hguard, if_pos hguard⟩⟩
  · exact ⟨hclient, Or.inr ⟨hguard, if_neg hguard⟩⟩

/-- What `clientCopy` does. -/
theorem step_clientCopy (h : step tokens s .clientCopy = some t) :
    ∃ copied b, s.client = .copy copied ∧ s.payload[copied.length]? = some b ∧
      t = copyIn s (copied ++ [b]) := by
  cases hclient : s.client with
  | copy copied =>
    simp only [step, hclient, Option.map_eq_some_iff] at h
    obtain ⟨b, hb, ht⟩ := h
    exact ⟨copied, b, rfl, hb, ht.symm⟩
  | _ => simp [step, hclient] at h

/-- What `clientBenchmark` does. -/
theorem step_clientBenchmark (h : step tokens s (.clientBenchmark now) = some t) :
    s.client = .bench ∧
      t = { s with
        client := .notify
        bench := benchmark s.bench now
        samples := s.samples ++ [(s.bench.singleStart, now)]
        readings := s.readings ++ [now] } := by
  simpa [step, eq_comm] using h

/-- What `clientLeave` does. -/
theorem step_clientLeave (h : step tokens s .clientLeave = some t) :
    s.client = .notify ∧ t = { s with client := .left } := by
  simpa [step, eq_comm] using h

/-- What `serverWait` does. -/
theorem step_serverWait (h : step tokens s .serverWait = some t) :
    s.server = .wait ∧ (s.guard = tokens.serverWait ∧ t = { s with server := .stamp } ∨
      s.guard ≠ tokens.serverWait ∧ t = s) := by
  simp only [step, Option.ite_none_right_eq_some, Option.some.injEq] at h
  obtain ⟨hserver, rfl⟩ := h
  by_cases hguard : s.guard = tokens.serverWait
  · exact ⟨hserver, Or.inl ⟨hguard, if_pos hguard⟩⟩
  · exact ⟨hserver, Or.inr ⟨hguard, if_neg hguard⟩⟩

/-- What `serverStamp` does. -/
theorem step_serverStamp (h : step tokens s (.serverStamp now) = some t) :
    s.server = .stamp ∧
      t = { s with
        server := .copy now 0
        stamps := s.stamps ++ [(now, s.asked)]
        readings := s.readings ++ [now] } := by
  simpa [step, eq_comm] using h

/-- What `serverCopy` does. -/
theorem step_serverCopy (h : step tokens s .serverCopy = some t) :
    ∃ timestamp done b, s.server = .copy timestamp done ∧ (wordBytes timestamp)[done]? = some b ∧
      t = copyOut s timestamp done b := by
  cases hserver : s.server with
  | copy timestamp done =>
    simp only [step, hserver, Option.map_eq_some_iff] at h
    obtain ⟨b, hb, ht⟩ := h
    exact ⟨timestamp, done, b, rfl, hb, ht.symm⟩
  | _ => simp [step, hserver] at h

/-- What `serverNotify` does. -/
theorem step_serverNotify (h : step tokens s .serverNotify = some t) :
    s.server = .notify ∧ t = { s with guard := tokens.serverNotify, server := .wait } := by
  simpa [step, eq_comm] using h

end Inversion

end IpcBench.Guard
