import IpcBench.Lib.Runs
import IpcBench.Common.Benchmarks

/-!
# The ping-pong of `uintrfd-bi`

Two threads notify each other by user interrupts. The interrupt of a thread is one
pending bit: `_senduipi` sets it, and at some later moment it is delivered, which
clears it and runs `ui_handler` for the vector, whose number is the token. A thread
waits in a loop on its flag `uintr_received[token]` and then clears it, two separate
accesses between which a delivery may fall. The state starts where both threads have
finished `setup_client` and `setup_server`, so that `uipi_index[token]` leads to the
thread that waits for `token`.
-/

namespace IpcBench.UintrfdBi

open Lib

/-- The interrupt of one thread: its pending bit and its flag in `uintr_received`. -/
structure Line where
  pending : Bool
  received : UInt64
  deriving DecidableEq, Repr

namespace Line

/-- `_senduipi` to the thread. -/
def senduipi (l : Line) : Line := { l with pending := true }

/-- `ui_handler` in the thread. -/
def uiHandler (l : Line) : Line := { l with received := 1 }

/-- The delivery of a pending interrupt. -/
def deliver (l : Line) : Option Line :=
  if l.pending then some { uiHandler l with pending := false } else none

/-- The store of `uintrfd_wait` that clears the flag. -/
def clear (l : Line) : Line := { l with received := 0 }

/-- The notifications that have been sent and not yet been waited for. -/
def underway (l : Line) : ℕ := l.pending.toNat + l.received.toNat

end Line

/-- Where `client_communicate` stands. `uintrfd_wait` consists of `spin` and `clear`. -/
inductive ClientPc where
  | spin
  | clear
  | notify
  | done
  deriving DecidableEq, Repr

/-- Where `server_communicate` stands. -/
inductive ServerPc where
  | stamp
  | notify
  | spin
  | clear
  | bench
  | done
  deriving DecidableEq, Repr

/-- The two lines, the two loops, and the finished calls of `uintrfd_notify` and
`uintrfd_wait`. `loop` is the variable of the client, `message` that of the server. -/
structure State where
  clientLine : Line
  serverLine : Line
  client : ClientPc
  loop : ℕ
  server : ServerPc
  message : ℕ
  bench : Benchmarks
  clientNotifies : ℕ
  clientWaits : ℕ
  serverNotifies : ℕ
  serverWaits : ℕ
  deriving DecidableEq, Repr

/-- The accesses of the two threads, and the deliveries. -/
inductive Action where
  | clientSpin
  | clientClear
  | clientNotify
  | clientDelivery
  | serverStamp (now : UInt64)
  | serverNotify
  | serverSpin
  | serverClear
  | serverBenchmark (now : UInt64)
  | serverDelivery
  deriving DecidableEq, Repr

/-- The head of the client's loop. -/
def clientHead (loop : ℕ) : ClientPc := if loop > 0 then .spin else .done

/-- The head of the server's loop. -/
def serverHead (count message : ℕ) : ServerPc := if message < count then .stamp else .done

/-- Both threads behind their set-up. -/
def start (count : ℕ) (bench : Benchmarks) : State :=
  ⟨⟨false, 0⟩, ⟨false, 0⟩, clientHead count, count, serverHead count 0, 0, bench, 0, 0, 0, 0⟩

/-- One step of either thread, or one delivery; `count` is `args->count`. -/
def step (count : ℕ) (s : State) : Action → Option State
  | .clientSpin =>
      if s.client = .spin then
        some (if s.clientLine.received ≠ 0 then { s with client := .clear } else s)
      else none
  | .clientClear =>
      if s.client = .clear then
        some { s with
          clientLine := s.clientLine.clear
          client := .notify
          clientWaits := s.clientWaits + 1 }
      else none
  | .clientNotify =>
      if s.client = .notify then
        some { s with
          serverLine := s.serverLine.senduipi
          client := clientHead (s.loop - 1)
          loop := s.loop - 1
          clientNotifies := s.clientNotifies + 1 }
      else none
  | .clientDelivery => s.clientLine.deliver.map fun line => { s with clientLine := line }
  | .serverStamp now =>
      if s.server = .stamp then
        some { s with server := .notify, bench := { s.bench with singleStart := now } }
      else none
  | .serverNotify =>
      if s.server = .notify then
        some { s with
          clientLine := s.clientLine.senduipi
          server := .spin
          serverNotifies := s.serverNotifies + 1 }
      else none
  | .serverSpin =>
      if s.server = .spin then
        some (if s.serverLine.received ≠ 0 then { s with server := .clear } else s)
      else none
  | .serverClear =>
      if s.server = .clear then
        some { s with
          serverLine := s.serverLine.clear
          server := .bench
          serverWaits := s.serverWaits + 1 }
      else none
  | .serverBenchmark now =>
      if s.server = .bench then
        some { s with
          server := serverHead count (s.message + 1)
          message := s.message + 1
          bench := benchmark s.bench now }
      else none
  | .serverDelivery => s.serverLine.deliver.map fun line => { s with serverLine := line }

section Inversion

variable {count : ℕ} {s t : State} {now : UInt64}

/-- A delivery needs a pending bit. -/
theorem Line.deliver_eq_some {l l' : Line} (h : l.deliver = some l') :
    l.pending = true ∧ l' = ⟨false, 1⟩ := by
  simp only [Line.deliver, Line.uiHandler, Option.ite_none_right_eq_some, Option.some.injEq] at h
  exact ⟨h.1, h.2.symm⟩

/-- What `clientSpin` does. -/
theorem step_clientSpin (h : step count s .clientSpin = some t) :
    s.client = .spin ∧ (s.clientLine.received ≠ 0 ∧ t = { s with client := .clear } ∨
      s.clientLine.received = 0 ∧ t = s) := by
  simp only [step, Option.ite_none_right_eq_some, Option.some.injEq] at h
  obtain ⟨hclient, rfl⟩ := h
  by_cases hflag : s.clientLine.received = 0
  · exact ⟨hclient, Or.inr ⟨hflag, if_neg (not_not_intro hflag)⟩⟩
  · exact ⟨hclient, Or.inl ⟨hflag, if_pos hflag⟩⟩

/-- What `clientClear` does. -/
theorem step_clientClear (h : step count s .clientClear = some t) :
    s.client = .clear ∧
      t = { s with
        clientLine := s.clientLine.clear
        client := .notify
        clientWaits := s.clientWaits + 1 } := by
  simpa [step, eq_comm] using h

/-- What `clientNotify` does. -/
theorem step_clientNotify (h : step count s .clientNotify = some t) :
    s.client = .notify ∧
      t = { s with
        serverLine := s.serverLine.senduipi
        client := clientHead (s.loop - 1)
        loop := s.loop - 1
        clientNotifies := s.clientNotifies + 1 } := by
  simpa [step, eq_comm] using h

/-- What `clientDelivery` does. -/
theorem step_clientDelivery (h : step count s .clientDelivery = some t) :
    s.clientLine.pending = true ∧ t = { s with clientLine := ⟨false, 1⟩ } := by
  simp only [step, Option.map_eq_some_iff] at h
  obtain ⟨line, hdeliver, rfl⟩ := h
  obtain ⟨hpending, rfl⟩ := Line.deliver_eq_some hdeliver
  exact ⟨hpending, rfl⟩

/-- What `serverStamp` does. -/
theorem step_serverStamp (h : step count s (.serverStamp now) = some t) :
    s.server = .stamp ∧
      t = { s with server := .notify, bench := { s.bench with singleStart := now } } := by
  simpa [step, eq_comm] using h

/-- What `serverNotify` does. -/
theorem step_serverNotify (h : step count s .serverNotify = some t) :
    s.server = .notify ∧
      t = { s with
        clientLine := s.clientLine.senduipi
        server := .spin
        serverNotifies := s.serverNotifies + 1 } := by
  simpa [step, eq_comm] using h

/-- What `serverSpin` does. -/
theorem step_serverSpin (h : step count s .serverSpin = some t) :
    s.server = .spin ∧ (s.serverLine.received ≠ 0 ∧ t = { s with server := .clear } ∨
      s.serverLine.received = 0 ∧ t = s) := by
  simp only [step, Option.ite_none_right_eq_some, Option.some.injEq] at h
  obtain ⟨hserver, rfl⟩ := h
  by_cases hflag : s.serverLine.received = 0
  · exact ⟨hserver, Or.inr ⟨hflag, if_neg (not_not_intro hflag)⟩⟩
  · exact ⟨hserver, Or.inl ⟨hflag, if_pos hflag⟩⟩

/-- What `serverClear` does. -/
theorem step_serverClear (h : step count s .serverClear = some t) :
    s.server = .clear ∧
      t = { s with
        serverLine := s.serverLine.clear
        server := .bench
        serverWaits := s.serverWaits + 1 } := by
  simpa [step, eq_comm] using h

/-- What `serverBenchmark` does. -/
theorem step_serverBenchmark (h : step count s (.serverBenchmark now) = some t) :
    s.server = .bench ∧
      t = { s with
        server := serverHead count (s.message + 1)
        message := s.message + 1
        bench := benchmark s.bench now } := by
  simpa [step, eq_comm] using h

/-- What `serverDelivery` does. -/
theorem step_serverDelivery (h : step count s .serverDelivery = some t) :
    s.serverLine.pending = true ∧ t = { s with serverLine := ⟨false, 1⟩ } := by
  simp only [step, Option.map_eq_some_iff] at h
  obtain ⟨line, hdeliver, rfl⟩ := h
  obtain ⟨hpending, rfl⟩ := Line.deliver_eq_some hdeliver
  exact ⟨hpending, rfl⟩

end Inversion

end IpcBench.UintrfdBi
