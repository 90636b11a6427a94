import IpcBench.Lib.Runs
import IpcBench.Common.Arguments
import IpcBench.Common.Benchmarks

/-!
# The interrupt handler of `uintrfd-uni`

The client thread sends an interrupt per round and waits for the flag
`uintr_received`. The handler runs on the main thread, which meanwhile spins on
`uintr_count`: while the handler runs the main thread does not, but the client may.
Every `_senduipi` is owed one run of the handler. Besides the shared variables the
state keeps the values stored into `single_start`, one for each round, and the pairs
of readings from which the handler has computed its samples.
-/

namespace IpcBench.UintrfdUni

open Lib

/-- Where the loop of `client_communicate` stands. -/
inductive ClientPc where
  | clear
  | stamp
  | send
  | spin
  | done
  deriving DecidableEq, Repr

/-- Where `ui_handler` stands: not running, before the reading of the clock in
`benchmark`, before the rest of `benchmark`, before `uintr_count++`, and before the
store into `uintr_received`. -/
inductive HandlerPc where
  | idle
  | clock
  | sample (now : UInt64)
  | count
  | flag
  deriving DecidableEq, Repr

/-- Where `server_communicate` stands: in its loop, or at `evaluate`. -/
inductive MainPc where
  | spin
  | evaluate
  deriving DecidableEq, Repr

/-- The shared variables, the three control flows, the handler runs still owed, and
the record. -/
structure State where
  received : UInt64
  uintrCount : UInt32
  bench : Benchmarks
  client : ClientPc
  loop : Int32
  owed : ℕ
  handler : HandlerPc
  main : MainPc
  starts : List UInt64
  samples : List (UInt64 × UInt64)
  deriving DecidableEq, Repr

/-- The accesses of the three control flows. -/
inductive Action where
  | clientClear
  | clientStamp (now : UInt64)
  | clientSend
  | clientSpin
  | handlerEnter
  | handlerNow (now : UInt64)
  | handlerSample
  | handlerCount
  | handlerFlag
  | mainSpin
  deriving DecidableEq, Repr

/-- The head of the client's loop. -/
def clientHead (loop : Int32) : ClientPc := if loop > 0 then .clear else .done

/-- Behind `pthread_create` in `communicate`, with the client in front of its loop.
The globals start as zero and `setup_benchmarks` has run. -/
def start (args : Arguments) (bench : Benchmarks) (now : UInt64) : State :=
  ⟨0, 0, setupBenchmarks bench now, clientHead args.count, args.count, 0, .idle, .spin, [], []⟩

/-- One step of the client, of the handler, or of the main thread. -/
def step (args : Arguments) (s : State) : Action → Option State
  | .clientClear =>
      if s.client = .clear then some { s with received := 0, client := .stamp } else none
  | .clientStamp now =>
      if s.client = .stamp then
        some { s with
          bench := { s.bench with singleStart := now }
          client := .send
          starts := s.starts ++ [now] }
      else none
  | .clientSend =>
      if s.client = .send then some { s with client := .spin, owed := s.owed + 1 } else none
  | .clientSpin =>
      if s.client = .spin then
        some (if s.received ≠ 0 then
            { s with client := clientHead (s.loop - 1), loop := s.loop - 1 }
          else s)
      else none
  | .handlerEnter =>
      if s.handler = .idle ∧ s.owed ≠ 0 then
        some { s with handler := .clock, owed := s.owed - 1 }
      else none
  | .handlerNow now =>
      if s.handler = .clock then some { s with handler := .sample now } else none
  | .handlerSample =>
      match s.handler with
      | .sample now =>
          some { s with
            bench := benchmark s.bench now
            handler := .count
            samples := s.samples ++ [(s.bench.singleStart, now)] }
      | _ => none
  | .handlerCount =>
      if s.handler = .count then
        some { s with uintrCount := s.uintrCount + 1, handler := .flag }
      else none
  | .handlerFlag =>
      if s.handler = .flag then some { s with received := 1, handler := .idle } else none
  | .mainSpin =>
      if s.main = .spin ∧ s.handler = .idle then
        some (if s.uintrCount < args.count.toUInt32 then s else { s with main := .evaluate })
      else none

section Inversion

variable {args : Arguments} {s t : State} {now : UInt64}

/-- What `clientClear` does. -/
theorem step_clientClear (h : step args s .clientClear = some t) :
    s.client = .clear ∧ t = { s with received := 0, client := .stamp } := by
  simpa [step, eq_comm] using h

/-- What `clientStamp` does. -/
theorem step_clientStamp (h : step args s (.clientStamp now) = some t) :
    s.client = .stamp ∧
      t = { s with
        bench := { s.bench with singleStart := now }
        client := .send
        starts := s.starts ++ [now] } := by
  simpa [step, eq_comm] using h

/-- What `clientSend` does. -/
theorem step_clientSend (h : step args s .clientSend = some t) :
    s.client = .send ∧ t = { s with client := .spin, owed := s.owed + 1 } := by
  simpa [step, eq_comm] using h

/-- What `clientSpin` does. -/
theorem step_clientSpin (h : step args s .clientSpin = some t) :
    s.client = .spin ∧
      (s.received ≠ 0 ∧ t = { s with client := clientHead (s.loop - 1), loop := s.loop - 1 } ∨
        s.received = 0 ∧ t = s) := by
  simp only [step, Option.ite_none_right_eq_some, Option.some.injEq] at h
  obtain ⟨hclient, rfl⟩ := h
  by_cases hflag : s.received = 0
  · exact ⟨hclient, Or.inr ⟨hflag, if_neg (not_not_intro hflag)⟩⟩
  · exact ⟨hclient, Or.inl ⟨hflag, if_pos hflag⟩⟩

/-- What `handlerEnter` does. -/
theorem step_handlerEnter (h : step args s .handlerEnter = some t) :
    s.handler = .idle ∧ s.owed ≠ 0 ∧ t = { s with handler := .clock, owed := s.owed - 1 } := by
  simp only [step, Option.ite_none_right_eq_some, Option.some.injEq] at h
  exact ⟨h.1.1, h.1.2, h.2.symm⟩

/-- What `handlerNow` does. -/
theorem step_handlerNow (h : step args s (.handlerNow now) = some t) :
    s.handler = .clock ∧ t = { s with handler := .sample now } := by
  simpa [step, eq_comm] using h

/-- What `handlerSample` does. -/
theorem step_handlerSample (h : step args s .handlerSample = some t) :
    ∃ now, s.handler = .sample now ∧
      t = { s with
        bench := benchmark s.bench now
        handler := .count
        samples := s.samples ++ [(s.bench.singleStart, now)] } := by
  cases hhandler : s.handler with
  | sample now =>
    simp only [step, hhandler, Option.some.injEq] at h
    exact ⟨now, rfl, h.symm⟩
  | _ => simp [step, hhandler] at h

/-- What `handlerCount` does. -/
theorem step_handlerCount (h : step args s .handlerCount = some t) :
    s.handler = .count ∧ t = { s with uintrCount := s.uintrCount + 1, handler := .flag } := by
  simpa [step, eq_comm] using h

/-- What `handlerFlag` does. -/
theorem step_handlerFlag (h : step args s .handlerFlag = some t) :
    s.handler = .flag ∧ t = { s with received := 1, handler := .idle } := by
  simpa [step, eq_comm] using h

/-- What `mainSpin` does. -/
theorem step_mainSpin (h : step args s .mainSpin = some t) :
    s.main = .spin ∧ s.handler = .idle ∧
      (s.uintrCount < args.count.toUInt32 ∧ t = s ∨
        ¬ s.uintrCount < args.count.toUInt32 ∧ t = { s with main := .evaluate }) := by
  simp only [step, Option.ite_none_right_eq_some, Option.some.injEq] at h
  obtain ⟨⟨hmain, hhandler⟩, rfl⟩ := h
  by_cases hmore : s.uintrCount < args.count.toUInt32
  · exact ⟨hmain, hhandler, Or.inl ⟨hmore, if_pos hmore⟩⟩
  · exact ⟨hmain, hhandler, Or.inr ⟨hmore, if_neg hmore⟩⟩

end Inversion

end IpcBench.UintrfdUni
