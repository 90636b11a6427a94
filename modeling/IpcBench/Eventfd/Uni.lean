import IpcBench.Lib.Runs
import IpcBench.Lib.EventFd
import IpcBench.Common.Benchmarks

/-!
# The timestamps of `eventfd-uni`

The server writes one timestamp after the other into an event descriptor and the
client reads them back into `bench.single_start`. The descriptor adds up what is
written and has no queue, and nothing makes the server wait for the client: two
timestamps that are written without a read in between arrive as their sum.
-/

namespace IpcBench.EventfdUni

open Lib

/-- A positive reading of the clock. -/
structure Timestamp where
  now : UInt64
  pos : 0 < now
  deriving DecidableEq, Repr

/-- Where `client_communicate` stands. The loop is left between two rounds. -/
inductive ClientPc where
  | read
  | bench
  | left
  deriving DecidableEq, Repr

/-- Where `server_communicate` stands. -/
inductive ServerPc where
  | stamp
  | write (timestamp : Timestamp)
  deriving DecidableEq, Repr

/-- The counter of the descriptor, the two processes, and what was written and read. -/
structure State where
  counter : ℕ
  client : ClientPc
  server : ServerPc
  bench : Benchmarks
  written : List UInt64
  received : List UInt64
  deriving DecidableEq, Repr

/-- The system calls and clock readings of the two processes. -/
inductive Action where
  | clientRead
  | clientBenchmark (now : UInt64)
  | clientLeave
  | serverStamp (now : Timestamp)
  | serverWrite
  deriving DecidableEq, Repr

/-- The two processes after the `fork`, with the fresh descriptor of `eventfd(0, 0)`. -/
def start (bench : Benchmarks) : State := ⟨0, .read, .stamp, bench, [], []⟩

/-- One step of either process. -/
def step (s : State) : Action → Option State
  | .clientRead =>
      if s.client = .read then
        (eventFdRead s.counter).map fun (value, counter) =>
          { s with
            counter := counter
            client := .bench
            bench := { s.bench with singleStart := UInt64.ofNat value }
            received := s.received ++ [UInt64.ofNat value] }
      else none
  | .clientBenchmark now =>
      if s.client = .bench then
        some { s with client := .read, bench := benchmark s.bench now }
      else none
  | .clientLeave => if s.client = .read then some { s with client := .left } else none
  | .serverStamp now =>
      if s.server = .stamp then some { s with server := .write now } else none
  | .serverWrite =>
      match s.server with
      | .write timestamp =>
          (eventFdWrite s.counter timestamp.now.toNat).map fun counter =>
            { s with
              counter := counter
              server := .stamp
              written := s.written ++ [timestamp.now] }
      | .stamp => none

section Inversion

variable {s t : State}

/-- What `clientRead` does. -/
theorem step_clientRead (h : step s .clientRead = some t) :
    s.client = .read ∧ s.counter ≠ 0 ∧
      t = { s with
        counter := 0
        client := .bench
        bench := { s.bench with singleStart := UInt64.ofNat s.counter }
        received := s.received ++ [UInt64.ofNat s.counter] } := by
  simp only [step, Option.ite_none_right_eq_some, Option.map_eq_some_iff] at h
  obtain ⟨hclient, ⟨value, counter⟩, hread, rfl⟩ := h
  simp only [eventFdRead, Option.ite_none_left_eq_some, Option.some.injEq, Prod.mk.injEq] at hread
  obtain ⟨hcounter, rfl, rfl⟩ := hread
  exact ⟨hclient, hcounter, rfl⟩

/-- What `serverWrite` does. -/
theorem step_serverWrite (h : step s .serverWrite = some t) :
    ∃ timestamp, s.server = .write timestamp ∧ s.counter + timestamp.now.toNat ≤ eventFdMax ∧
      t = { s with
        counter := s.counter + timestamp.now.toNat
        server := .stamp
        written := s.written ++ [timestamp.now] } := by
  cases hserver : s.server with
  | stamp => simp [step, hserver] at h
  | write timestamp =>
    simp only [step, hserver, Option.map_eq_some_iff, eventFdWrite_eq_some] at h
    obtain ⟨counter, ⟨hfit, rfl⟩, rfl⟩ := h
    exact ⟨timestamp, rfl, hfit, rfl⟩

end Inversion

/-- The values read are the timestamps written, in order, and what the next read is
going to return is the next timestamp. -/
structure Delivers (s : State) : Prop where
  intact : ∀ (k : ℕ) value, s.received[k]? = some value → s.written[k]? = some value
  next : s.client ≠ .left → ∀ value counter, eventFdRead s.counter = some (value, counter) →
    s.written[s.received.length]? = some (UInt64.ofNat value)

/-- The server writes only when the last timestamp has been taken, or when the client
has left and reads no more. -/
def WritesIntoEmpty (s : State) (a : Action) : Prop :=
  a = .serverWrite → s.counter = 0 ∨ s.client = .left

instance (s : State) (a : Action) : Decidable (WritesIntoEmpty s a) :=
  inferInstanceAs (Decidable (a = .serverWrite → s.counter = 0 ∨ s.client = .left))

/-- What holds as long as the server writes into the empty counter: at most one
timestamp is under way. -/
structure Inv (s : State) : Prop where
  received_prefix : s.received <+: s.written
  underway : s.client ≠ .left → s.counter = 0 ∧ s.written = s.received ∨
    ∃ timestamp : Timestamp, s.counter = timestamp.now.toNat ∧
      s.written = s.received ++ [timestamp.now]

/-- The invariant holds after the `fork`. -/
theorem inv_start (bench : Benchmarks) : Inv (start bench) :=
  ⟨List.prefix_refl _, fun _ => Or.inl ⟨rfl, rfl⟩⟩

namespace Inv

variable {s t : State}

/-- Under the invariant the timestamps arrive as they were written. -/
theorem delivers (h : Inv s) : Delivers s := by
  refine ⟨fun k value hvalue => ?_, fun hclient value counter hread => ?_⟩
  · obtain ⟨rest, hrest⟩ := h.received_prefix
    have hlt := (List.getElem?_eq_some_iff.mp hvalue).1
    rw [← hrest, List.getElem?_append_left hlt, hvalue]
  · simp only [eventFdRead, Option.ite_none_left_eq_some, Option.some.injEq,
      Prod.mk.injEq] at hread
    obtain ⟨hcounter, rfl, _⟩ := hread
    rcases h.underway hclient with ⟨hzero, _⟩ | ⟨timestamp, hfull, hwritten⟩
    · exact absurd hzero hcounter
    · rw [hwritten, hfull, List.getElem?_concat_length, UInt64.ofNat_toNat]

/-- The client reads the one timestamp that is under way. -/
theorem clientRead (h : Inv s) (hstep : step s .clientRead = some t) : Inv t := by
  obtain ⟨hclient, hcounter, rfl⟩ := step_clientRead hstep
  rcases h.underway (by simp [hclient]) with ⟨hzero, _⟩ | ⟨timestamp, hfull, hwritten⟩
  · exact absurd hzero hcounter
  · have hall : s.received ++ [UInt64.ofNat s.counter] = s.written := by
      rw [hwritten, hfull, UInt64.ofNat_toNat]
    exact ⟨hall ▸ List.prefix_refl _, fun _ => Or.inl ⟨rfl, hall.symm⟩⟩

/-- A write into the empty counter, or one that nobody will read. -/
theorem serverWrite (h : Inv s) (hempty : s.counter = 0 ∨ s.client = .left)
    (hstep : step s .serverWrite = some t) : Inv t := by
  obtain ⟨timestamp, _, _, rfl⟩ := step_serverWrite hstep
  refine ⟨h.received_prefix.trans (List.prefix_append _ _), fun hclient => ?_⟩
  have hzero : s.counter = 0 := hempty.resolve_right hclient
  rcases h.underway hclient with ⟨_, hwritten⟩ | ⟨last, hfull, _⟩
  · exact Or.inr ⟨timestamp, by simp [hzero], by simp [hwritten]⟩
  · have hpos := UInt64.lt_iff_toNat_lt.mp last.pos
    rw [← hfull, hzero] at hpos
    exact absurd hpos (Nat.lt_irrefl _)

/-- Every step that meets the condition keeps the invariant. -/
theorem step {a : Action} (h : Inv s) (hmet : WritesIntoEmpty s a)
    (hstep : EventfdUni.step s a = some t) : Inv t := by
  cases a with
  | clientRead => exact h.clientRead hstep
  | serverWrite => exact h.serverWrite (hmet rfl) hstep
  | clientBenchmark now =>
    simp only [EventfdUni.step, Option.ite_none_right_eq_some, Option.some.injEq] at hstep
    obtain ⟨hclient, rfl⟩ := hstep
    exact ⟨h.received_prefix, fun _ => h.underway (by simp [hclient])⟩
  | clientLeave =>
    simp only [EventfdUni.step, Option.ite_none_right_eq_some, Option.some.injEq] at hstep
    obtain ⟨_, rfl⟩ := hstep
    exact ⟨h.received_prefix, fun hclient => absurd rfl hclient⟩
  | serverStamp now =>
    simp only [EventfdUni.step, Option.ite_none_right_eq_some, Option.some.injEq] at hstep
    obtain ⟨_, rfl⟩ := hstep
    exact ⟨h.received_prefix, h.underway⟩

/-- A write on top of an unread timestamp: the next read returns the sum, which is
larger than the timestamp it should return. -/
theorem not_delivers {a : Action} (h : Inv s) (hmet : ¬ WritesIntoEmpty s a)
    (hstep : EventfdUni.step s a = some t) : ¬ Delivers t := by
  simp only [WritesIntoEmpty, Classical.not_imp, not_or] at hmet
  obtain ⟨rfl, hcounter, hclient⟩ := hmet
  obtain ⟨timestamp, _, hfit, rfl⟩ := step_serverWrite hstep
  rcases h.underway hclient with ⟨hzero, _⟩ | ⟨last, hfull, hwritten⟩
  · exact absurd hzero hcounter
  · intro hdelivers
    have hpos := UInt64.lt_iff_toNat_lt.mp timestamp.pos
    have hread : eventFdRead (s.counter + timestamp.now.toNat) =
        some (s.counter + timestamp.now.toNat, 0) := by
      rw [eventFdRead, if_neg (by omega)]
    have hnext := hdelivers.next hclient _ _ hread
    simp only [hwritten, List.append_assoc, List.singleton_append] at hnext
    rw [List.getElem?_append_right (Nat.le_refl _), Nat.sub_self, List.getElem?_cons_zero,
      Option.some.injEq] at hnext
    have hlt : s.counter + timestamp.now.toNat < UInt64.size :=
      Nat.lt_of_le_of_lt hfit (by decide)
    have hsum := congrArg UInt64.toNat hnext
    rw [UInt64.toNat_ofNat_of_lt' hlt, hfull] at hsum
    rw [UInt64.toNat_zero] at hpos
    omega

end Inv

/-- The timestamps of `eventfd-uni`, for every sequence of positive timestamps and
every interleaving: in every state of a run the `k`-th value read is the `k`-th
timestamp written, and the next read is going to return the next one, if and only if
the server never writes while a timestamp is still waiting for the client. -/
theorem delivers_iff_writesIntoEmpty (bench : Benchmarks) (actions : List Action) (s : State)
    (hrun : run step (start bench) actions = some s) :
    Throughout step Delivers (start bench) actions ↔
      Meets step WritesIntoEmpty (start bench) actions :=
  throughout_iff_meets Inv (fun h => h.delivers) (fun h hmet hstep => h.step hmet hstep)
    (fun h hmet hstep => h.not_delivers hmet hstep) (inv_start bench) hrun

/-- A round of each process in turn delivers its timestamp. -/
theorem delivers_iff_writesIntoEmpty_in_turn :
    Throughout step Delivers (start ⟨0, 0, 0, 0, 0, 0, 0⟩)
      [.serverStamp ⟨5, by decide⟩, .serverWrite, .clientRead, .clientBenchmark 9] :=
  (delivers_iff_writesIntoEmpty _ _ _ rfl).mpr (by decide)

/-- Two writes before the first read: the client receives `5 + 7` instead of `5`. -/
theorem two_timestamps_merged :
    ∃ s, run step (start ⟨0, 0, 0, 0, 0, 0, 0⟩)
        [.serverStamp ⟨5, by decide⟩, .serverWrite, .serverStamp ⟨7, by decide⟩, .serverWrite,
          .clientRead] = some s ∧
      s.written = [5, 7] ∧ s.received = [12] ∧
      ¬ ∀ (k : ℕ) value, s.received[k]? = some value → s.written[k]? = some value := by
  refine ⟨_, rfl, rfl, rfl, fun h => ?_⟩
  have hfirst := h 0 12 rfl
  exact absurd hfirst (by decide)

end IpcBench.EventfdUni
