import IpcBench.Common.RoundTrip
import IpcBench.Eventfd.BiTokens

/-!
# Seen from outside, `eventfd-bi` is a timed loop

An observer sees the two readings of the clock in each turn of the server and the samples it
records. A process that has read the wrong token may write it back and read it again any
number of times, so a run can be arbitrarily long without showing anything; but from every
state of a turn a few steps lead to its end.
-/

namespace IpcBench.EventfdBi

open Lib

/-- What an observer sees of a step. -/
def event (_ : State) : Action → State → Option (Event UInt64)
  | .serverStamp now, _ => some (.stamp now)
  | .serverBenchmark now, _ => some (.sample now)
  | _, _ => none

/-- Whether the server is between the two readings of a turn. -/
def inTurn : ServerPc → Bool
  | .wait _ | .notify | .bench => true
  | .stamp | .done => false

/-- The loop of the server, with nothing of what it does in a turn. -/
def view (s : State) : TimedLoop UInt64 Benchmarks :=
  turnView (inTurn s.server) s.message s.bench

/-- At the head of its loop the server is between two turns. -/
theorem inTurn_serverHead (count message : ℕ) : inTurn (serverHead count message) = false := by
  unfold serverHead
  by_cases hmore : message < count
  · rw [if_pos hmore]
    rfl
  · rw [if_neg hmore]
    rfl

theorem view_start (count : ℕ) (bench : Benchmarks) :
    view (start count bench) = ⟨none, 0, bench⟩ := by
  rw [view, start, inTurn_serverHead]
  rfl

/-- A step that does not take the server into a turn or out of it. -/
theorem view_eq {s t : State} (hserver : inTurn t.server = inTurn s.server)
    (hmessage : t.message = s.message) (hbench : t.bench = s.bench) : view t = view s := by
  rw [view, view, hserver, hmessage, hbench]

namespace Inv

variable {count : ℕ} {s : State}

/-- A server that takes its first reading has a turn left. -/
theorem message_lt (h : Inv count s) (hserver : s.server = .stamp) : s.message < count := by
  have hready_lt : ∀ {k}, Ready count s.server s.message k → s.message < count := by
    intro k hready
    rw [hserver] at hready
    cases hready with
    | stamp hk => exact hk
  cases h.phase with
  | clientTurn _ _ hready | toServer _ hready | finished _ _ hready => exact hready_lt hready
  | serverTurn _ _ hnotify => simp [hserver] at hnotify
  | toClient _ htoken =>
    rcases htoken with ⟨_, hready⟩ | ⟨_, hhold, _⟩
    · exact hready_lt hready
    · simp [hserver] at hhold

/-- A server that has left its loop has finished all its turns. -/
theorem message_eq (h : Inv count s) (hserver : s.server = .done) : s.message = count := by
  have hready_eq : ∀ {k}, Ready count s.server s.message k → s.message = count := by
    intro k hready
    rw [hserver] at hready
    generalize s.message = message at hready ⊢
    cases hready with
    | done => rfl
  cases h.phase with
  | clientTurn _ _ hready | toServer _ hready | finished _ _ hready => exact hready_eq hready
  | serverTurn _ _ hnotify => simp [hserver] at hnotify
  | toClient _ htoken =>
    rcases htoken with ⟨_, hready⟩ | ⟨_, hhold, _⟩
    · exact hready_eq hready
    · simp [hserver] at hhold

end Inv

/-- Every step does to the loop what it shows. -/
theorem run_view {count : ℕ} {s t : State} {a : Action} (h : Inv count s)
    (hstep : step count s a = some t) :
    run (timed count) (view s) (event s a t).toList = some (view t) := by
  -- all but the two readings are silent
  have hsilent : ∀ {e : Option (Event UInt64)}, e = none → view t = view s →
      run (timed count) (view s) e.toList = some (view t) := by
    rintro _ rfl hsame
    rw [hsame]
    rfl
  cases a with
  | clientNotify =>
    simp only [step, Option.ite_none_right_eq_some, Option.map_eq_some_iff] at hstep
    obtain ⟨_, counter, _, rfl⟩ := hstep
    exact hsilent rfl (view_eq rfl rfl rfl)
  | clientWait =>
    refine hsilent rfl ?_
    cases hclient : s.client with
    | wait pc =>
      simp only [step, hclient, Option.map_eq_some_iff] at hstep
      obtain ⟨⟨counter, rest⟩, _, rfl⟩ := hstep
      cases rest <;> exact view_eq rfl rfl rfl
    | _ => simp [step, hclient] at hstep
  | serverStamp now =>
    simp only [step, Option.ite_none_right_eq_some, Option.some.injEq] at hstep
    obtain ⟨hserver, rfl⟩ := hstep
    have hmore := h.message_lt hserver
    rw [view, hserver]
    exact run_timed_stamp hmore now
  | serverWait =>
    refine hsilent rfl ?_
    cases hserver : s.server with
    | wait pc =>
      simp only [step, hserver, Option.map_eq_some_iff] at hstep
      obtain ⟨⟨counter, rest⟩, _, rfl⟩ := hstep
      cases rest <;> refine view_eq ?_ rfl rfl <;> rw [hserver] <;> rfl
    | _ => simp [step, hserver] at hstep
  | serverNotify =>
    simp only [step, Option.ite_none_right_eq_some, Option.map_eq_some_iff] at hstep
    obtain ⟨hserver, counter, _, rfl⟩ := hstep
    refine hsilent rfl (view_eq ?_ rfl rfl)
    rw [hserver]
    rfl
  | serverBenchmark now =>
    simp only [step, Option.ite_none_right_eq_some, Option.some.injEq] at hstep
    obtain ⟨hserver, rfl⟩ := hstep
    rw [view, view, hserver, inTurn_serverHead]
    exact run_timed_sample now

/-- How many steps it takes at least until the server, in a turn, can record its sample. -/
def distance (s : State) : ℕ :=
  match s.server with
  | .stamp | .bench | .done => 0
  | .notify => 1
  | .wait (.writeBack _) => 5
  | .wait .read =>
      match s.client with
      | .notify | .wait (.writeBack _) => 3
      | .wait .read => if s.counter = serverToken then 2 else 4
      | .done => 0

/-- A server between two turns with a turn left takes its first reading. -/
theorem shows_stamp {count : ℕ} {s : State} (now : UInt64) (h : Inv count s)
    (hbegun : (view s).begun = none) (hmore : (view s).finished < count) :
    ∃ a t, step count s a = some t ∧ event s a t = some (.stamp now) := by
  have hserver : s.server = .stamp := by
    cases hpc : s.server with
    | stamp => rfl
    | done => exact absurd (h.message_eq hpc) (Nat.ne_of_lt hmore)
    | _ =>
      have hout := turnView_eq_none hbegun
      rw [hpc] at hout
      cases hout
  exact ⟨.serverStamp now, _, if_pos hserver, rfl⟩

/-- While the server waits for its token, the client or the server itself can bring it
nearer. -/
theorem nearer_of_wait {count : ℕ} {s : State} {pc : WaitPc} (h : Inv count s)
    (hserver : s.server = .wait pc) :
    ∃ a t, step count s a = some t ∧ event s a t = none ∧ distance t < distance s := by
  cases h.phase with
  | clientTurn hclient hcounter hready hk =>
    rw [hserver] at hready
    obtain ⟨rfl, _⟩ := hready.of_wait
    refine ⟨.clientNotify, { s with
      counter := 1, client := .wait .read, clientNotifies := s.clientNotifies + 1 }, ?_, rfl, ?_⟩
    · simp [step, hclient, hcounter, eventFdWrite, eventFdMax, serverToken]
    · simp [distance, hserver, hclient, serverToken]
  | toServer htoken hready =>
    rw [hserver] at hready
    obtain ⟨rfl, _⟩ := hready.of_wait
    rcases htoken with ⟨hclient, hcounter⟩ | ⟨hclient, hcounter⟩
    · refine ⟨.serverWait, { s with
        counter := 0, server := .notify, serverWaits := s.serverWaits + 1 }, ?_, rfl, ?_⟩
      · simp [step, hserver, hcounter, eventfdWait, eventFdRead, serverToken]
      · simp [distance, hserver, hclient, hcounter, serverToken]
    · refine ⟨.clientWait, { s with counter := 1, client := .wait .read }, ?_, rfl, ?_⟩
      · simp [step, hclient, hcounter, eventfdWait, eventFdWrite, eventFdMax]
      · simp [distance, hserver, hclient, serverToken]
  | serverTurn _ _ hnotify => simp [hserver] at hnotify
  | toClient hclient htoken hk =>
    have hremaining := h.remaining_eq
    rcases htoken with ⟨hcounter, hready⟩ | ⟨hcounter, hhold, _⟩
    · rw [hserver] at hready
      obtain ⟨rfl, _, hmore⟩ := hready.of_wait
      -- the server waits for another turn, so the client has one left too
      have hhead : clientHead (s.remaining - 1) = .notify := if_pos (by omega)
      refine ⟨.clientWait, { s with
        counter := 0
        client := clientHead (s.remaining - 1)
        remaining := s.remaining - 1
        clientWaits := s.clientWaits + 1 }, ?_, rfl, ?_⟩
      · simp [step, hclient, hcounter, eventfdWait, eventFdRead, clientToken]
      · simp [distance, hserver, hclient, hcounter, hhead, serverToken]
    · refine ⟨.serverWait, { s with counter := 2, server := .wait .read }, ?_, rfl, ?_⟩
      · simp [step, hhold, hcounter, eventfdWait, eventFdWrite, eventFdMax]
      · simp [distance, hhold, hclient, serverToken]
  | finished _ _ hready hk =>
    rw [hserver] at hready
    exact absurd hk (Nat.ne_of_lt hready.of_wait.2.2)

/-- A server in a turn takes its second reading, or some step leads nearer to it. -/
theorem shows_sample {count : ℕ} {s : State} {start : UInt64} (now : UInt64) (h : Inv count s)
    (hbegun : (view s).begun = some start) :
    (∃ a t, step count s a = some t ∧ event s a t = some (.sample now)) ∨
      ∃ a t, step count s a = some t ∧ event s a t = none ∧ distance t < distance s := by
  cases hserver : s.server with
  | bench => exact Or.inl ⟨.serverBenchmark now, _, if_pos hserver, rfl⟩
  | wait pc => exact Or.inr (nearer_of_wait h hserver)
  | notify =>
    right
    have hwrite : eventFdWrite s.counter clientToken = some (s.counter + clientToken) := by
      refine eventFdWrite_eq_some.mpr ⟨?_, rfl⟩
      rcases h.counter_eq with hcounter | hcounter | hcounter <;> rw [hcounter] <;> decide
    refine ⟨.serverNotify, { s with
      counter := s.counter + clientToken
      server := .bench
      serverNotifies := s.serverNotifies + 1 }, ?_, rfl, ?_⟩
    · rw [step, if_pos hserver, hwrite, Option.map_some]
    · simp [distance, hserver]
  | stamp | done =>
    have hturn := turnView_eq_some hbegun
    rw [hserver] at hturn
    cases hturn

/-- `eventfd-bi`, for every count: what the server measures, with every interleaving of the two
processes and any number of misread tokens, are exactly the sequences and the results of a
loop that takes two readings in each of `count` turns. -/
theorem eventfdBi_shows_timed_loop (count : ℕ) (bench : Benchmarks)
    (events : List (Event UInt64)) (x : TimedLoop UInt64 Benchmarks) :
    (∃ s, Reaches (step count) event (start count bench) events s ∧ view s = x) ↔
      run (timed count) ⟨none, 0, bench⟩ events = some x := by
  rw [← view_start count bench]
  exact TimedLoop.reaches_view_iff (Inv count) view distance (fun h hstep => h.step hstep)
    run_view shows_stamp shows_sample (inv_start count bench)

end IpcBench.EventfdBi
