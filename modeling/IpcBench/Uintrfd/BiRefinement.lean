import IpcBench.Common.RoundTrip
import IpcBench.Uintrfd.BiPingPong

/-!
# Seen from outside, `uintrfd-bi` is a timed loop

An observer sees the two readings of the clock in each turn of the server and the samples it
records. A thread may look at its flag in vain any number of times before the interrupt is
delivered, so a run can be arbitrarily long without showing anything; but from every state of
a turn a few steps lead to its end.
-/

namespace IpcBench.UintrfdBi

open Lib

/-- What an observer sees of a step. -/
def event (_ : State) : Action → State → Option (Event UInt64)
  | .serverStamp now, _ => some (.stamp now)
  | .serverBenchmark now, _ => some (.sample now)
  | _, _ => none

/-- Whether the server is between the two readings of a turn. -/
def inTurn : ServerPc → Bool
  | .notify | .spin | .clear | .bench => true
  | .stamp | .done => false

/-- The loop of the server, with nothing of what it does in a turn. -/
def view (s : State) : TimedLoop UInt64 Benchmarks :=
  turnView (inTurn s.server) s.message s.bench

/-- At the head of its loop the server is between two turns. -/
theorem inTurn_serverHead (count message : ℕ) : inTurn (serverHead count message) = false := by
  unfold serverHead
  by_cases hmore : message < count
  · rw [if_pos hmore]
    rfl
  · rw [if_neg hmore]
    rfl

theorem view_start (count : ℕ) (bench : Benchmarks) :
    view (start count bench) = ⟨none, 0, bench⟩ := by
  rw [view, start, inTurn_serverHead]
  rfl

/-- A step that does not take the server into a turn or out of it. -/
theorem view_eq {s t : State} (hserver : inTurn t.server = inTurn s.server)
    (hmessage : t.message = s.message) (hbench : t.bench = s.bench) : view t = view s := by
  rw [view, view, hserver, hmessage, hbench]

/-- A server that takes its first reading has a turn left. -/
theorem Inv.message_lt {count : ℕ} {s : State} (h : Inv count s) (hserver : s.server = .stamp) :
    s.message < count := by
  cases h.phase with
  | serverTurn _ hready =>
    rw [hserver] at hready
    generalize s.message = message at hready ⊢
    cases hready with
    | stamp hk => exact hk
  | toClient _ hspin | clientTurn _ hspin => simp [hserver] at hspin
  | toServer _ harriving => simp [Arriving, hserver] at harriving

/-- Every step does to the loop what it shows. -/
theorem run_view {count : ℕ} {s t : State} {a : Action} (h : Inv count s)
    (hstep : step count s a = some t) :
    run (timed count) (view s) (event s a t).toList = some (view t) := by
  -- all but the two readings are silent
  have hsilent : ∀ {e : Option (Event UInt64)}, e = none → view t = view s →
      run (timed count) (view s) e.toList = some (view t) := by
    rintro _ rfl hsame
    rw [hsame]
    rfl
  cases a with
  | clientSpin =>
    obtain ⟨_, ⟨_, rfl⟩ | ⟨_, rfl⟩⟩ := step_clientSpin hstep <;>
      exact hsilent rfl (view_eq rfl rfl rfl)
  | clientClear =>
    obtain ⟨_, rfl⟩ := step_clientClear hstep
    exact hsilent rfl (view_eq rfl rfl rfl)
  | clientNotify =>
    obtain ⟨_, rfl⟩ := step_clientNotify hstep
    exact hsilent rfl (view_eq rfl rfl rfl)
  | clientDelivery =>
    obtain ⟨_, rfl⟩ := step_clientDelivery hstep
    exact hsilent rfl (view_eq rfl rfl rfl)
  | serverStamp now =>
    obtain ⟨hserver, rfl⟩ := step_serverStamp hstep
    rw [view, hserver]
    exact run_timed_stamp (h.message_lt hserver) now
  | serverNotify =>
    obtain ⟨hserver, rfl⟩ := step_serverNotify hstep
    refine hsilent rfl (view_eq ?_ rfl rfl)
    rw [hserver]
    rfl
  | serverSpin =>
    obtain ⟨hserver, ⟨_, rfl⟩ | ⟨_, rfl⟩⟩ := step_serverSpin hstep
    · refine hsilent rfl (view_eq ?_ rfl rfl)
      rw [hserver]
      rfl
    · exact hsilent rfl rfl
  | serverClear =>
    obtain ⟨hserver, rfl⟩ := step_serverClear hstep
    refine hsilent rfl (view_eq ?_ rfl rfl)
    rw [hserver]
    rfl
  | serverBenchmark now =>
    obtain ⟨hserver, rfl⟩ := step_serverBenchmark hstep
    rw [view, view, hserver, inTurn_serverHead]
    exact run_timed_sample now
  | serverDelivery =>
    obtain ⟨_, rfl⟩ := step_serverDelivery hstep
    exact hsilent rfl (view_eq rfl rfl rfl)

/-- How many steps it takes at least until the server, in a turn, can record its sample. -/
def distance (s : State) : ℕ :=
  match s.server with
  | .stamp | .bench | .done => 0
  | .clear => 1
  | .spin =>
      if s.serverLine = ⟨false, 1⟩ then 2
      else if s.serverLine.pending then 3
      else
        match s.client with
        | .notify => 4
        | .clear => 5
        | .spin => if s.clientLine.pending then 7 else 6
        | .done => 0
  | .notify => 8

/-- A server that has notified is nearer to its sample than before. -/
theorem distance_lt {s : State} (hserver : s.server = .spin) : distance s < 8 := by
  rw [distance, hserver]
  dsimp only
  split_ifs
  · omega
  · omega
  · cases s.client <;> dsimp only <;> omega
  · cases s.client <;> dsimp only <;> omega

/-- A server between two turns with a turn left takes its first reading. -/
theorem shows_stamp {count : ℕ} {s : State} (now : UInt64) (h : Inv count s)
    (hbegun : (view s).begun = none) (hmore : (view s).finished < count) :
    ∃ a t, step count s a = some t ∧ event s a t = some (.stamp now) := by
  have hserver : s.server = .stamp := by
    cases hpc : s.server with
    | stamp => rfl
    | done => exact absurd (h.done_counts hpc).1 (Nat.ne_of_lt hmore)
    | _ =>
      have hout := turnView_eq_none hbegun
      rw [hpc] at hout
      cases hout
  exact ⟨.serverStamp now, _, if_pos hserver, rfl⟩

/-- While the server waits for its answer, a delivery or a step of either thread brings it
nearer. -/
theorem nearer_of_spin {count : ℕ} {s : State} (h : Inv count s) (hserver : s.server = .spin) :
    ∃ a t, step count s a = some t ∧ event s a t = none ∧ distance t < distance s := by
  cases h.phase with
  | serverTurn _ hready =>
    rw [hserver] at hready
    cases hready
  | toClient harriving _ _ _ hserverLine =>
    rcases harriving with ⟨hclient, hline | hline⟩ | ⟨hclient, _⟩
    · refine ⟨.clientDelivery, { s with clientLine := ⟨false, 1⟩ }, ?_, rfl, ?_⟩
      · rw [step, hline]
        rfl
      · simp [distance, hserver, hserverLine, Line.quiet, hclient, hline]
    · refine ⟨.clientSpin, { s with client := .clear }, ?_, rfl, ?_⟩
      · simp [step, hclient, hline]
      · simp [distance, hserver, hserverLine, Line.quiet, hclient, hline]
    · refine ⟨.clientClear, { s with
        clientLine := s.clientLine.clear
        client := .notify
        clientWaits := s.clientWaits + 1 }, if_pos hclient, rfl, ?_⟩
      simp [distance, hserver, hserverLine, Line.quiet, hclient]
  | clientTurn hclient _ _ _ _ hserverLine =>
    refine ⟨.clientNotify, _, if_pos hclient, rfl, ?_⟩
    simp [distance, hserver, hserverLine, Line.quiet, Line.senduipi, hclient]
  | toServer _ harriving =>
    rcases harriving with ⟨_, hline | hline⟩ | ⟨hclear, _⟩
    · refine ⟨.serverDelivery, { s with serverLine := ⟨false, 1⟩ }, ?_, rfl, ?_⟩
      · rw [step, hline]
        rfl
      · simp [distance, hserver, hline]
    · refine ⟨.serverSpin, { s with server := .clear }, ?_, rfl, ?_⟩
      · simp [step, hserver, hline]
      · simp [distance, hserver, hline]
    · simp [hserver] at hclear

/-- A server in a turn takes its second reading, or some step leads nearer to it. -/
theorem shows_sample {count : ℕ} {s : State} {start : UInt64} (now : UInt64) (h : Inv count s)
    (hbegun : (view s).begun = some start) :
    (∃ a t, step count s a = some t ∧ event s a t = some (.sample now)) ∨
      ∃ a t, step count s a = some t ∧ event s a t = none ∧ distance t < distance s := by
  cases hserver : s.server with
  | bench => exact Or.inl ⟨.serverBenchmark now, _, if_pos hserver, rfl⟩
  | spin => exact Or.inr (nearer_of_spin h hserver)
  | clear =>
    refine Or.inr ⟨.serverClear, _, if_pos hserver, rfl, ?_⟩
    simp [distance, hserver]
  | notify =>
    refine Or.inr ⟨.serverNotify, _, if_pos hserver, rfl, ?_⟩
    have hfar : distance s = 8 := by rw [distance, hserver]
    rw [hfar]
    exact distance_lt rfl
  | stamp | done =>
    have hturn := turnView_eq_some hbegun
    rw [hserver] at hturn
    cases hturn

/-- `uintrfd-bi`, for every count: what the server measures, with every interleaving of the two
threads and the deliveries, are exactly the sequences and the results of a loop that takes two
readings in each of `count` turns. -/
theorem uintrfdBi_shows_timed_loop (count : ℕ) (bench : Benchmarks)
    (events : List (Event UInt64)) (x : TimedLoop UInt64 Benchmarks) :
    (∃ s, Reaches (step count) event (start count bench) events s ∧ view s = x) ↔
      run (timed count) ⟨none, 0, bench⟩ events = some x := by
  rw [← view_start count bench]
  exact TimedLoop.reaches_view_iff (Inv count) view distance (fun h hstep => h.step hstep)
    run_view shows_stamp shows_sample (inv_start count bench)

end IpcBench.UintrfdBi
