import IpcBench.Common.RoundTrip
import IpcBench.Signal.Completion

/-!
# Seen from outside, the server of `signal` is a timed loop

The client of `signal` never ends, but this does not show in what the server measures: as
soon as the first notification has woken it, an observer of its readings and samples sees a
loop of `args->count` turns, with nothing of the signals between them.
-/

namespace IpcBench.SignalBench

open Lib

/-- What an observer sees of a step. -/
def event (_ : State) : Action → State → Option (Event UInt64)
  | .serverStamp now, _ => some (.stamp now)
  | .serverBenchmark now, _ => some (.sample now)
  | _, _ => none

/-- Whether the server is between the two readings of a turn. -/
def inTurn : ServerPc → Bool
  | .notify | .wait | .bench => true
  | .begin | .setup | .stamp | .done => false

/-- The loop of the server, with nothing of what it does in a turn. -/
def view (s : State) : TimedLoop UInt64 Benchmarks :=
  turnView (inTurn s.server) s.message.toInt.toNat s.bench

/-- The server in front of its loop, behind `setup_benchmarks`. -/
def loopStart (args : Arguments) (bench : Benchmarks) : State :=
  ⟨⟨.ready false false, 1, 1, 0, 0⟩, .wait, args, serverHead args 0, 0, bench, 0, []⟩

/-- The server has been woken and has set up its record. -/
structure InLoop (args : Arguments) (s : State) : Prop where
  inv : Inv args s
  entered : s.server ≠ .begin ∧ s.server ≠ .setup

/-- The first three calls, which can be made in one order only. -/
theorem run_to_loopStart {args : Arguments} (hcount : 0 < args.count) (bench : Benchmarks)
    (now : UInt64) :
    run (step args) (start args bench) [.clientBegin, .serverBegin, .serverSetup now] =
      some (loopStart args (setupBenchmarks bench now)) := by
  have hwoken : SignalLink.start.notifyServer.serverWait =
      some ⟨.ready false false, 1, 1, 0, 0⟩ := by decide
  simp [run, step, start, clientHead_eq hcount, hwoken, loopStart]

/-- At the head of its loop the server is between two turns. -/
theorem serverHead_cases (args : Arguments) (message : Int32) :
    serverHead args message = .stamp ∨ serverHead args message = .done := by
  unfold serverHead
  by_cases hmore : message < args.count
  · exact Or.inl (if_pos hmore)
  · exact Or.inr (if_neg hmore)

theorem inTurn_serverHead (args : Arguments) (message : Int32) :
    inTurn (serverHead args message) = false := by
  rcases serverHead_cases args message with hhead | hhead <;> rw [hhead] <;> rfl

theorem inLoop_loopStart {args : Arguments} (hcount : 0 < args.count) (bench : Benchmarks)
    (now : UInt64) : InLoop args (loopStart args (setupBenchmarks bench now)) := by
  refine ⟨run_invariant (Inv args) (fun h hstep => h.step hcount hstep) (inv_start args bench)
    (run_to_loopStart hcount bench now), ?_⟩
  rcases serverHead_cases args 0 with hhead | hhead <;> simp [loopStart, hhead]

theorem view_loopStart (args : Arguments) (bench : Benchmarks) :
    view (loopStart args bench) = ⟨none, 0, bench⟩ := by
  rw [view, loopStart, inTurn_serverHead]
  rfl

/-- A step that does not take the server into a turn or out of it. -/
theorem view_eq {s t : State} (hserver : inTurn t.server = inTurn s.server)
    (hmessage : t.message = s.message) (hbench : t.bench = s.bench) : view t = view s := by
  rw [view, view, hserver, hmessage, hbench]

namespace InLoop

variable {args : Arguments} {s t : State} {a : Action}

/-- Where the server is when no turn has begun. -/
theorem between (h : InLoop args s) (hserver : inTurn s.server = false) :
    s.server = .stamp ∧ s.message.toInt < args.count.toInt ∨
      s.server = .done ∧ s.message.toInt = args.count.toInt := by
  cases h.inv.phase with
  | ready _ hready =>
    cases hpc : s.server with
    | stamp =>
      rw [hpc] at hready
      obtain ⟨hk, hmore⟩ := hready.of_stamp
      exact Or.inl ⟨rfl, by omega⟩
    | done =>
      rw [hpc] at hready
      exact Or.inr ⟨rfl, hready.of_done.1⟩
    | begin => exact absurd hpc h.entered.1
    | setup => exact absurd hpc h.entered.2
    | notify | wait | bench =>
      rw [hpc] at hserver
      cases hserver
  | begin _ hpc | asked _ hpc => exact absurd hpc h.entered.1
  | setup _ hpc => exact absurd hpc h.entered.2
  | toClient _ hpc | clientTurn _ hpc | toServer _ hpc =>
    rw [hpc] at hserver
    cases hserver

/-- The server stays in its loop. -/
theorem step (h : InLoop args s) (hcount : 0 < args.count)
    (hstep : SignalBench.step args s a = some t) : InLoop args t := by
  refine ⟨h.inv.step hcount hstep, ?_⟩
  obtain ⟨hbegin, hsetup⟩ := h.entered
  cases a with
  | clientBegin =>
    obtain ⟨_, rfl⟩ := step_clientBegin hstep
    exact ⟨hbegin, hsetup⟩
  | clientWait =>
    obtain ⟨_, link, _, rfl⟩ := step_clientWait hstep
    exact ⟨hbegin, hsetup⟩
  | clientNotify =>
    obtain ⟨_, clientArgs, _, rfl⟩ := step_clientNotify hstep
    exact ⟨hbegin, hsetup⟩
  | serverBegin => exact absurd (step_serverBegin hstep).1 hbegin
  | serverSetup now => exact absurd (step_serverSetup hstep).1 hsetup
  | serverStamp now =>
    obtain ⟨_, rfl⟩ := step_serverStamp hstep
    simp
  | serverNotify =>
    obtain ⟨_, rfl⟩ := step_serverNotify hstep
    simp
  | serverWait =>
    obtain ⟨_, link, _, rfl⟩ := step_serverWait hstep
    simp
  | serverBenchmark now =>
    obtain ⟨_, rfl⟩ := step_serverBenchmark hstep
    rcases serverHead_cases args (s.message + 1) with hhead | hhead <;> simp [hhead]

/-- Every step does to the loop what it shows. -/
theorem run_view (h : InLoop args s) (hstep : SignalBench.step args s a = some t) :
    run (timed args.count.toInt.toNat) (view s) (event s a t).toList = some (view t) := by
  -- all but the two readings are silent
  have hsilent : ∀ {e : Option (Event UInt64)}, e = none → view t = view s →
      run (timed args.count.toInt.toNat) (view s) e.toList = some (view t) := by
    rintro _ rfl hsame
    rw [hsame]
    rfl
  have hmessage := h.inv.message_eq
  cases a with
  | clientBegin =>
    obtain ⟨_, rfl⟩ := step_clientBegin hstep
    exact hsilent rfl (view_eq rfl rfl rfl)
  | clientWait =>
    obtain ⟨_, link, _, rfl⟩ := step_clientWait hstep
    exact hsilent rfl (view_eq rfl rfl rfl)
  | clientNotify =>
    obtain ⟨_, clientArgs, _, rfl⟩ := step_clientNotify hstep
    exact hsilent rfl (view_eq rfl rfl rfl)
  | serverBegin => exact absurd (step_serverBegin hstep).1 h.entered.1
  | serverSetup now => exact absurd (step_serverSetup hstep).1 h.entered.2
  | serverStamp now =>
    obtain ⟨hserver, rfl⟩ := step_serverStamp hstep
    rcases h.between (by rw [hserver]; rfl) with ⟨_, hmore⟩ | ⟨hdone, _⟩
    · rw [view, hserver]
      exact run_timed_stamp (by omega) now
    · simp [hserver] at hdone
  | serverNotify =>
    obtain ⟨hserver, rfl⟩ := step_serverNotify hstep
    refine hsilent rfl (view_eq ?_ rfl rfl)
    rw [hserver]
    rfl
  | serverWait =>
    obtain ⟨hserver, link, _, rfl⟩ := step_serverWait hstep
    refine hsilent rfl (view_eq ?_ rfl rfl)
    rw [hserver]
    rfl
  | serverBenchmark now =>
    obtain ⟨hserver, rfl⟩ := step_serverBenchmark hstep
    have hbound : s.message.toInt < 2147483647 := by
      have hhigh := args.count.toInt_lt
      cases h.inv.phase with
      | ready _ hready =>
        rw [hserver] at hready
        obtain ⟨hk, hle⟩ := hready.of_bench
        omega
      | begin _ hpc | asked _ hpc | setup _ hpc | toClient _ hpc | clientTurn _ hpc
      | toServer _ hpc => simp [hserver] at hpc
    have hnext : (s.message + 1).toInt.toNat = s.message.toInt.toNat + 1 := by
      rw [toInt_add_one hbound]
      omega
    rw [view, view, hserver, inTurn_serverHead, hnext]
    exact run_timed_sample now

end InLoop

/-- How many steps it takes until the server, in a turn, can record its sample. -/
def distance (s : State) : ℕ :=
  match s.server with
  | .begin | .setup | .stamp | .bench | .done => 0
  | .notify => 4
  | .wait =>
      match s.client with
      | .begin | .done => 0
      | .notify => 2
      | .wait => if s.link.serverWait.isSome then 1 else 3

/-- A server between two turns with a turn left takes its first reading. -/
theorem shows_stamp {args : Arguments} {s : State} (now : UInt64) (h : InLoop args s)
    (hbegun : (view s).begun = none) (hmore : (view s).finished < args.count.toInt.toNat) :
    ∃ a t, step args s a = some t ∧ event s a t = some (.stamp now) := by
  rcases h.between (turnView_eq_none hbegun) with ⟨hserver, _⟩ | ⟨_, hall⟩
  · exact ⟨.serverStamp now, _, if_pos hserver, rfl⟩
  · have hfinished : (view s).finished = s.message.toInt.toNat := rfl
    omega

/-- A server in a turn takes its second reading, or some step leads nearer to it. -/
theorem shows_sample {args : Arguments} {s : State} {start : UInt64} (now : UInt64)
    (h : InLoop args s) (hcount : 0 < args.count) (hbegun : (view s).begun = some start) :
    (∃ a t, step args s a = some t ∧ event s a t = some (.sample now)) ∨
      ∃ a t, step args s a = some t ∧ event s a t = none ∧ distance t < distance s := by
  have hturn := turnView_eq_some hbegun
  cases h.inv.phase with
  | ready hclient hready hlink =>
    cases hserver : s.server with
    | bench => exact Or.inl ⟨.serverBenchmark now, _, if_pos hserver, rfl⟩
    | notify =>
      right
      have hwaits : (s.link.notifyClient).serverWait.isSome = false := by
        cases hwait : s.link.notifyClient.serverWait with
        | none => rfl
        | some link => exact absurd (hlink.notifyClient.serverWait hwait).1 (by simp)
      refine ⟨.serverNotify, { s with link := s.link.notifyClient, server := .wait }, ?_, rfl, ?_⟩
      · simp [step, hserver]
      · simp [distance, hserver, hclient, hwaits]
    | wait =>
      rw [hserver] at hready
      cases hready
    | begin | setup | stamp | done =>
      rw [hserver] at hturn
      cases hturn
  | toClient hclient hserver hlink =>
    right
    obtain ⟨link, hwait⟩ := Option.isSome_iff_exists.mp hlink.clientWait_isSome
    have hwaits : s.link.serverWait.isSome = false := by
      cases hserverWait : s.link.serverWait with
      | none => rfl
      | some link => exact absurd (hlink.serverWait hserverWait).1 (by simp)
    refine ⟨.clientWait, { s with link := link, client := .notify }, ?_, rfl, ?_⟩
    · simp [step, hclient, hwait]
    · simp [distance, hserver, hclient, hwaits]
  | clientTurn hclient hserver hlink =>
    right
    have hstep : (step args s .clientNotify).isSome = true := by simp [step, hclient]
    obtain ⟨t, hstep⟩ := Option.isSome_iff_exists.mp hstep
    refine ⟨.clientNotify, t, hstep, rfl, ?_⟩
    obtain ⟨_, clientArgs, hargs, rfl⟩ := step_clientNotify hstep
    have hhead : clientHead clientArgs = .wait :=
      clientHead_eq (hargs.trans h.inv.clientCount_eq ▸ hcount)
    simp [distance, hserver, hclient, hhead, hlink.notifyServer.serverWait_isSome]
  | toServer hclient hserver hlink =>
    right
    obtain ⟨link, hwait⟩ := Option.isSome_iff_exists.mp hlink.serverWait_isSome
    refine ⟨.serverWait, { s with link := link, server := .bench }, ?_, rfl, ?_⟩
    · simp [step, hserver, hwait]
    · simp [distance, hserver, hclient, hwait]
  | begin _ hpc | asked _ hpc => exact absurd hpc h.entered.1
  | setup _ hpc => exact absurd hpc h.entered.2

/-- `signal`, for every positive count and every size: the first three calls lead to the loop
of the server, and what it measures from there on, with every interleaving of the two
processes, are exactly the sequences and the results of a loop that takes two readings in each
of `args->count` turns. -/
theorem signal_shows_timed_loop (args : Arguments) (bench : Benchmarks) (first : UInt64)
    (events : List (Event UInt64)) (x : TimedLoop UInt64 Benchmarks) (hcount : 0 < args.count) :
    run (step args) (start args bench) [.clientBegin, .serverBegin, .serverSetup first] =
        some (loopStart args (setupBenchmarks bench first)) ∧
      ((∃ s, Reaches (step args) event (loopStart args (setupBenchmarks bench first)) events s ∧
          view s = x) ↔
        run (timed args.count.toInt.toNat) ⟨none, 0, setupBenchmarks bench first⟩ events =
          some x) := by
  refine ⟨run_to_loopStart hcount bench first, ?_⟩
  rw [← view_loopStart args]
  exact TimedLoop.reaches_view_iff (InLoop args) view distance
    (fun h hstep => h.step hcount hstep) (fun h hstep => h.run_view hstep) shows_stamp
    (fun now h hbegun => shows_sample now h hcount hbegun) (inLoop_loopStart hcount bench first)

/-- The server finishes its only turn, with the default size and a count of one. -/
theorem signal_shows_timed_loop_only_turn :
    ∃ s, Reaches (step ⟨4096, 1⟩) event
        (loopStart ⟨4096, 1⟩ (setupBenchmarks ⟨0, 0, 0, 0, 0, 0, 0⟩ 1)) [.stamp 5, .sample 9] s ∧
      view s = ⟨none, 1, ⟨1, 5, 4, 4, 4, 0, 1⟩⟩ :=
  (signal_shows_timed_loop ⟨4096, 1⟩ ⟨0, 0, 0, 0, 0, 0, 0⟩ 1 _ _ (by decide)).2.mpr (by decide)

end IpcBench.SignalBench
