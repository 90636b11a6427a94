import IpcBench.Common.RoundTrip
import IpcBench.Zeromq.Completion

/-!
# Seen from outside, `zeromq` is a timed loop

An observer sees the two readings of the clock in each turn of the server and the samples it
records. What the client does in between is silent.
-/

namespace IpcBench.Zeromq

open Lib

/-- What an observer sees of a step. -/
def event {κ : Type} (_ : State κ) : Action → State κ → Option (Event UInt64)
  | .serverStamp now, _ => some (.stamp now)
  | .serverBenchmark now, _ => some (.sample now)
  | _, _ => none

/-- Whether the server is between the two readings of a turn. -/
def inTurn : ServerPc → Bool
  | .recv | .fill | .send | .bench => true
  | .stamp | .done | .thrown => false

/-- The loop of the server, with nothing of what it does in a turn. -/
def view {κ : Type} (s : State κ) : TimedLoop UInt64 Benchmarks :=
  turnView (inTurn s.server) s.message s.bench

/-- At the head of its loop the server is between two turns. -/
theorem inTurn_serverHead (count message : ℕ) : inTurn (serverHead count message) = false := by
  unfold serverHead
  by_cases hmore : message < count
  · rw [if_pos hmore]
    rfl
  · rw [if_neg hmore]
    rfl

theorem view_start {κ : Type} (setup : Setup) (connection : κ)
    (clientBuffer serverBuffer : List UInt8) (bench : Benchmarks) :
    view (start setup connection clientBuffer serverBuffer bench) = ⟨none, 0, bench⟩ := by
  rw [view, start, inTurn_serverHead]
  rfl

/-- A step that does not take the server into a turn or out of it. -/
theorem view_eq {s t : State (ReqRep UInt8)} (hserver : inTurn t.server = inTurn s.server)
    (hmessage : t.message = s.message) (hbench : t.bench = s.bench) : view t = view s := by
  rw [view, view, hserver, hmessage, hbench]

/-- Every step does to the loop what it shows. -/
theorem run_view {setup : Setup} {s t : State (ReqRep UInt8)} {a : Action} (h : Inv setup s)
    (hstep : step ReqRep.calls setup s a = some t) :
    run (timed setup.count) (view s) (event s a t).toList = some (view t) := by
  have hserverOk := (h.step hstep).not_thrown.2
  -- all but the two readings are silent
  have hsilent : ∀ {e : Option (Event UInt64)}, e = none → view t = view s →
      run (timed setup.count) (view s) e.toList = some (view t) := by
    rintro _ rfl hsame
    rw [hsame]
    rfl
  cases a with
  | clientSend =>
    simp only [step, Option.ite_none_right_eq_some, Option.some.injEq] at hstep
    obtain ⟨_, rfl⟩ := hstep
    exact hsilent rfl (view_eq rfl rfl rfl)
  | clientRecv =>
    simp only [step, Option.ite_none_right_eq_some, Option.map_eq_some_iff] at hstep
    obtain ⟨_, ⟨code, bytes, connection⟩, _, rfl⟩ := hstep
    refine hsilent rfl ?_
    simp only [clientReceived]
    split <;> exact view_eq rfl rfl rfl
  | serverStamp now =>
    simp only [step, Option.ite_none_right_eq_some, Option.some.injEq] at hstep
    obtain ⟨hserver, rfl⟩ := hstep
    have hmore := h.message_lt (by simp [hserver])
    rw [view, hserver]
    exact run_timed_stamp hmore now
  | serverRecv =>
    simp only [step, Option.ite_none_right_eq_some, Option.map_eq_some_iff] at hstep
    obtain ⟨hserver, ⟨code, bytes, connection⟩, _, rfl⟩ := hstep
    refine hsilent rfl (view_eq ?_ rfl rfl)
    simp only [serverReceived] at hserverOk ⊢
    split at hserverOk
    · exact absurd rfl hserverOk
    · next hcode =>
      rw [if_neg hcode, hserver]
      rfl
  | serverFill =>
    simp only [step, Option.ite_none_right_eq_some, Option.some.injEq] at hstep
    obtain ⟨hserver, rfl⟩ := hstep
    refine hsilent rfl (view_eq ?_ rfl rfl)
    rw [hserver]
    rfl
  | serverSend =>
    simp only [step, Option.ite_none_right_eq_some, Option.some.injEq] at hstep
    obtain ⟨hserver, rfl⟩ := hstep
    refine hsilent rfl (view_eq ?_ rfl rfl)
    dsimp only at hserverOk ⊢
    split at hserverOk
    · exact absurd rfl hserverOk
    · next hcode =>
      rw [if_neg hcode, hserver]
      rfl
  | serverBenchmark now =>
    simp only [step, Option.ite_none_right_eq_some, Option.some.injEq] at hstep
    obtain ⟨hserver, rfl⟩ := hstep
    rw [view, view, hserver, inTurn_serverHead]
    exact run_timed_sample now

/-- A server between two turns with a turn left takes its first reading. -/
theorem shows_stamp {setup : Setup} {s : State (ReqRep UInt8)} (now : UInt64) (h : Inv setup s)
    (hbegun : (view s).begun = none) (hmore : (view s).finished < setup.count) :
    ∃ a t, step ReqRep.calls setup s a = some t ∧ event s a t = some (.stamp now) := by
  have hserver : s.server = .stamp := by
    cases hpc : s.server with
    | stamp => rfl
    | done => exact absurd (h.done_counts.2 hpc) (Nat.ne_of_lt hmore)
    | thrown => exact absurd hpc h.not_thrown.2
    | _ =>
      have hout := turnView_eq_none hbegun
      rw [hpc] at hout
      cases hout
  exact ⟨.serverStamp now, _, if_pos hserver, rfl⟩

/-- A server in a turn takes its second reading, or some step leads nearer to it. -/
theorem shows_sample {setup : Setup} {s : State (ReqRep UInt8)} {start : UInt64} (now : UInt64)
    (h : Inv setup s) (hbegun : (view s).begun = some start) :
    (∃ a t, step ReqRep.calls setup s a = some t ∧ event s a t = some (.sample now)) ∨
      ∃ a t, step ReqRep.calls setup s a = some t ∧ event s a t = none ∧
        left setup t < left setup s := by
  have hturn := turnView_eq_some hbegun
  by_cases hserver : s.server = .bench
  · exact Or.inl ⟨.serverBenchmark now, _, if_pos hserver, rfl⟩
  · have hnot : ¬ Stuck (step ReqRep.calls setup) s := by
      intro hstuck
      rw [(done_of_stuck h hstuck).2] at hturn
      cases hturn
    simp only [Stuck, not_forall] at hnot
    obtain ⟨a, hpossible⟩ := hnot
    obtain ⟨t, hstep⟩ := Option.ne_none_iff_exists'.mp hpossible
    have hless := left_step h hstep
    refine Or.inr ⟨a, t, hstep, ?_, by omega⟩
    cases a with
    | serverStamp =>
      simp only [step, Option.ite_none_right_eq_some] at hstep
      rw [hstep.1] at hturn
      cases hturn
    | serverBenchmark =>
      simp only [step, Option.ite_none_right_eq_some] at hstep
      exact absurd hstep.1 hserver
    | _ => rfl

/-- What is shown does not depend on the connection. -/
theorem event_through {κ : Type} (known : κ → ReqRep UInt8) (s : State κ) (a : Action)
    (t : State κ) : event (s.through known) a (t.through known) = event s a t := by
  cases a <;> rfl

/-- Over any library that keeps what is promised, the runs show exactly those of the loop. -/
theorem reaches_iff_run_timed {κ : Type} {calls : ReqRepCalls UInt8 κ} {known : κ → ReqRep UInt8}
    {connection : κ} {setup : Setup} {clientBuffer serverBuffer : List UInt8} {bench : Benchmarks}
    {events : List (Event UInt64)} {x : TimedLoop UInt64 Benchmarks}
    (hcalls : calls.Documented known) (hconnected : known connection = .empty)
    (hclient : clientBuffer.length = setup.size) (hserver : serverBuffer.length = setup.size) :
    (∃ s, Reaches (step calls setup) event
        (start setup connection clientBuffer serverBuffer bench) events s ∧ view s = x) ↔
      run (timed setup.count) ⟨none, 0, bench⟩ events = some x := by
  rw [← view_start setup connection clientBuffer serverBuffer bench]
  have hstart : Inv setup ((start setup connection clientBuffer serverBuffer bench).through known)
      := by
    rw [through_start hconnected]
    exact inv_start setup bench hclient hserver
  refine TimedLoop.reaches_view_iff (fun s => Inv setup (s.through known)) view (left setup)
    (fun h hstep => h.step (step_known hcalls hstep))
    ?_ ?_ ?_ hstart
  · intro s a t h hstep
    have hview := run_view h (step_known hcalls hstep)
    rw [event_through] at hview
    exact hview
  · intro s now h hbegun hmore
    obtain ⟨a, _, hstep, hshown⟩ := shows_stamp now h hbegun hmore
    obtain ⟨t, hstep', rfl⟩ := exists_step hcalls hstep
    exact ⟨a, t, hstep', by rwa [event_through] at hshown⟩
  · intro s first now h hbegun
    rcases shows_sample now h hbegun with ⟨a, _, hstep, hshown⟩ | ⟨a, _, hstep, hsilent, hless⟩
    · obtain ⟨t, hstep', rfl⟩ := exists_step hcalls hstep
      exact Or.inl ⟨a, t, hstep', by rwa [event_through] at hshown⟩
    · obtain ⟨t, hstep', rfl⟩ := exists_step hcalls hstep
      exact Or.inr ⟨a, t, hstep', by rwa [event_through] at hsilent, hless⟩

/-- `zeromq`, for every count and every size, over any library that keeps what is promised for
requesting and replying sockets: what the server measures, with every interleaving of the two
processes, are exactly the sequences and the results of a loop that takes two readings in each
of `count` turns. -/
theorem zeromq_shows_timed_loop {κ : Type} (calls : ReqRepCalls UInt8 κ)
    (known : κ → ReqRep UInt8) (connection : κ) (setup : Setup)
    (clientBuffer serverBuffer : List UInt8) (bench : Benchmarks) (events : List (Event UInt64))
    (x : TimedLoop UInt64 Benchmarks) (hcalls : calls.Documented known)
    (hconnected : known connection = .empty) (hclient : clientBuffer.length = setup.size)
    (hserver : serverBuffer.length = setup.size) :
    (∃ s, Reaches (step calls setup) event
        (start setup connection clientBuffer serverBuffer bench) events s ∧ view s = x) ↔
      run (timed setup.count) ⟨none, 0, bench⟩ events = some x :=
  reaches_iff_run_timed hcalls hconnected hclient hserver

/-- A first turn and the beginning of the second one, with messages of two bytes. -/
theorem zeromq_shows_timed_loop_begun :
    ∃ s, Reaches (step ReqRep.calls ⟨2, 2⟩) event
        (start ⟨2, 2⟩ .empty [1, 2] [0, 0] ⟨0, 0, 50, 0, 0, 0, 0⟩)
        [.stamp 700, .sample 900, .stamp 950] s ∧
      view s = ⟨some 950, 1, ⟨0, 950, 50, 200, 200, 0, 1⟩⟩ :=
  (zeromq_shows_timed_loop ReqRep.calls id .empty ⟨2, 2⟩ [1, 2] [0, 0] _ _ _
    ReqRep.documented_calls rfl rfl rfl).mpr (by decide)

end IpcBench.Zeromq
