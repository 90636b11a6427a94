import IpcBench.Uintrfd.Bi

/-!
# No interrupt of the ping-pong is lost

At any moment at most one notification is under way. While it is pending, or its
flag is set, or its receiver is about to clear the flag, its sender waits for the
answer and cannot send another one, so neither the pending bit nor the flag is ever
set a second time.
-/

namespace IpcBench.UintrfdBi

open Lib

/-- A line on which nothing is under way. -/
def Line.quiet : Line := ⟨false, 0⟩

/-- The one notification under way on a line: still pending or already in the flag
while the thread spins, and in the flag when the thread is about to clear it. -/
def Arriving (l : Line) (spins clears : Prop) : Prop :=
  spins ∧ (l = ⟨true, 0⟩ ∨ l = ⟨false, 1⟩) ∨ clears ∧ l = ⟨false, 1⟩

/-- The server has finished `k` rounds and has not yet notified in the next one. -/
inductive Ready (count : ℕ) : ServerPc → ℕ → ℕ → Prop where
  | bench {message : ℕ} (hk : message + 1 ≤ count) : Ready count .bench message (message + 1)
  | stamp {k : ℕ} (hk : k < count) : Ready count .stamp k k
  | notify {k : ℕ} (hk : k < count) : Ready count .notify k k
  | done : Ready count .done count count

/-- A server that is about to notify has finished all its earlier rounds. -/
theorem Ready.of_notify {count message k : ℕ} (h : Ready count .notify message k) :
    message = k ∧ k < count := by
  cases h with
  | notify hk => exact ⟨rfl, hk⟩

/-- How often the calls of both sides have returned, besides the `k` notifications of
the client. -/
def Calls (s : State) (clientWaits serverNotifies serverWaits : ℕ) : Prop :=
  s.clientWaits = clientWaits ∧ s.serverNotifies = serverNotifies ∧ s.serverWaits = serverWaits

/-- Where the two threads stand after the `k` rounds the client has finished. -/
inductive Phase (count : ℕ) (s : State) (k : ℕ) : Prop where
  | serverTurn (hclient : s.client = clientHead s.loop) (hready : Ready count s.server s.message k)
      (hclientLine : s.clientLine = .quiet) (hserverLine : s.serverLine = .quiet)
      (hcalls : Calls s k k k)
  | toClient (harriving : Arriving s.clientLine (s.client = .spin) (s.client = .clear))
      (hserver : s.server = .spin) (hmessage : s.message = k) (hk : k < count)
      (hserverLine : s.serverLine = .quiet) (hcalls : Calls s k (k + 1) k)
  | clientTurn (hclient : s.client = .notify) (hserver : s.server = .spin)
      (hmessage : s.message = k) (hk : k < count) (hclientLine : s.clientLine = .quiet)
      (hserverLine : s.serverLine = .quiet) (hcalls : Calls s (k + 1) (k + 1) k)
  | toServer (hclient : s.client = clientHead s.loop)
      (harriving : Arriving s.serverLine (s.server = .spin) (s.server = .clear))
      (hmessage : s.message + 1 = k) (hk : k ≤ count) (hclientLine : s.clientLine = .quiet)
      (hcalls : Calls s k k s.message)

/-- What holds between any two steps. -/
structure Inv (count : ℕ) (s : State) : Prop where
  loop_eq : s.loop + s.clientNotifies = count
  phase : Phase count s s.clientNotifies

/-- At the head of its loop the client spins or is done. -/
theorem clientHead_cases (loop : ℕ) :
    clientHead loop = .spin ∧ 0 < loop ∨ clientHead loop = .done ∧ loop = 0 := by
  unfold clientHead
  by_cases hmore : loop > 0
  · exact Or.inl ⟨if_pos hmore, hmore⟩
  · exact Or.inr ⟨if_neg hmore, by omega⟩

/-- At the head of its loop the server is ready for the next round. -/
theorem ready_serverHead {count k : ℕ} (hk : k ≤ count) : Ready count (serverHead count k) k k := by
  unfold serverHead
  by_cases hmore : k < count
  · rw [if_pos hmore]
    exact .stamp hmore
  · rw [if_neg hmore]
    obtain rfl : k = count := by omega
    exact .done

/-- The invariant holds after the set-up. -/
theorem inv_start (count : ℕ) (bench : Benchmarks) : Inv count (start count bench) :=
  ⟨rfl, .serverTurn rfl (ready_serverHead (Nat.zero_le count)) rfl rfl ⟨rfl, rfl, rfl⟩⟩

namespace Inv

variable {count : ℕ} {s t : State}

/-- The client sees its flag only when its notification has arrived. -/
theorem clientSpin (h : Inv count s) (hstep : step count s .clientSpin = some t) :
    Inv count t := by
  obtain ⟨hclient, ⟨hflag, rfl⟩ | ⟨_, rfl⟩⟩ := step_clientSpin hstep
  · refine { h with phase := ?_ }
    cases h.phase with
    | toClient harriving hserver hmessage hk hserverLine hcalls =>
      refine .toClient (Or.inr ⟨rfl, ?_⟩) hserver hmessage hk hserverLine hcalls
      rcases harriving with ⟨_, hline | hline⟩ | ⟨_, hline⟩
      · simp [hline] at hflag
      · exact hline
      · exact hline
    | serverTurn _ _ hline | clientTurn _ _ _ _ hline | toServer _ _ _ _ hline =>
      simp [hline, Line.quiet] at hflag
  · exact h

/-- The client clears the flag; nothing else can have arrived in between. -/
theorem clientClear (h : Inv count s) (hstep : step count s .clientClear = some t) :
    Inv count t := by
  obtain ⟨hclient, rfl⟩ := step_clientClear hstep
  refine { h with phase := ?_ }
  cases h.phase with
  | toClient harriving hserver hmessage hk hserverLine hcalls =>
    obtain ⟨hwaits, hnotifies, hserverWaits⟩ := hcalls
    have hline : s.clientLine = ⟨false, 1⟩ := by
      rcases harriving with ⟨hspin, _⟩ | ⟨_, hline⟩
      · simp [hclient] at hspin
      · exact hline
    refine .clientTurn rfl hserver hmessage hk ?_ hserverLine ⟨?_, hnotifies, hserverWaits⟩
    · rw [hline]
      rfl
    · rw [hwaits]
  | serverTurn hhead | toServer hhead =>
    rcases clientHead_cases s.loop with ⟨hspin, _⟩ | ⟨hdone, _⟩ <;> simp_all
  | clientTurn hnotify => simp [hclient] at hnotify

/-- The client answers and goes to the head of its loop. -/
theorem clientNotify (h : Inv count s) (hstep : step count s .clientNotify = some t) :
    Inv count t := by
  obtain ⟨hclient, rfl⟩ := step_clientNotify hstep
  have hloop := h.loop_eq
  cases h.phase with
  | clientTurn _ hserver hmessage hk hclientLine hserverLine hcalls =>
    obtain ⟨hwaits, hnotifies, hserverWaits⟩ := hcalls
    refine ⟨?_, .toServer rfl (Or.inl ⟨hserver, Or.inl ?_⟩) ?_ hk hclientLine
      ⟨hwaits, hnotifies, ?_⟩⟩
    · change s.loop - 1 + (s.clientNotifies + 1) = count
      omega
    · rw [hserverLine]
      rfl
    · rw [hmessage]
    · rw [hserverWaits, hmessage]
  | serverTurn hhead | toServer hhead =>
    rcases clientHead_cases s.loop with ⟨hspin, _⟩ | ⟨hdone, _⟩ <;> simp_all
  | toClient harriving => simp [Arriving, hclient] at harriving

/-- A delivery to the client moves its notification from the pending bit to the flag. -/
theorem clientDelivery (h : Inv count s) (hstep : step count s .clientDelivery = some t) :
    Inv count t := by
  obtain ⟨hpending, rfl⟩ := step_clientDelivery hstep
  refine { h with phase := ?_ }
  cases h.phase with
  | toClient harriving hserver hmessage hk hserverLine hcalls =>
    refine .toClient ?_ hserver hmessage hk hserverLine hcalls
    rcases harriving with ⟨hspin, _⟩ | ⟨hclear, _⟩
    · exact Or.inl ⟨hspin, Or.inr rfl⟩
    · exact Or.inr ⟨hclear, rfl⟩
  | serverTurn _ _ hline | clientTurn _ _ _ _ hline | toServer _ _ _ _ hline =>
    simp [hline, Line.quiet] at hpending

/-- A step of the server in its own turn that does not notify. -/
theorem phase_of_ready {k message : ℕ} {server : ServerPc} {bench : Benchmarks}
    (h : Phase count s k) (hspin : s.server ≠ .spin) (hclear : s.server ≠ .clear)
    (hready : ∀ {k}, Ready count s.server s.message k → Ready count server message k) :
    Phase count { s with server := server, message := message, bench := bench } k := by
  cases h with
  | serverTurn hclient hold hclientLine hserverLine hcalls =>
    exact .serverTurn hclient (hready hold) hclientLine hserverLine hcalls
  | toClient _ hserver | clientTurn _ hserver => exact absurd hserver hspin
  | toServer _ harriving =>
    rcases harriving with ⟨hserver, _⟩ | ⟨hserver, _⟩
    · exact absurd hserver hspin
    · exact absurd hserver hclear

/-- The server notes the start of its sample. -/
theorem serverStamp {now : UInt64} (h : Inv count s)
    (hstep : step count s (.serverStamp now) = some t) : Inv count t := by
  obtain ⟨hserver, rfl⟩ := step_serverStamp hstep
  refine { h with phase := phase_of_ready h.phase (by simp [hserver]) (by simp [hserver]) ?_ }
  intro k hready
  rw [hserver] at hready
  cases hready with
  | stamp hk => exact .notify hk

/-- The server records its sample and goes to the head of its loop. -/
theorem serverBenchmark {now : UInt64} (h : Inv count s)
    (hstep : step count s (.serverBenchmark now) = some t) : Inv count t := by
  obtain ⟨hserver, rfl⟩ := step_serverBenchmark hstep
  refine { h with phase := phase_of_ready h.phase (by simp [hserver]) (by simp [hserver]) ?_ }
  intro k hready
  rw [hserver] at hready
  cases hready with
  | bench hk => exact ready_serverHead hk

/-- The server notifies; the client is in its loop, because the round is not the last. -/
theorem serverNotify (h : Inv count s) (hstep : step count s .serverNotify = some t) :
    Inv count t := by
  obtain ⟨hserver, rfl⟩ := step_serverNotify hstep
  have hloop := h.loop_eq
  refine { h with phase := ?_ }
  cases h.phase with
  | serverTurn hclient hready hclientLine hserverLine hcalls =>
    obtain ⟨hwaits, hnotifies, hserverWaits⟩ := hcalls
    obtain ⟨hmessage, hk⟩ : s.message = s.clientNotifies ∧ s.clientNotifies < count := by
      rw [hserver] at hready
      exact hready.of_notify
    have hspin : s.client = .spin := by
      rcases clientHead_cases s.loop with ⟨hspin, _⟩ | ⟨_, hzero⟩
      · rw [hclient, hspin]
      · omega
    refine .toClient (Or.inl ⟨hspin, Or.inl ?_⟩) rfl hmessage hk hserverLine
      ⟨hwaits, ?_, hserverWaits⟩
    · rw [hclientLine]
      rfl
    · rw [hnotifies]
  | toClient _ hspin | clientTurn _ hspin => simp [hserver] at hspin
  | toServer _ harriving => simp [Arriving, hserver] at harriving

/-- The server sees its flag only when the answer has arrived. -/
theorem serverSpin (h : Inv count s) (hstep : step count s .serverSpin = some t) :
    Inv count t := by
  obtain ⟨hserver, ⟨hflag, rfl⟩ | ⟨_, rfl⟩⟩ := step_serverSpin hstep
  · refine { h with phase := ?_ }
    cases h.phase with
    | toServer hclient harriving hmessage hk hclientLine hcalls =>
      refine .toServer hclient (Or.inr ⟨rfl, ?_⟩) hmessage hk hclientLine hcalls
      rcases harriving with ⟨_, hline | hline⟩ | ⟨_, hline⟩
      · simp [hline] at hflag
      · exact hline
      · exact hline
    | serverTurn _ _ _ hline | toClient _ _ _ _ hline | clientTurn _ _ _ _ _ hline =>
      simp [hline, Line.quiet] at hflag
  · exact h

/-- The server clears the flag and has finished its wait. -/
theorem serverClear (h : Inv count s) (hstep : step count s .serverClear = some t) :
    Inv count t := by
  obtain ⟨hserver, rfl⟩ := step_serverClear hstep
  refine { h with phase := ?_ }
  cases h.phase with
  | toServer hclient harriving hmessage hk hclientLine hcalls =>
    obtain ⟨hwaits, hnotifies, hserverWaits⟩ := hcalls
    have hline : s.serverLine = ⟨false, 1⟩ := by
      rcases harriving with ⟨hspin, _⟩ | ⟨_, hline⟩
      · simp [hserver] at hspin
      · exact hline
    refine .serverTurn hclient ?_ hclientLine ?_ ⟨hwaits, hnotifies, ?_⟩
    · change Ready count .bench s.message s.clientNotifies
      rw [← hmessage] at hk ⊢
      exact .bench hk
    · rw [hline]
      rfl
    · rw [hserverWaits, hmessage]
  | serverTurn _ hready =>
    rw [hserver] at hready
    cases hready
  | toClient _ hspin | clientTurn _ hspin => simp [hserver] at hspin

/-- A delivery to the server moves the answer from the pending bit to the flag. -/
theorem serverDelivery (h : Inv count s) (hstep : step count s .serverDelivery = some t) :
    Inv count t := by
  obtain ⟨hpending, rfl⟩ := step_serverDelivery hstep
  refine { h with phase := ?_ }
  cases h.phase with
  | toServer hclient harriving hmessage hk hclientLine hcalls =>
    refine .toServer hclient ?_ hmessage hk hclientLine hcalls
    rcases harriving with ⟨hspin, _⟩ | ⟨hclear, _⟩
    · exact Or.inl ⟨hspin, Or.inr rfl⟩
    · exact Or.inr ⟨hclear, rfl⟩
  | serverTurn _ _ _ hline | toClient _ _ _ _ hline | clientTurn _ _ _ _ _ hline =>
    simp [hline, Line.quiet] at hpending

/-- Every step of either thread and every delivery keeps the invariant. -/
theorem step {a : Action} (h : Inv count s) (hstep : UintrfdBi.step count s a = some t) :
    Inv count t := by
  cases a with
  | clientSpin => exact h.clientSpin hstep
  | clientClear => exact h.clientClear hstep
  | clientNotify => exact h.clientNotify hstep
  | clientDelivery => exact h.clientDelivery hstep
  | serverStamp now => exact h.serverStamp hstep
  | serverNotify => exact h.serverNotify hstep
  | serverSpin => exact h.serverSpin hstep
  | serverClear => exact h.serverClear hstep
  | serverBenchmark now => exact h.serverBenchmark hstep
  | serverDelivery => exact h.serverDelivery hstep

/-- Every notification has been waited for once or is still under way, and there is
at most one under way in either direction. -/
theorem conserved (h : Inv count s) :
    s.serverNotifies = s.clientWaits + s.clientLine.underway ∧
      s.clientNotifies = s.serverWaits + s.serverLine.underway := by
  cases h.phase with
  | serverTurn _ _ hclientLine hserverLine hcalls =>
    obtain ⟨hwaits, hnotifies, hserverWaits⟩ := hcalls
    rw [hclientLine, hserverLine, hwaits, hnotifies, hserverWaits]
    exact ⟨rfl, rfl⟩
  | toClient harriving _ _ _ hserverLine hcalls =>
    obtain ⟨hwaits, hnotifies, hserverWaits⟩ := hcalls
    rw [hserverLine, hwaits, hnotifies, hserverWaits]
    refine ⟨?_, rfl⟩
    rcases harriving with ⟨_, hline | hline⟩ | ⟨_, hline⟩ <;> rw [hline] <;> rfl
  | clientTurn _ _ _ _ hclientLine hserverLine hcalls =>
    obtain ⟨hwaits, hnotifies, hserverWaits⟩ := hcalls
    rw [hclientLine, hserverLine, hwaits, hnotifies, hserverWaits]
    exact ⟨rfl, rfl⟩
  | toServer _ harriving hmessage _ hclientLine hcalls =>
    obtain ⟨hwaits, hnotifies, hserverWaits⟩ := hcalls
    rw [hclientLine, hwaits, hnotifies, hserverWaits, ← hmessage]
    refine ⟨rfl, ?_⟩
    rcases harriving with ⟨_, hline | hline⟩ | ⟨_, hline⟩ <;> rw [hline] <;> rfl

/-- The rounds the two threads have finished differ by at most one. -/
theorem rounds_apart (h : Inv count s) :
    s.message ≤ s.clientNotifies ∧ s.clientNotifies ≤ s.message + 1 := by
  cases h.phase with
  | serverTurn _ hready =>
    generalize s.server = server, s.message = message, s.clientNotifies = k at hready
    cases hready with
    | bench _ => exact ⟨Nat.le_succ _, Nat.le_refl _⟩
    | stamp _ | notify _ | done => exact ⟨Nat.le_refl _, Nat.le_succ _⟩
  | toClient _ _ hmessage | clientTurn _ _ hmessage | toServer _ _ hmessage => omega

/-- When the server is done, both threads have done all their rounds. -/
theorem done_counts (h : Inv count s) (hserver : s.server = .done) :
    s.message = count ∧ s.clientNotifies = count ∧ s.clientWaits = count ∧
      s.serverNotifies = count ∧ s.serverWaits = count := by
  cases h.phase with
  | serverTurn _ hready _ _ hcalls =>
    obtain ⟨hwaits, hnotifies, hserverWaits⟩ := hcalls
    rw [hserver] at hready
    obtain ⟨hmessage, hk⟩ : s.message = count ∧ s.clientNotifies = count := by
      generalize s.message = message, s.clientNotifies = k at hready
      cases hready with
      | done => exact ⟨rfl, rfl⟩
    omega
  | toClient _ hspin | clientTurn _ hspin => simp [hserver] at hspin
  | toServer _ harriving => simp [Arriving, hserver] at harriving

/-- A notification that is under way leads on: it is delivered, or its flag is seen,
or its flag is cleared. -/
theorem moves_of_arriving {l : Line} {spins clears : Prop} {P : Prop}
    (harriving : Arriving l spins clears) (hdeliver : l = ⟨true, 0⟩ → P)
    (hsee : spins → l = ⟨false, 1⟩ → P) (hclear : clears → P) : P := by
  rcases harriving with ⟨hspins, hline | hline⟩ | ⟨hclears, _⟩
  · exact hdeliver hline
  · exact hsee hspins hline
  · exact hclear hclears

/-- Until both threads are done some step changes the state. -/
theorem not_stalled (h : Inv count s) (hopen : ¬ (s.client = .done ∧ s.server = .done)) :
    ¬ Stalled (UintrfdBi.step count) s := by
  intro hstalled
  cases h.phase with
  | serverTurn hclient hready =>
    have hloop := h.loop_eq
    generalize hserver : s.server = server, hk : s.clientNotifies = k at hready
    cases hready with
    | bench _ =>
      have hsame := hstalled (.serverBenchmark 0) _ (by rw [UintrfdBi.step, if_pos hserver])
      simpa using congrArg State.message hsame
    | stamp _ =>
      have hsame := hstalled (.serverStamp 0) _ (by rw [UintrfdBi.step, if_pos hserver])
      simpa [hserver] using congrArg State.server hsame
    | notify _ =>
      have hsame := hstalled .serverNotify _ (by rw [UintrfdBi.step, if_pos hserver])
      simpa [hserver] using congrArg State.server hsame
    | done =>
      rcases clientHead_cases s.loop with ⟨_, hmore⟩ | ⟨hdone, _⟩
      · omega
      · exact hopen ⟨hclient.trans hdone, hserver⟩
  | toClient harriving =>
    refine moves_of_arriving harriving (fun hline => ?_) (fun hclient hline => ?_)
      (fun hclient => ?_)
    · have hsame := hstalled .clientDelivery _ (by rw [UintrfdBi.step, hline]; rfl)
      simpa [hline] using congrArg State.clientLine hsame
    · have hsame := hstalled .clientSpin _ (by rw [UintrfdBi.step, if_pos hclient])
      rw [if_pos (by simp [hline])] at hsame
      simpa [hclient] using congrArg State.client hsame
    · have hsame := hstalled .clientClear _ (by rw [UintrfdBi.step, if_pos hclient])
      simpa [hclient] using congrArg State.client hsame
  | clientTurn hclient =>
    have hsame := hstalled .clientNotify _ (by rw [UintrfdBi.step, if_pos hclient])
    simpa using congrArg State.clientNotifies hsame
  | toServer _ harriving =>
    refine moves_of_arriving harriving (fun hline => ?_) (fun hserver hline => ?_)
      (fun hserver => ?_)
    · have hsame := hstalled .serverDelivery _ (by rw [UintrfdBi.step, hline]; rfl)
      simpa [hline] using congrArg State.serverLine hsame
    · have hsame := hstalled .serverSpin _ (by rw [UintrfdBi.step, if_pos hserver])
      rw [if_pos (by simp [hline])] at hsame
      simpa [hserver] using congrArg State.server hsame
    · have hsame := hstalled .serverClear _ (by rw [UintrfdBi.step, if_pos hserver])
      simpa [hserver] using congrArg State.server hsame

end Inv

/-- The ping-pong of `uintrfd-bi`, for every count and every interleaving of the two
threads and the deliveries. No notification is lost or counted twice: each one has
been waited for exactly once or is still under way, so the client's `k`-th wait
returns only after the server's `k`-th notify and the other way round. The finished
rounds differ by at most one, and until both threads have completed all their rounds
some step leads on. -/
theorem pingPong_loses_nothing (count : ℕ) (bench : Benchmarks) (actions : List Action)
    (s : State) (hrun : run (step count) (start count bench) actions = some s) :
    s.serverNotifies = s.clientWaits + s.clientLine.underway ∧
      s.clientNotifies = s.serverWaits + s.serverLine.underway ∧
      s.clientWaits ≤ s.serverNotifies ∧ s.serverWaits ≤ s.clientNotifies ∧
      s.message ≤ s.clientNotifies ∧ s.clientNotifies ≤ s.message + 1 ∧
      (¬ (s.client = .done ∧ s.server = .done) → ¬ Stalled (step count) s) ∧
      (s.server = .done → s.message = count ∧ s.clientNotifies = count ∧
        s.clientWaits = count ∧ s.serverNotifies = count ∧ s.serverWaits = count) := by
  have h := run_invariant (Inv count) (fun h hstep => h.step hstep) (inv_start count bench) hrun
  obtain ⟨htoClient, htoServer⟩ := h.conserved
  exact ⟨htoClient, htoServer, by omega, by omega, h.rounds_apart.1, h.rounds_apart.2,
    h.not_stalled, h.done_counts⟩

/-- The first round of two, in which the client looks at its flag too early. -/
theorem pingPong_loses_nothing_early_look :
    ∃ s, run (step 2) (start 2 ⟨0, 0, 0, 0, 0, 0, 0⟩)
        [.clientSpin, .serverStamp 5, .serverNotify, .clientSpin, .clientDelivery, .clientSpin,
          .serverSpin, .clientClear, .clientNotify] = some s ∧
      s.client = .spin ∧ s.server = .spin ∧ s.serverLine.underway = 1 ∧
      s.clientNotifies = s.serverWaits + 1 ∧ ¬ Stalled (step 2) s := by
  have hrun : run (step 2) (start 2 ⟨0, 0, 0, 0, 0, 0, 0⟩)
      [.clientSpin, .serverStamp 5, .serverNotify, .clientSpin, .clientDelivery, .clientSpin,
        .serverSpin, .clientClear, .clientNotify] =
    some ⟨⟨false, 0⟩, ⟨true, 0⟩, .spin, 1, .spin, 0, ⟨0, 5, 0, 0, 0, 0, 0⟩, 1, 1, 1, 0⟩ := by
    decide
  have hsafe := pingPong_loses_nothing 2 _ _ _ hrun
  exact ⟨_, hrun, rfl, rfl, rfl, hsafe.2.1, hsafe.2.2.2.2.2.2.1 (by decide)⟩

end IpcBench.UintrfdBi
