import IpcBench.Eventfd.Bi

/-!
# There is never more than one token

The proof follows the one token of the protocol: it is in the counter, or held by
a process that has read the wrong one and will write it back, or nowhere because
its owner is about to write the other. A write therefore always meets an empty
counter, so two tokens are never added together and no wait misses its value.
-/

namespace IpcBench.EventfdBi

open Lib

/-- The server has finished `k` rounds and does not hold a token: it is recording
the sample of the last one, waiting for the next one, or done. -/
inductive Ready (count : ℕ) : ServerPc → ℕ → ℕ → Prop where
  | bench {message : ℕ} (hk : message + 1 ≤ count) : Ready count .bench message (message + 1)
  | stamp {k : ℕ} (hk : k < count) : Ready count .stamp k k
  | read {k : ℕ} (hk : k < count) : Ready count (.wait .read) k k
  | done : Ready count .done count count

/-- A server that is ready and inside `eventfd_wait` is about to read. -/
theorem Ready.of_wait {count message k : ℕ} {pc : WaitPc} (h : Ready count (.wait pc) message k) :
    pc = .read ∧ message = k ∧ k < count := by
  cases h with
  | read hk => exact ⟨rfl, rfl, hk⟩

/-- A read of the empty counter blocks. -/
theorem eventfdWait_blocked (wanted : ℕ) : eventfdWait wanted 0 .read = none := rfl

/-- How often `eventfd_notify` and `eventfd_wait` have returned, besides the `k`
waits of the client. -/
def Calls (s : State) (clientNotifies serverWaits serverNotifies : ℕ) : Prop :=
  s.clientNotifies = clientNotifies ∧ s.serverWaits = serverWaits ∧
    s.serverNotifies = serverNotifies

/-- Where the token is in the round after the `k` rounds the client has finished. -/
inductive Phase (count : ℕ) (s : State) (k : ℕ) : Prop where
  | clientTurn (hclient : s.client = .notify) (hcounter : s.counter = 0)
      (hready : Ready count s.server s.message k) (hk : k < count) (hcalls : Calls s k k k)
  | toServer (htoken : s.client = .wait .read ∧ s.counter = 1 ∨
        s.client = .wait (.writeBack 1) ∧ s.counter = 0)
      (hready : Ready count s.server s.message k) (hk : k < count) (hcalls : Calls s (k + 1) k k)
  | serverTurn (hclient : s.client = .wait .read) (hcounter : s.counter = 0)
      (hserver : s.server = .notify) (hmessage : s.message = k) (hk : k < count)
      (hcalls : Calls s (k + 1) (k + 1) k)
  | toClient (hclient : s.client = .wait .read)
      (htoken : s.counter = 2 ∧ Ready count s.server s.message (k + 1) ∨
        s.counter = 0 ∧ s.server = .wait (.writeBack 2) ∧ s.message = k + 1 ∧ k + 1 < count)
      (hk : k < count) (hcalls : Calls s (k + 1) (k + 1) (k + 1))
  | finished (hclient : s.client = .done) (hcounter : s.counter = 0)
      (hready : Ready count s.server s.message k) (hk : k = count) (hcalls : Calls s k k k)

/-- What holds between any two steps. -/
structure Inv (count : ℕ) (s : State) : Prop where
  remaining_eq : s.remaining + s.clientWaits = count
  phase : Phase count s s.clientWaits

/-- At the head of its loop the server is ready for the next round. -/
theorem ready_serverHead {count k : ℕ} (hk : k ≤ count) : Ready count (serverHead count k) k k := by
  unfold serverHead
  by_cases hmore : k < count
  · rw [if_pos hmore]
    exact .stamp hmore
  · rw [if_neg hmore]
    obtain rfl : k = count := by omega
    exact .done

/-- At the head of its loop the client starts a round or is finished. -/
theorem phase_clientHead {count k : ℕ} {s : State} (hclient : s.client = clientHead s.remaining)
    (hremaining : s.remaining + k = count) (hcounter : s.counter = 0)
    (hready : Ready count s.server s.message k) (hcalls : Calls s k k k) : Phase count s k := by
  unfold clientHead at hclient
  by_cases hmore : s.remaining > 0
  · rw [if_pos hmore] at hclient
    exact .clientTurn hclient hcounter hready (by omega) hcalls
  · rw [if_neg hmore] at hclient
    exact .finished hclient hcounter hready (by omega) hcalls

/-- The invariant holds after the `fork`. -/
theorem inv_start (count : ℕ) (bench : Benchmarks) : Inv count (start count bench) :=
  ⟨rfl, phase_clientHead rfl rfl rfl (ready_serverHead (Nat.zero_le count)) ⟨rfl, rfl, rfl⟩⟩

namespace Inv

variable {count : ℕ} {s t : State}

/-- The client puts its token into the empty counter. -/
theorem clientNotify (h : Inv count s) (hstep : step count s .clientNotify = some t) :
    Inv count t := by
  simp only [step, Option.ite_none_right_eq_some, Option.map_eq_some_iff] at hstep
  obtain ⟨hclient, counter, hwrite, rfl⟩ := hstep
  obtain ⟨_, rfl⟩ := eventFdWrite_eq_some.mp hwrite
  refine { h with phase := ?_ }
  cases h.phase with
  | clientTurn _ hcounter hready hk hcalls =>
    obtain ⟨hnotifies, hwaits, hanswers⟩ := hcalls
    refine .toServer (Or.inl ⟨rfl, ?_⟩) hready hk ⟨?_, hwaits, hanswers⟩
    · rw [hcounter]
      rfl
    · rw [hnotifies]
  | _ => simp_all

/-- The client reads its own token back, or returns the server's to the counter, or
receives its answer. -/
theorem clientWait (h : Inv count s) (hstep : step count s .clientWait = some t) :
    Inv count t := by
  cases h.phase with
  | toServer htoken hready hk hcalls =>
    rcases htoken with ⟨hclient, hcounter⟩ | ⟨hclient, hcounter⟩
    · have hcall : eventfdWait clientToken 1 .read = some (0, some (.writeBack 1)) := rfl
      simp only [step, hclient, hcounter, hcall, Option.map_some, Option.some.injEq] at hstep
      subst hstep
      exact { h with phase := .toServer (Or.inr ⟨rfl, rfl⟩) hready hk hcalls }
    · have hcall : eventfdWait clientToken 0 (.writeBack 1) = some (1, some .read) := rfl
      simp only [step, hclient, hcounter, hcall, Option.map_some, Option.some.injEq] at hstep
      subst hstep
      exact { h with phase := .toServer (Or.inl ⟨rfl, rfl⟩) hready hk hcalls }
  | serverTurn hclient hcounter =>
    simp [step, hclient, hcounter, eventfdWait_blocked] at hstep
  | toClient hclient htoken hk hcalls =>
    rcases htoken with ⟨hcounter, hready⟩ | ⟨hcounter, _⟩
    · have hcall : eventfdWait clientToken 2 .read = some (0, none) := rfl
      simp only [step, hclient, hcounter, hcall, Option.map_some, Option.some.injEq] at hstep
      subst hstep
      have hremaining := h.remaining_eq
      have hleft : s.remaining - 1 + (s.clientWaits + 1) = count := by omega
      exact ⟨hleft, phase_clientHead rfl hleft rfl hready hcalls⟩
    · simp [step, hclient, hcounter, eventfdWait_blocked] at hstep
  | clientTurn hclient | finished hclient => simp [step, hclient] at hstep

/-- A step of the server that keeps it ready changes nothing else. -/
theorem phase_of_ready {k message : ℕ} {server : ServerPc} {bench : Benchmarks}
    (h : Phase count s k) (hnotify : s.server ≠ .notify)
    (hhold : ∀ stored, s.server ≠ .wait (.writeBack stored))
    (hready : ∀ {k}, Ready count s.server s.message k → Ready count server message k) :
    Phase count { s with server := server, message := message, bench := bench } k := by
  cases h with
  | clientTurn hclient hcounter hold hk hcalls =>
    exact .clientTurn hclient hcounter (hready hold) hk hcalls
  | toServer htoken hold hk hcalls => exact .toServer htoken (hready hold) hk hcalls
  | serverTurn _ _ hserver => exact absurd hserver hnotify
  | toClient hclient htoken hk hcalls =>
    rcases htoken with ⟨hcounter, hold⟩ | ⟨_, hserver, _⟩
    · exact .toClient hclient (Or.inl ⟨hcounter, hready hold⟩) hk hcalls
    · exact absurd hserver (hhold 2)
  | finished hclient hcounter hold hk hcalls =>
    exact .finished hclient hcounter (hready hold) hk hcalls

/-- The server notes the start of its sample. -/
theorem serverStamp {now : UInt64} (h : Inv count s)
    (hstep : step count s (.serverStamp now) = some t) : Inv count t := by
  simp only [step, Option.ite_none_right_eq_some, Option.some.injEq] at hstep
  obtain ⟨hserver, rfl⟩ := hstep
  refine { h with phase := phase_of_ready h.phase (by simp [hserver]) (by simp [hserver]) ?_ }
  intro k hready
  rw [hserver] at hready
  cases hready with
  | stamp hk => exact .read hk

/-- The server records its sample and goes to the head of its loop. -/
theorem serverBenchmark {now : UInt64} (h : Inv count s)
    (hstep : step count s (.serverBenchmark now) = some t) : Inv count t := by
  simp only [step, Option.ite_none_right_eq_some, Option.some.injEq] at hstep
  obtain ⟨hserver, rfl⟩ := hstep
  refine { h with phase := phase_of_ready h.phase (by simp [hserver]) (by simp [hserver]) ?_ }
  intro k hready
  rw [hserver] at hready
  cases hready with
  | bench hk => exact ready_serverHead hk

/-- The server receives its token, or reads its own token back, or returns the
client's to the counter. -/
theorem serverWait (h : Inv count s) (hstep : step count s .serverWait = some t) :
    Inv count t := by
  cases hserver : s.server with
  | wait pc =>
    cases h.phase with
    | clientTurn _ hcounter hready | finished _ hcounter hready =>
      rw [hserver] at hready
      obtain ⟨rfl, _⟩ := hready.of_wait
      simp [step, hserver, hcounter, eventfdWait_blocked] at hstep
    | toServer htoken hready hk hcalls =>
      rw [hserver] at hready
      obtain ⟨rfl, hmessage, _⟩ := hready.of_wait
      rcases htoken with ⟨hclient, hcounter⟩ | ⟨_, hcounter⟩
      · have hcall : eventfdWait serverToken 1 .read = some (0, none) := rfl
        simp only [step, hserver, hcounter, hcall, Option.map_some, Option.some.injEq] at hstep
        subst hstep
        obtain ⟨hnotifies, hwaits, hanswers⟩ := hcalls
        exact { h with
          phase := .serverTurn hclient rfl rfl hmessage hk ⟨hnotifies, by rw [hwaits], hanswers⟩ }
      · simp [step, hserver, hcounter, eventfdWait_blocked] at hstep
    | serverTurn _ _ hnotify => simp [hserver] at hnotify
    | toClient hclient htoken hk hcalls =>
      rcases htoken with ⟨hcounter, hready⟩ | ⟨hcounter, hhold, hmessage, hmore⟩
      · rw [hserver] at hready
        obtain ⟨rfl, hmessage, hmore⟩ := hready.of_wait
        have hcall : eventfdWait serverToken 2 .read = some (0, some (.writeBack 2)) := rfl
        simp only [step, hserver, hcounter, hcall, Option.map_some, Option.some.injEq] at hstep
        subst hstep
        exact { h with
          phase := .toClient hclient (Or.inr ⟨rfl, rfl, hmessage, hmore⟩) hk hcalls }
      · have hcall : eventfdWait serverToken 0 (.writeBack 2) = some (2, some .read) := rfl
        simp only [step, hhold, hcounter, hcall, Option.map_some, Option.some.injEq] at hstep
        subst hstep
        refine { h with phase := .toClient hclient (Or.inl ⟨rfl, ?_⟩) hk hcalls }
        change Ready count (.wait .read) s.message (s.clientWaits + 1)
        rw [hmessage]
        exact .read hmore
  | _ => simp [step, hserver] at hstep

/-- The server puts its token into the empty counter. -/
theorem serverNotify (h : Inv count s) (hstep : step count s .serverNotify = some t) :
    Inv count t := by
  simp only [step, Option.ite_none_right_eq_some, Option.map_eq_some_iff] at hstep
  obtain ⟨hserver, counter, hwrite, rfl⟩ := hstep
  obtain ⟨_, rfl⟩ := eventFdWrite_eq_some.mp hwrite
  refine { h with phase := ?_ }
  cases h.phase with
  | serverTurn hclient hcounter _ hmessage hk hcalls =>
    obtain ⟨hnotifies, hwaits, hanswers⟩ := hcalls
    refine .toClient hclient (Or.inl ⟨by rw [hcounter]; rfl, ?_⟩) hk ⟨hnotifies, hwaits, ?_⟩
    · change Ready count .bench s.message (s.clientWaits + 1)
      rw [hmessage]
      exact .bench hk
    · rw [hanswers]
  | clientTurn _ _ hready | toServer _ hready | finished _ _ hready =>
    rw [hserver] at hready
    cases hready
  | toClient _ htoken =>
    rcases htoken with ⟨_, hready⟩ | ⟨_, hhold, _⟩
    · rw [hserver] at hready
      cases hready
    · simp [hserver] at hhold

/-- Every step of either process keeps the invariant. -/
theorem step {a : Action} (h : Inv count s) (hstep : EventfdBi.step count s a = some t) :
    Inv count t := by
  cases a with
  | clientNotify => exact h.clientNotify hstep
  | clientWait => exact h.clientWait hstep
  | serverStamp now => exact h.serverStamp hstep
  | serverWait => exact h.serverWait hstep
  | serverNotify => exact h.serverNotify hstep
  | serverBenchmark now => exact h.serverBenchmark hstep

/-- The counter holds no token or exactly one. -/
theorem counter_eq (h : Inv count s) : s.counter = 0 ∨ s.counter = 1 ∨ s.counter = 2 := by
  cases h.phase with
  | clientTurn _ hcounter | serverTurn _ hcounter | finished _ hcounter => exact Or.inl hcounter
  | toServer htoken =>
    rcases htoken with ⟨_, hcounter⟩ | ⟨_, hcounter⟩
    · exact Or.inr (Or.inl hcounter)
    · exact Or.inl hcounter
  | toClient _ htoken =>
    rcases htoken with ⟨hcounter, _⟩ | ⟨hcounter, _⟩
    · exact Or.inr (Or.inr hcounter)
    · exact Or.inl hcounter

/-- No wait is ahead of the notifications it waits for. -/
theorem waits_le (h : Inv count s) :
    s.clientWaits ≤ s.serverNotifies ∧ s.serverWaits ≤ s.clientNotifies := by
  cases h.phase with
  | clientTurn _ _ _ _ hcalls | toServer _ _ _ hcalls | serverTurn _ _ _ _ _ hcalls
  | toClient _ _ _ hcalls | finished _ _ _ _ hcalls =>
    obtain ⟨hnotifies, hwaits, hanswers⟩ := hcalls
    omega

/-- A process that is done has made all its calls. -/
theorem done_counts (h : Inv count s) (hclient : s.client = .done) :
    s.clientNotifies = count ∧ s.clientWaits = count ∧ s.serverNotifies = count ∧
      s.serverWaits = count := by
  cases h.phase with
  | finished _ _ _ hk hcalls =>
    obtain ⟨hnotifies, hwaits, hanswers⟩ := hcalls
    omega
  | toServer htoken => simp [hclient] at htoken
  | clientTurn hclient' | serverTurn hclient' | toClient hclient' => simp [hclient] at hclient'

/-- Until both processes are done one of them can take a step. -/
theorem not_stuck (h : Inv count s) (hopen : ¬ (s.client = .done ∧ s.server = .done)) :
    ¬ Stuck (EventfdBi.step count) s := by
  intro hstuck
  cases h.phase with
  | clientTurn hclient hcounter =>
    have hnotify := hstuck .clientNotify
    simp [EventfdBi.step, hclient, hcounter, eventFdWrite, eventFdMax, serverToken] at hnotify
  | toServer htoken =>
    have hwait := hstuck .clientWait
    rcases htoken with ⟨hclient, hcounter⟩ | ⟨hclient, hcounter⟩
    · simp [EventfdBi.step, hclient, hcounter, eventfdWait, eventFdRead] at hwait
    · simp [EventfdBi.step, hclient, hcounter, eventfdWait, eventFdWrite, eventFdMax] at hwait
  | serverTurn _ hcounter hserver =>
    have hnotify := hstuck .serverNotify
    simp [EventfdBi.step, hserver, hcounter, eventFdWrite, eventFdMax, clientToken] at hnotify
  | toClient hclient htoken =>
    rcases htoken with ⟨hcounter, _⟩ | ⟨hcounter, hserver, _⟩
    · have hwait := hstuck .clientWait
      simp [EventfdBi.step, hclient, hcounter, eventfdWait, eventFdRead] at hwait
    · have hwait := hstuck .serverWait
      simp [EventfdBi.step, hserver, hcounter, eventfdWait, eventFdWrite, eventFdMax] at hwait
  | finished hclient _ hready hk =>
    rw [hk] at hready
    generalize hserver : s.server = server at hready
    cases hready with
    | bench _ =>
      have hbench := hstuck (.serverBenchmark 0)
      simp [EventfdBi.step, hserver] at hbench
    | done => exact hopen ⟨hclient, hserver⟩
    | stamp hlt | read hlt => exact absurd hlt (Nat.lt_irrefl _)

end Inv

/-- The token protocol of `eventfd-bi`, for every count and every interleaving with
any number of misread tokens: the counter is 0, 1 or 2; the client's `k`-th wait
returns only after the server's `k`-th notify and the other way round; until both
processes are done some step is possible, and when they are done both have made
all their calls. -/
theorem tokens_never_lost (count : ℕ) (bench : Benchmarks) (actions : List Action) (s : State)
    (hrun : run (step count) (start count bench) actions = some s) :
    (s.counter = 0 ∨ s.counter = 1 ∨ s.counter = 2) ∧
      s.clientWaits ≤ s.serverNotifies ∧ s.serverWaits ≤ s.clientNotifies ∧
      (¬ (s.client = .done ∧ s.server = .done) → ¬ Stuck (step count) s) ∧
      (s.client = .done → s.clientNotifies = count ∧ s.clientWaits = count ∧
        s.serverNotifies = count ∧ s.serverWaits = count) := by
  have h := run_invariant (Inv count) (fun h hstep => h.step hstep) (inv_start count bench) hrun
  exact ⟨h.counter_eq, h.waits_le.1, h.waits_le.2, h.not_stuck, h.done_counts⟩

/-- One round in which the client first reads its own token and writes it back. -/
theorem tokens_never_lost_misread :
    ∃ s, run (step 1) (start 1 ⟨0, 0, 0, 0, 0, 0, 0⟩)
        [.clientNotify, .clientWait, .serverStamp 5, .clientWait, .serverWait, .serverNotify,
          .clientWait] = some s ∧
      s.client = .done ∧ s.clientWaits = 1 ∧ s.serverNotifies = 1 ∧ ¬ Stuck (step 1) s := by
  have hrun : run (step 1) (start 1 ⟨0, 0, 0, 0, 0, 0, 0⟩)
      [.clientNotify, .clientWait, .serverStamp 5, .clientWait, .serverWait, .serverNotify,
        .clientWait] = some ⟨0, .done, 0, .bench, 0, ⟨0, 5, 0, 0, 0, 0, 0⟩, 1, 1, 1, 1⟩ := by decide
  have hsafe := tokens_never_lost 1 _ _ _ hrun
  exact ⟨_, hrun, rfl, rfl, rfl, hsafe.2.2.2.1 (by decide)⟩

end IpcBench.EventfdBi
