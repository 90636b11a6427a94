import IpcBench.Lib.IntCounter
import IpcBench.Signal.Protocol

/-!
# The client of the `signal` benchmark never ends

The two loops exchange exactly `args->count` rounds of signals without losing one, and
the server finishes with one sample for each of them. The loop of the client decrements
the wrong field of its arguments: its condition stays true, and after the last round
it waits for a signal that nobody will send.
-/

namespace IpcBench.SignalBench

open Lib

/-- The server has finished its part of `k` rounds and has not yet notified in the next
one. -/
inductive Ready (count : ℤ) : ServerPc → ℤ → ℤ → Prop where
  | bench {message k : ℤ} (hk : message + 1 = k) (hle : k ≤ count) : Ready count .bench message k
  | stamp {k : ℤ} (hk : k < count) : Ready count .stamp k k
  | notify {k : ℤ} (hk : k < count) : Ready count .notify k k
  | done : Ready count .done count count

namespace Ready

variable {count message k : ℤ} {server : ServerPc}

/-- A server about to record its sample is one round behind. -/
theorem of_bench (h : Ready count .bench message k) : message + 1 = k ∧ k ≤ count := by
  cases h with
  | bench hk hle => exact ⟨hk, hle⟩

/-- A server about to take a timestamp has a round to go. -/
theorem of_stamp (h : Ready count .stamp message k) : message = k ∧ k < count := by
  cases h with
  | stamp hk => exact ⟨rfl, hk⟩

/-- A server about to notify has a round to go. -/
theorem of_notify (h : Ready count .notify message k) : message = k ∧ k < count := by
  cases h with
  | notify hk => exact ⟨rfl, hk⟩

/-- A server that is done has finished all rounds. -/
theorem of_done (h : Ready count .done message k) : message = count ∧ k = count := by
  cases h with
  | done => exact ⟨rfl, rfl⟩

/-- The rounds finished are never more than there are. -/
theorem le (h : Ready count server message k) : k ≤ count := by
  cases h with
  | bench _ hle => exact hle
  | stamp hk | notify hk => exact Int.le_of_lt hk
  | done => exact Int.le_refl _

end Ready

/-- Where the two processes stand after the `k` bodies the client has finished. -/
inductive Phase (count : ℤ) (s : State) (k : ℕ) : Prop where
  | begin (hclient : s.client = .begin) (hserver : s.server = .begin)
      (hlink : s.link.At false false) (hfirst : k = 0 ∧ s.samples = [])
  | asked (hclient : s.client = .wait) (hserver : s.server = .begin)
      (hlink : s.link.At true false) (hfirst : k = 0 ∧ s.samples = [])
  | setup (hclient : s.client = .wait) (hserver : s.server = .setup)
      (hlink : s.link.At false false) (hfirst : k = 0 ∧ s.samples = [])
  | ready (hclient : s.client = .wait) (hready : Ready count s.server s.message.toInt k)
      (hlink : s.link.At false false)
  | toClient (hclient : s.client = .wait) (hserver : s.server = .wait)
      (hlink : s.link.At false true) (hmessage : s.message.toInt = k) (hk : (k : ℤ) < count)
  | clientTurn (hclient : s.client = .notify) (hserver : s.server = .wait)
      (hlink : s.link.At false false) (hmessage : s.message.toInt = k) (hk : (k : ℤ) < count)
  | toServer (hclient : s.client = .wait) (hserver : s.server = .wait)
      (hlink : s.link.At true false) (hmessage : s.message.toInt + 1 = k) (hk : (k : ℤ) ≤ count)

/-- What holds between any two steps. -/
structure Inv (args : Arguments) (s : State) : Prop where
  clientCount_eq : s.clientArgs.count = args.count
  message_eq : s.message.toInt = s.samples.length
  notifies_eq : s.link.clientNotifies = s.bodies + if s.client = .begin then 0 else 1
  samples_late : ∀ (k n : ℕ), s.samples[k]? = some n → k + 2 ≤ n
  bench_eq : s.server ≠ .begin → s.server ≠ .setup → s.bench.count.toInt = s.samples.length
  phase : Phase args.count.toInt s s.bodies

/-- At the head of its loop the server is ready for the next round. -/
theorem ready_serverHead {args : Arguments} {message : Int32}
    (hle : message.toInt ≤ args.count.toInt) :
    Ready args.count.toInt (serverHead args message) message.toInt message.toInt := by
  unfold serverHead
  by_cases hmore : message < args.count
  · rw [if_pos hmore]
    exact .stamp (Int32.lt_iff_toInt_lt.mp hmore)
  · rw [if_neg hmore]
    rw [Int32.lt_iff_toInt_lt] at hmore
    obtain heq : message.toInt = args.count.toInt := by omega
    rw [heq]
    exact .done

/-- The head of the loop of the client never lets it go. -/
theorem clientHead_eq {args : Arguments} (hcount : 0 < args.count) : clientHead args = .wait :=
  if_pos hcount

/-- The invariant holds behind the set-ups. -/
theorem inv_start (args : Arguments) (bench : Benchmarks) : Inv args (start args bench) :=
  ⟨rfl, rfl, rfl, by simp [start], fun h => absurd rfl h,
    .begin rfl rfl SignalLink.at_start ⟨rfl, rfl⟩⟩

namespace Inv

variable {args : Arguments} {s t : State}

/-- The client makes its first notification. -/
theorem clientBegin (h : Inv args s) (hcount : 0 < args.count)
    (hstep : step args s .clientBegin = some t) : Inv args t := by
  obtain ⟨hclient, rfl⟩ := step_clientBegin hstep
  have hhead : clientHead s.clientArgs = .wait := clientHead_eq (h.clientCount_eq ▸ hcount)
  have hnotifies := h.notifies_eq
  rw [if_pos hclient] at hnotifies
  cases h.phase with
  | begin _ hserver hlink hfirst =>
    refine { h with
      notifies_eq := ?_
      phase := .asked hhead hserver hlink.notifyServer hfirst }
    change s.link.clientNotifies + 1 = _
    rw [if_neg (by simp [hhead]), hnotifies]
  | _ => simp_all

/-- The client is woken only by the server. -/
theorem clientWait (h : Inv args s) (hstep : step args s .clientWait = some t) : Inv args t := by
  obtain ⟨hclient, link, hwait, rfl⟩ := step_clientWait hstep
  have hnotifies := h.notifies_eq
  rw [if_neg (by simp [hclient])] at hnotifies
  cases h.phase with
  | toClient _ hserver hlink hmessage hk =>
    refine { h with
      notifies_eq := ?_
      phase := .clientTurn rfl hserver (hlink.clientWait hwait).2 hmessage hk }
    exact (SignalLink.clientWait_clientNotifies hwait).trans hnotifies
  | asked _ _ hlink | setup _ _ hlink | ready _ _ hlink | toServer _ _ hlink =>
    exact absurd (hlink.clientWait hwait).1 (by simp)
  | begin hbegin => simp [hclient] at hbegin
  | clientTurn hnotify => simp [hclient] at hnotify

/-- The client answers; its loop goes on whatever the round. -/
theorem clientNotify (h : Inv args s) (hcount : 0 < args.count)
    (hstep : step args s .clientNotify = some t) : Inv args t := by
  obtain ⟨hclient, clientArgs, hargs, rfl⟩ := step_clientNotify hstep
  have hsame : clientArgs.count = args.count := hargs.trans h.clientCount_eq
  have hhead : clientHead clientArgs = .wait := clientHead_eq (hsame ▸ hcount)
  have hnotifies := h.notifies_eq
  rw [if_neg (by simp [hclient])] at hnotifies
  cases h.phase with
  | clientTurn _ hserver hlink hmessage hk =>
    refine { h with
      clientCount_eq := hsame
      notifies_eq := ?_
      phase := .toServer hhead hserver hlink.notifyServer ?_ ?_ }
    · change s.link.clientNotifies + 1 = _
      rw [if_neg (by simp [hhead]), hnotifies]
    · change s.message.toInt + 1 = ((s.bodies + 1 : ℕ) : ℤ)
      omega
    · change ((s.bodies + 1 : ℕ) : ℤ) ≤ args.count.toInt
      omega
  | _ => simp_all

/-- The server is woken for the first time. -/
theorem serverBegin (h : Inv args s) (hstep : step args s .serverBegin = some t) :
    Inv args t := by
  obtain ⟨hserver, link, hwait, rfl⟩ := step_serverBegin hstep
  cases h.phase with
  | asked hclient _ hlink hfirst =>
    refine { h with
      notifies_eq := (SignalLink.serverWait_clientNotifies hwait).trans h.notifies_eq
      bench_eq := fun _ hsetup => absurd rfl hsetup
      phase := .setup hclient rfl (hlink.serverWait hwait).2 hfirst }
  | begin _ _ hlink => exact absurd (hlink.serverWait hwait).1 (by simp)
  | ready _ hready =>
    rw [hserver] at hready
    cases hready
  | setup _ hother | toClient _ hother | clientTurn _ hother | toServer _ hother =>
    simp [hserver] at hother

/-- The server sets up its record and enters its loop. -/
theorem serverSetup {now : UInt64} (h : Inv args s) (hcount : 0 < args.count)
    (hstep : step args s (.serverSetup now) = some t) : Inv args t := by
  obtain ⟨hserver, rfl⟩ := step_serverSetup hstep
  have hpos := toInt_pos hcount
  have hmessage := h.message_eq
  cases h.phase with
  | setup hclient _ hlink hfirst =>
    obtain ⟨hbodies, hsamples⟩ := hfirst
    have hzero : s.message.toInt = 0 := by rw [hmessage, hsamples, List.length_nil, Int.ofNat_zero]
    refine { h with bench_eq := fun _ _ => ?_, phase := .ready hclient ?_ hlink }
    · rw [hsamples]
      rfl
    · rw [show ((s.bodies : ℕ) : ℤ) = s.message.toInt by omega]
      exact ready_serverHead (by omega)
  | ready _ hready =>
    rw [hserver] at hready
    cases hready
  | begin _ hother | asked _ hother | toClient _ hother | clientTurn _ hother
  | toServer _ hother => simp [hserver] at hother

/-- The server notes the start of its sample. -/
theorem serverStamp {now : UInt64} (h : Inv args s)
    (hstep : step args s (.serverStamp now) = some t) : Inv args t := by
  obtain ⟨hserver, rfl⟩ := step_serverStamp hstep
  have hbench := h.bench_eq (by simp [hserver]) (by simp [hserver])
  cases h.phase with
  | ready hclient hready hlink =>
    refine { h with bench_eq := fun _ _ => hbench, phase := .ready hclient ?_ hlink }
    rw [hserver] at hready
    obtain ⟨hk, hlt⟩ := hready.of_stamp
    rw [← hk] at hlt ⊢
    exact .notify hlt
  | begin _ hother | asked _ hother | setup _ hother | toClient _ hother | clientTurn _ hother
  | toServer _ hother => simp [hserver] at hother

/-- The server notifies the waiting client. -/
theorem serverNotify (h : Inv args s) (hstep : step args s .serverNotify = some t) :
    Inv args t := by
  obtain ⟨hserver, rfl⟩ := step_serverNotify hstep
  have hbench := h.bench_eq (by simp [hserver]) (by simp [hserver])
  cases h.phase with
  | ready hclient hready hlink =>
    rw [hserver] at hready
    obtain ⟨hk, hlt⟩ := hready.of_notify
    exact { h with
      bench_eq := fun _ _ => hbench
      phase := .toClient hclient rfl hlink.notifyClient hk hlt }
  | begin _ hother | asked _ hother | setup _ hother | toClient _ hother | clientTurn _ hother
  | toServer _ hother => simp [hserver] at hother

/-- The server is woken only by the answer of the client. -/
theorem serverWait (h : Inv args s) (hstep : step args s .serverWait = some t) : Inv args t := by
  obtain ⟨hserver, link, hwait, rfl⟩ := step_serverWait hstep
  have hbench := h.bench_eq (by simp [hserver]) (by simp [hserver])
  cases h.phase with
  | toServer hclient _ hlink hmessage hk =>
    exact { h with
      notifies_eq := (SignalLink.serverWait_clientNotifies hwait).trans h.notifies_eq
      bench_eq := fun _ _ => hbench
      phase := .ready hclient (.bench hmessage hk) (hlink.serverWait hwait).2 }
  | toClient _ _ hlink | clientTurn _ _ hlink =>
    exact absurd (hlink.serverWait hwait).1 (by simp)
  | ready _ hready =>
    rw [hserver] at hready
    cases hready
  | begin _ hother | asked _ hother | setup _ hother => simp [hserver] at hother

/-- The server records a sample that ends after one more notification of the client
than there are samples. -/
theorem serverBenchmark {now : UInt64} (h : Inv args s)
    (hstep : step args s (.serverBenchmark now) = some t) : Inv args t := by
  obtain ⟨hserver, rfl⟩ := step_serverBenchmark hstep
  have hbench := h.bench_eq (by simp [hserver]) (by simp [hserver])
  have hmessage := h.message_eq
  have hnotifies := h.notifies_eq
  have hhigh := args.count.toInt_lt
  cases h.phase with
  | ready hclient hready hlink =>
    rw [hclient, if_neg (by simp)] at hnotifies
    rw [hserver] at hready
    obtain ⟨hk, hle⟩ := hready.of_bench
    have hnext : (s.message + 1).toInt = s.message.toInt + 1 := toInt_add_one (by omega)
    have hlength : (s.samples ++ [s.link.clientNotifies]).length = s.samples.length + 1 := by
      rw [List.length_append, List.length_singleton]
    refine { h with
      message_eq := ?_
      samples_late := fun k n hn => ?_
      bench_eq := fun _ _ => ?_
      phase := .ready hclient ?_ hlink }
    · change (s.message + 1).toInt = _
      rw [hlength]
      omega
    · change (s.samples ++ [s.link.clientNotifies])[k]? = some n at hn
      rcases Nat.lt_or_ge k s.samples.length with hold | hnew
      · rw [List.getElem?_append_left hold] at hn
        exact h.samples_late k n hn
      · have hlt := (List.getElem?_eq_some_iff.mp hn).1
        rw [hlength] at hlt
        obtain rfl : k = s.samples.length := by omega
        rw [List.getElem?_concat_length, Option.some.injEq] at hn
        omega
    · change (benchmark s.bench now).count.toInt = _
      rw [benchmark_count, toInt_add_one (by omega), hlength]
      omega
    · change Ready args.count.toInt (serverHead args (s.message + 1)) (s.message + 1).toInt s.bodies
      rw [← hk, ← hnext]
      exact ready_serverHead (by omega)
  | begin _ hother | asked _ hother | setup _ hother | toClient _ hother | clientTurn _ hother
  | toServer _ hother => simp [hserver] at hother

/-- Every step of either process keeps the invariant. -/
theorem step {a : Action} (h : Inv args s) (hcount : 0 < args.count)
    (hstep : SignalBench.step args s a = some t) : Inv args t := by
  cases a with
  | clientBegin => exact h.clientBegin hcount hstep
  | clientWait => exact h.clientWait hstep
  | clientNotify => exact h.clientNotify hcount hstep
  | serverBegin => exact h.serverBegin hstep
  | serverSetup now => exact h.serverSetup hcount hstep
  | serverStamp now => exact h.serverStamp hstep
  | serverNotify => exact h.serverNotify hstep
  | serverWait => exact h.serverWait hstep
  | serverBenchmark now => exact h.serverBenchmark hstep

/-- The client is never behind its loop. -/
theorem client_ne_done (h : Inv args s) : s.client ≠ .done := by
  cases h.phase with
  | begin hclient | asked hclient | setup hclient | ready hclient | toClient hclient
  | clientTurn hclient | toServer hclient => simp [hclient]

/-- The client does not run more bodies than there are rounds. -/
theorem bodies_le (h : Inv args s) (hcount : 0 < args.count) :
    (s.bodies : ℤ) ≤ args.count.toInt := by
  have hpos := toInt_pos hcount
  cases h.phase with
  | begin _ _ _ hfirst | asked _ _ _ hfirst | setup _ _ _ hfirst => omega
  | ready _ hready => exact hready.le
  | toClient _ _ _ _ hk | clientTurn _ _ _ _ hk | toServer _ _ _ _ hk => omega

/-- The server does not record more samples than there are rounds. -/
theorem samples_le (h : Inv args s) : s.samples.length ≤ s.bodies := by
  have hmessage := h.message_eq
  cases h.phase with
  | begin _ _ _ hfirst | asked _ _ _ hfirst | setup _ _ _ hfirst => simp [hfirst.2]
  | ready _ hready =>
    generalize s.server = server at hready
    have hle : s.message.toInt ≤ (s.bodies : ℤ) := by
      generalize ((s.bodies : ℕ) : ℤ) = k, s.message.toInt = message at hready ⊢
      cases hready with
      | bench hk _ => omega
      | stamp _ | notify _ | done => exact Int.le_refl _
    omega
  | toClient _ _ _ hk | clientTurn _ _ _ hk | toServer _ _ _ hk => omega

/-- A server that is done has all its samples, and the client waits with nothing
pending. -/
theorem of_done (h : Inv args s) (hserver : s.server = .done) :
    s.client = .wait ∧ s.link.At false false ∧ (s.bodies : ℤ) = args.count.toInt ∧
      (s.samples.length : ℤ) = args.count.toInt ∧ s.bench.count = args.count := by
  have hbench := h.bench_eq (by simp [hserver]) (by simp [hserver])
  have hmessage := h.message_eq
  cases h.phase with
  | ready hclient hready hlink =>
    rw [hserver] at hready
    obtain ⟨hall, hk⟩ := hready.of_done
    refine ⟨hclient, hlink, hk, by omega, ?_⟩
    rw [← Int32.toInt_inj]
    omega
  | begin _ hother | asked _ hother | setup _ hother | toClient _ hother | clientTurn _ hother
  | toServer _ hother => simp [hserver] at hother

/-- Until the server is done one of the processes can go on. -/
theorem not_stuck (h : Inv args s) (hserver : s.server ≠ .done) :
    ¬ Stuck (SignalBench.step args) s := by
  intro hstuck
  cases h.phase with
  | begin hclient =>
    have hbegin := hstuck .clientBegin
    simp [SignalBench.step, hclient] at hbegin
  | asked _ hserver hlink =>
    obtain ⟨link, hwait⟩ := Option.isSome_iff_exists.mp hlink.serverWait_isSome
    have hbegin := hstuck .serverBegin
    simp [SignalBench.step, hserver, hwait] at hbegin
  | setup _ hserver =>
    have hsetup := hstuck (.serverSetup 0)
    simp [SignalBench.step, hserver] at hsetup
  | ready _ hready =>
    cases hpc : s.server with
    | bench =>
      have hbench := hstuck (.serverBenchmark 0)
      simp [SignalBench.step, hpc] at hbench
    | stamp =>
      have hstamp := hstuck (.serverStamp 0)
      simp [SignalBench.step, hpc] at hstamp
    | notify =>
      have hnotify := hstuck .serverNotify
      simp [SignalBench.step, hpc] at hnotify
    | done => exact hserver hpc
    | begin | setup | wait =>
      rw [hpc] at hready
      cases hready
  | toClient hclient _ hlink =>
    obtain ⟨link, hwait⟩ := Option.isSome_iff_exists.mp hlink.clientWait_isSome
    have hnext := hstuck .clientWait
    simp [SignalBench.step, hclient, hwait] at hnext
  | clientTurn hclient =>
    have hnotify := hstuck .clientNotify
    simp [SignalBench.step, hclient] at hnotify
  | toServer _ hserver hlink =>
    obtain ⟨link, hwait⟩ := Option.isSome_iff_exists.mp hlink.serverWait_isSome
    have hnext := hstuck .serverWait
    simp [SignalBench.step, hserver, hwait] at hnext

end Inv

/-- How far the client is from its next body. -/
def ClientPc.rank : ClientPc → ℕ
  | .begin => 2
  | .wait => 1
  | .notify | .done => 0

/-- How far the server is from its next sample. -/
def ServerPc.rank : ServerPc → ℕ
  | .begin => 6
  | .setup => 5
  | .stamp => 4
  | .notify => 3
  | .wait => 2
  | .bench => 1
  | .done => 0

/-- What is left to do: every step of either process makes it smaller. -/
def remaining (args : Arguments) (s : State) : ℕ :=
  4 * (args.count.toInt.toNat - s.samples.length) + 2 * (args.count.toInt.toNat - s.bodies) +
    s.server.rank + s.client.rank

/-- The head of the server's loop is at most the beginning of a round. -/
theorem rank_serverHead_le (args : Arguments) (message : Int32) :
    (serverHead args message).rank ≤ 4 := by
  unfold serverHead
  split
  · exact Nat.le_refl 4
  · exact Nat.zero_le 4

/-- Every step uses up something of what is left to do. -/
theorem remaining_lt {args : Arguments} {s t : State} {a : Action} (h : Inv args s)
    (hcount : 0 < args.count) (hstep : step args s a = some t) :
    remaining args t < remaining args s := by
  have hnext := h.step hcount hstep
  have hbodies := hnext.bodies_le hcount
  have hsamples := hnext.samples_le
  cases a with
  | clientBegin =>
    obtain ⟨hclient, rfl⟩ := step_clientBegin hstep
    have hhead : clientHead s.clientArgs = .wait := clientHead_eq (h.clientCount_eq ▸ hcount)
    simp [remaining, hclient, hhead, ClientPc.rank]
  | clientWait =>
    obtain ⟨hclient, link, _, rfl⟩ := step_clientWait hstep
    simp [remaining, hclient, ClientPc.rank]
  | clientNotify =>
    obtain ⟨hclient, clientArgs, hargs, rfl⟩ := step_clientNotify hstep
    have hhead : clientHead clientArgs = .wait :=
      clientHead_eq (hargs.trans h.clientCount_eq ▸ hcount)
    simp only [remaining, hclient, hhead, ClientPc.rank]
    simp only at hbodies
    omega
  | serverBegin =>
    obtain ⟨hserver, link, _, rfl⟩ := step_serverBegin hstep
    simp [remaining, hserver, ServerPc.rank]
  | serverSetup now =>
    obtain ⟨hserver, rfl⟩ := step_serverSetup hstep
    have hhead := rank_serverHead_le args s.message
    have hold : s.server.rank = 5 := by rw [hserver]; rfl
    simp only [remaining]
    omega
  | serverStamp now =>
    obtain ⟨hserver, rfl⟩ := step_serverStamp hstep
    simp [remaining, hserver, ServerPc.rank]
  | serverNotify =>
    obtain ⟨hserver, rfl⟩ := step_serverNotify hstep
    simp [remaining, hserver, ServerPc.rank]
  | serverWait =>
    obtain ⟨hserver, link, _, rfl⟩ := step_serverWait hstep
    simp [remaining, hserver, ServerPc.rank]
  | serverBenchmark now =>
    obtain ⟨hserver, rfl⟩ := step_serverBenchmark hstep
    have hhead := rank_serverHead_le args (s.message + 1)
    have hold : s.server.rank = 1 := by rw [hserver]; rfl
    simp only [remaining, List.length_append, List.length_singleton]
    simp only [List.length_append, List.length_singleton] at hsamples hbodies
    omega

/-- What the benchmark is meant to do in every run: the client runs its loop body exactly
`args->count` times and then ends, the server records as many samples, the `k`-th of
which ends only after the client's `k + 1`-st notification, and until both processes have
finished one of them can go on. -/
def Completes (args : Arguments) (bench : Benchmarks) : Prop :=
  ∀ actions s, run (step args) (start args bench) actions = some s →
    (s.client = .done ↔ (s.bodies : ℤ) = args.count.toInt) ∧
      (s.server = .done →
        (s.samples.length : ℤ) = args.count.toInt ∧ s.bench.count = args.count) ∧
      (∀ (k n : ℕ), s.samples[k]? = some n → k + 2 ≤ n) ∧
      (¬ (s.client = .done ∧ s.server = .done) → ¬ Stuck (step args) s)

/-- The `signal` benchmark completes for no positive count and no size. In every run the
server does its part, and the client never gets behind its loop; some run, with
`args->count` bodies done and all samples recorded, ends in a state in which the client
waits and nothing can happen any more. -/
theorem never_completes (args : Arguments) (bench : Benchmarks) (hcount : 1 ≤ args.count) :
    ¬ Completes args bench ∧
      (∀ actions s, run (step args) (start args bench) actions = some s →
        s.client ≠ .done ∧ (s.bodies : ℤ) ≤ args.count.toInt ∧
        (s.server = .done →
          (s.samples.length : ℤ) = args.count.toInt ∧ s.bench.count = args.count) ∧
        (∀ (k n : ℕ), s.samples[k]? = some n → k + 2 ≤ n) ∧
        (s.server ≠ .done → ¬ Stuck (step args) s)) ∧
      ∃ actions s, run (step args) (start args bench) actions = some s ∧
        Stuck (step args) s ∧ s.server = .done ∧ s.client = .wait ∧
        (s.bodies : ℤ) = args.count.toInt := by
  have hpos := pos_of_one_le hcount
  obtain ⟨actions, s, hrun, h, hstuck⟩ := exists_run_to_stuck (Inv args) (remaining args)
    (fun h hstep => ⟨h.step hpos hstep, remaining_lt h hpos hstep⟩) (inv_start args bench)
  have hserver : s.server = .done := by
    by_contra hopen
    exact h.not_stuck hopen hstuck
  obtain ⟨hclient, _, hbodies, _⟩ := h.of_done hserver
  refine ⟨fun hcompletes => ?_, fun actions t hrun => ?_,
    actions, s, hrun, hstuck, hserver, hclient, hbodies⟩
  · exact h.client_ne_done ((hcompletes actions s hrun).1.mpr hbodies)
  · have ht := run_invariant (Inv args) (fun h hstep => h.step hpos hstep) (inv_start args bench)
      hrun
    exact ⟨ht.client_ne_done, ht.bodies_le hpos, fun hdone => (ht.of_done hdone).2.2.2,
      ht.samples_late, ht.not_stuck⟩

/-- One round of the benchmark with the default size. -/
def oneRound : List Action :=
  [.clientBegin, .serverBegin, .serverSetup 1, .serverStamp 5, .serverNotify, .clientWait,
    .clientNotify, .serverWait, .serverBenchmark 9]

/-- With the default size and one round. -/
theorem never_completes_one_round :
    (1 : Int32) ≤ (⟨4096, 1⟩ : Arguments).count ∧
      ¬ Completes ⟨4096, 1⟩ ⟨0, 0, 0, 0, 0, 0, 0⟩ :=
  ⟨by decide, (never_completes ⟨4096, 1⟩ ⟨0, 0, 0, 0, 0, 0, 0⟩ (by decide)).1⟩

/-- After one round of one, the server is done and the client waits for ever. -/
theorem client_waits_for_ever :
    ∃ s, run (step ⟨4096, 1⟩) (start ⟨4096, 1⟩ ⟨0, 0, 0, 0, 0, 0, 0⟩) oneRound = some s ∧
      s.server = .done ∧ s.bench.count = 1 ∧ s.bodies = 1 ∧ s.client = .wait ∧
      s.clientArgs = ⟨4095, 1⟩ ∧ Stuck (step ⟨4096, 1⟩) s ∧
      ¬ Completes ⟨4096, 1⟩ ⟨0, 0, 0, 0, 0, 0, 0⟩ := by
  have hrun : run (step ⟨4096, 1⟩) (start ⟨4096, 1⟩ ⟨0, 0, 0, 0, 0, 0, 0⟩) oneRound =
      some ⟨⟨.ready false false, 2, 2, 1, 1⟩, .wait, ⟨4095, 1⟩, .done, 1,
        ⟨1, 5, 4, 4, 4, 0, 1⟩, 1, [2]⟩ := by decide
  refine ⟨_, hrun, rfl, rfl, rfl, rfl, rfl, fun a => by cases a <;> rfl, fun hcompletes => ?_⟩
  exact absurd ((hcompletes oneRound _ hrun).1.mpr rfl) (by decide)

end IpcBench.SignalBench
