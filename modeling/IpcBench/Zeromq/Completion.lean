import IpcBench.Common.RoundTrip
import IpcBench.Zeromq.Alternation

/-!
# Every run of `zeromq` completes

No step of either process can be repeated without effect, so the steps that are left can be
counted: seven for each round. A run can stop only when both loops are finished. Seen from
outside, the server is a loop that times each of its turns.
-/

namespace IpcBench.Zeromq

open Lib

/-- The steps of a client that are left, with `remaining` rounds to go. -/
def clientLeft (remaining : ℕ) : ClientPc → ℕ
  | .send => 2 * remaining
  | .recv => 2 * remaining - 1
  | .done | .thrown => 0

/-- The steps of a server that are left, with `remaining` rounds to go. -/
def serverLeft (remaining : ℕ) : ServerPc → ℕ
  | .stamp => 5 * remaining
  | .recv => 5 * remaining - 1
  | .fill => 5 * remaining - 2
  | .send => 5 * remaining - 3
  | .bench => 5 * remaining - 4
  | .done | .thrown => 0

/-- The steps that are left. -/
def left {κ : Type} (setup : Setup) (s : State κ) : ℕ :=
  clientLeft s.remaining s.client + serverLeft (setup.count - s.message) s.server

theorem clientLeft_head (remaining : ℕ) :
    clientLeft remaining (clientHead remaining) = 2 * remaining := by
  unfold clientHead
  by_cases hmore : remaining > 0
  · rw [if_pos hmore]
    rfl
  · rw [if_neg hmore, clientLeft]
    omega

theorem serverLeft_head (count message : ℕ) :
    serverLeft (count - message) (serverHead count message) = 5 * (count - message) := by
  unfold serverHead
  by_cases hmore : message < count
  · rw [if_pos hmore]
    rfl
  · rw [if_neg hmore, serverLeft]
    omega

/-- A server inside a round has rounds left. -/
theorem Inv.message_lt {setup : Setup} {s : State (ReqRep UInt8)} (h : Inv setup s)
    (hserver : s.server ≠ .done) : s.message < setup.count := by
  have hready_lt : ∀ {pc message k}, pc ≠ .done → Ready setup.count pc message k →
      message < setup.count := by
    intro pc message k hpc hready
    cases hready with
    | done => exact absurd rfl hpc
    | _ => omega
  cases h.phase with
  | clientTurn _ _ hready | toServer _ _ _ _ hready | toClient _ _ hready
  | finished _ _ hready => exact hready_lt hserver hready
  | serverTurn _ _ _ hmessage hk => omega

/-- A client inside a round has rounds left. -/
theorem Inv.remaining_pos {setup : Setup} {s : State (ReqRep UInt8)} (h : Inv setup s)
    (hclient : s.client ≠ .done) : 0 < s.remaining := by
  have hremaining := h.remaining_eq
  cases h.phase with
  | clientTurn _ _ _ hk | toServer _ _ _ _ _ hk | serverTurn _ _ _ _ hk | toClient _ _ _ hk => omega
  | finished hdone => exact absurd hdone hclient

/-- Every step is one of those that were left. -/
theorem left_step {setup : Setup} {s t : State (ReqRep UInt8)} {a : Action} (h : Inv setup s)
    (hstep : step ReqRep.calls setup s a = some t) : left setup t + 1 = left setup s := by
  have hinv := h.step hstep
  obtain ⟨hclientOk, hserverOk⟩ := hinv.not_thrown
  cases a with
  | clientSend =>
    simp only [step, Option.ite_none_right_eq_some, Option.some.injEq] at hstep
    obtain ⟨hclient, rfl⟩ := hstep
    have hpos := h.remaining_pos (by simp [hclient])
    dsimp only at hclientOk
    split at hclientOk
    · exact absurd rfl hclientOk
    · next hcode =>
      simp only [left, hcode, if_false, hclient, clientLeft]
      omega
  | clientRecv =>
    have hclient : s.client = .recv := by
      simp only [step, Option.ite_none_right_eq_some] at hstep
      exact hstep.1
    have hpos := h.remaining_pos (by simp [hclient])
    cases h.phase with
    | toClient _ hconnection =>
      rw [clientRecv_eq hclient hconnection h.clientBuffer_length, Option.some.injEq] at hstep
      subst hstep
      simp only [left, clientLeft_head]
      rw [hclient, clientLeft]
      omega
    | toServer _ _ hconnection | serverTurn _ hconnection =>
      simp [step, hclient, hconnection, ReqRep.calls, ReqRep.recvReply] at hstep
    | clientTurn hsend => simp [hclient] at hsend
    | finished hdone => simp [hclient] at hdone
  | serverStamp now =>
    simp only [step, Option.ite_none_right_eq_some, Option.some.injEq] at hstep
    obtain ⟨hserver, rfl⟩ := hstep
    have hlt := h.message_lt (by simp [hserver])
    simp only [left, hserver, serverLeft]
    omega
  | serverRecv =>
    simp only [step, Option.ite_none_right_eq_some, Option.map_eq_some_iff] at hstep
    obtain ⟨hserver, ⟨code, bytes, connection⟩, _, rfl⟩ := hstep
    have hlt := h.message_lt (by simp [hserver])
    simp only [serverReceived] at hserverOk ⊢
    split at hserverOk
    · exact absurd rfl hserverOk
    · next hcode =>
      simp only [left, hcode, if_false, hserver, serverLeft]
      omega
  | serverFill =>
    simp only [step, Option.ite_none_right_eq_some, Option.some.injEq] at hstep
    obtain ⟨hserver, rfl⟩ := hstep
    have hlt := h.message_lt (by simp [hserver])
    simp only [left, hserver, serverLeft]
    omega
  | serverSend =>
    simp only [step, Option.ite_none_right_eq_some, Option.some.injEq] at hstep
    obtain ⟨hserver, rfl⟩ := hstep
    have hlt := h.message_lt (by simp [hserver])
    dsimp only at hserverOk
    split at hserverOk
    · exact absurd rfl hserverOk
    · next hcode =>
      simp only [left, hcode, if_false, hserver, serverLeft]
      omega
  | serverBenchmark now =>
    simp only [step, Option.ite_none_right_eq_some, Option.some.injEq] at hstep
    obtain ⟨hserver, rfl⟩ := hstep
    have hlt := h.message_lt (by simp [hserver])
    simp only [left, serverLeft_head]
    rw [hserver, serverLeft]
    omega

/-- In a state in which no step is possible both loops are finished. -/
theorem done_of_stuck {setup : Setup} {s : State (ReqRep UInt8)} (h : Inv setup s)
    (hstuck : Stuck (step ReqRep.calls setup) s) : s.client = .done ∧ s.server = .done := by
  -- a server that is ready to receive cannot be before its reading or its sample
  have hserver_waits : s.server ≠ .stamp ∧ s.server ≠ .bench := by
    constructor
    · intro hserver
      have hstamp := hstuck (.serverStamp 0)
      simp [step, hserver] at hstamp
    · intro hserver
      have hbench := hstuck (.serverBenchmark 0)
      simp [step, hserver] at hbench
  cases h.phase with
  | clientTurn hclient hconnection =>
    have hsend := hstuck .clientSend
    rw [clientSend_eq hclient hconnection h.clientBuffer_length] at hsend
    cases hsend
  | toServer message hclient hconnection hlength hready hk =>
    cases hpc : s.server with
    | recv =>
      have hrecv := hstuck .serverRecv
      rw [serverRecv_eq hpc hconnection hlength] at hrecv
      cases hrecv
    | stamp => exact absurd hpc hserver_waits.1
    | bench => exact absurd hpc hserver_waits.2
    | done =>
      rw [hpc] at hready
      exact absurd hready.of_done.2 (Nat.ne_of_lt hk)
    | _ =>
      rw [hpc] at hready
      cases hready
  | serverTurn _ hconnection hserver =>
    rcases hserver with hserver | ⟨hserver, hbuffer⟩
    · have hfill := hstuck .serverFill
      rw [serverFill_eq hserver h.serverBuffer_length] at hfill
      cases hfill
    · have hsend := hstuck .serverSend
      rw [serverSend_eq hserver hconnection hbuffer] at hsend
      cases hsend
  | toClient hclient hconnection =>
    have hrecv := hstuck .clientRecv
    rw [clientRecv_eq hclient hconnection h.clientBuffer_length] at hrecv
    cases hrecv
  | finished hclient _ hready hk =>
    refine ⟨hclient, ?_⟩
    cases hpc : s.server with
    | done => rfl
    | stamp => exact absurd hpc hserver_waits.1
    | bench => exact absurd hpc hserver_waits.2
    | recv =>
      rw [hpc] at hready
      exact absurd hk (Nat.ne_of_lt hready.of_recv.2)
    | _ =>
      rw [hpc] at hready
      cases hready

/-- `zeromq`, for every count, every size and every interleaving of the two processes, over any
library that keeps what is promised for requesting and replying sockets: no call is made out of
turn and no length check fails; at most one message is on its way; the client receives only the
stars of the server; the finished rounds differ by at most one; with the steps that are left a
run has seven for each round; and where no step is possible both sides have finished all their
rounds. -/
theorem zeromq_completes {κ : Type} (calls : ReqRepCalls UInt8 κ) (known : κ → ReqRep UInt8)
    (connection : κ) (setup : Setup) (clientBuffer serverBuffer : List UInt8) (bench : Benchmarks)
    (actions : List Action) (s : State κ) (hcalls : calls.Documented known)
    (hconnected : known connection = .empty) (hclient : clientBuffer.length = setup.size)
    (hserver : serverBuffer.length = setup.size)
    (hrun : run (step calls setup) (start setup connection clientBuffer serverBuffer bench)
      actions = some s) :
    s.client ≠ .thrown ∧ s.server ≠ .thrown ∧
      ((known s.connection).request = none ∨ (known s.connection).reply = none) ∧
      (∀ message ∈ s.received, message = List.replicate setup.size '*'.toUInt8) ∧
      (s.received.length ≤ s.message + 1 ∧ s.message ≤ s.received.length + 1) ∧
      actions.length + left setup s = 7 * setup.count ∧
      (Stuck (step calls setup) s → s.client = .done ∧ s.server = .done ∧
        s.received.length = setup.count ∧ s.message = setup.count) := by
  have hstart : Inv setup ((start setup connection clientBuffer serverBuffer bench).through known)
      := by
    rw [through_start hconnected]
    exact inv_start setup bench hclient hserver
  have h := run_invariant (fun s => Inv setup (s.through known))
    (fun h hstep => h.step (step_known hcalls hstep)) hstart hrun
  have hlength := length_add_measure_eq (fun s => Inv setup (s.through known)) (left setup)
    (fun h hstep => ⟨h.step (step_known hcalls hstep), left_step h (step_known hcalls hstep)⟩)
    hstart hrun
  refine ⟨h.not_thrown.1, h.not_thrown.2, h.one_message, h.received_eq, h.rounds_apart, ?_, ?_⟩
  · have hall : left setup (start setup connection clientBuffer serverBuffer bench) =
        7 * setup.count := by
      simp only [left, start]
      rw [clientLeft_head, serverLeft_head]
      omega
    rw [hlength, hall]
  · intro hstuck
    have hstuck' : Stuck (step ReqRep.calls setup) (s.through known) := fun a => by
      rw [← step_through hcalls, hstuck a]
      rfl
    obtain ⟨hdone, hdone'⟩ := done_of_stuck h hstuck'
    exact ⟨hdone, hdone', h.done_counts.1 hdone, h.done_counts.2 hdone'⟩

/-- One round with messages of three bytes, complete after its seven steps. -/
theorem zeromq_completes_one_round :
    ∃ s, run (step ReqRep.calls ⟨1, 3⟩)
        (start ⟨1, 3⟩ .empty [1, 2, 3] [0, 0, 0] ⟨0, 0, 50, 0, 0, 0, 0⟩)
        [.clientSend, .serverStamp 700, .serverRecv, .serverFill, .serverSend, .clientRecv,
          .serverBenchmark 900] = some s ∧
      left ⟨1, 3⟩ s = 0 ∧ s.received = [[42, 42, 42]] := by
  refine ⟨_, rfl, ?_, rfl⟩
  have hleft := (zeromq_completes ReqRep.calls id .empty ⟨1, 3⟩ [1, 2, 3] [0, 0, 0]
    ⟨0, 0, 50, 0, 0, 0, 0⟩ [.clientSend, .serverStamp 700, .serverRecv, .serverFill, .serverSend,
      .clientRecv, .serverBenchmark 900] _ ReqRep.documented_calls rfl rfl rfl rfl).2.2.2.2.2.1
  exact Nat.add_left_cancel hleft

end IpcBench.Zeromq
