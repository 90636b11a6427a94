import IpcBench.Zeromq.Exchange

/-!
# The two sides of `zeromq` alternate

At any moment at most one message is on its way. It is a request as long as the client, or
the stars of the reply, so neither length check fails and no call is made out of turn. This is
shown for the promised calls; every library that keeps the promise behaves in the same way.
-/

namespace IpcBench.Zeromq

open Lib

/-- The message the server sends back. -/
def stars (setup : Setup) : List UInt8 := List.replicate setup.size '*'.toUInt8

/-- The server has finished `k` rounds, or only the sample of the last one is missing, and it
has not received the next request. -/
inductive Ready (count : ℕ) : ServerPc → ℕ → ℕ → Prop where
  | bench {message : ℕ} (hk : message + 1 ≤ count) : Ready count .bench message (message + 1)
  | stamp {k : ℕ} (hk : k < count) : Ready count .stamp k k
  | recv {k : ℕ} (hk : k < count) : Ready count .recv k k
  | done : Ready count .done count count

/-- A server that is ready and about to receive has finished all its earlier rounds. -/
theorem Ready.of_recv {count message k : ℕ} (h : Ready count .recv message k) :
    message = k ∧ k < count := by
  cases h with
  | recv hk => exact ⟨rfl, hk⟩

/-- A server that has left its loop has finished all its rounds. -/
theorem Ready.of_done {count message k : ℕ} (h : Ready count .done message k) :
    message = count ∧ k = count := by
  cases h with
  | done => exact ⟨rfl, rfl⟩

/-- Where the round stands after the `k` rounds the client has finished. -/
inductive Phase (setup : Setup) (s : State (ReqRep UInt8)) (k : ℕ) : Prop where
  | clientTurn (hclient : s.client = .send) (hconnection : s.connection = .empty)
      (hready : Ready setup.count s.server s.message k) (hk : k < setup.count)
  | toServer (message : List UInt8) (hclient : s.client = .recv)
      (hconnection : s.connection = ⟨some message, none, true, false⟩)
      (hlength : message.length = setup.size)
      (hready : Ready setup.count s.server s.message k) (hk : k < setup.count)
  | serverTurn (hclient : s.client = .recv) (hconnection : s.connection = ⟨none, none, true, true⟩)
      (hserver : s.server = .fill ∨ s.server = .send ∧ s.serverBuffer = stars setup)
      (hmessage : s.message = k) (hk : k < setup.count)
  | toClient (hclient : s.client = .recv)
      (hconnection : s.connection = ⟨none, some (stars setup), true, false⟩)
      (hready : Ready setup.count s.server s.message (k + 1)) (hk : k < setup.count)
  | finished (hclient : s.client = .done) (hconnection : s.connection = .empty)
      (hready : Ready setup.count s.server s.message k) (hk : k = setup.count)

/-- What holds between any two steps. -/
structure Inv (setup : Setup) (s : State (ReqRep UInt8)) : Prop where
  remaining_eq : s.remaining + s.received.length = setup.count
  clientBuffer_length : s.clientBuffer.length = setup.size
  serverBuffer_length : s.serverBuffer.length = setup.size
  received_eq : ∀ message ∈ s.received, message = stars setup
  phase : Phase setup s s.received.length

/-- At the head of its loop the server is ready for the next round. -/
theorem ready_serverHead {count k : ℕ} (hk : k ≤ count) : Ready count (serverHead count k) k k := by
  unfold serverHead
  by_cases hmore : k < count
  · rw [if_pos hmore]
    exact .stamp hmore
  · rw [if_neg hmore]
    obtain rfl : k = count := by omega
    exact .done

/-- At the head of its loop the client starts a round or is finished. -/
theorem phase_clientHead {setup : Setup} {k : ℕ} {s : State (ReqRep UInt8)}
    (hclient : s.client = clientHead s.remaining) (hremaining : s.remaining + k = setup.count)
    (hconnection : s.connection = .empty) (hready : Ready setup.count s.server s.message k) :
    Phase setup s k := by
  unfold clientHead at hclient
  by_cases hmore : s.remaining > 0
  · rw [if_pos hmore] at hclient
    exact .clientTurn hclient hconnection hready (by omega)
  · rw [if_neg hmore] at hclient
    exact .finished hclient hconnection hready (by omega)

/-- Nothing has been sent yet. -/
theorem inv_start (setup : Setup) {clientBuffer serverBuffer : List UInt8} (bench : Benchmarks)
    (hclient : clientBuffer.length = setup.size) (hserver : serverBuffer.length = setup.size) :
    Inv setup (start setup ReqRep.empty clientBuffer serverBuffer bench) :=
  ⟨rfl, hclient, hserver, by simp [start],
    phase_clientHead rfl rfl rfl (ready_serverHead (Nat.zero_le _))⟩

section Equations

variable {setup : Setup} {s : State (ReqRep UInt8)} {message : List UInt8}

/-- The client sends its request. -/
theorem clientSend_eq (hclient : s.client = .send) (hconnection : s.connection = .empty)
    (hlength : s.clientBuffer.length = setup.size) :
    step ReqRep.calls setup s .clientSend =
      some { s with connection := ⟨some s.clientBuffer, none, true, false⟩, client := .recv } := by
  have htake : s.clientBuffer.take setup.size = s.clientBuffer :=
    List.take_of_length_le (Nat.le_of_eq hlength)
  simp [step, hclient, hconnection, ReqRep.calls, ReqRep.sendRequest, ReqRep.empty, htake, hlength]

/-- The server receives the request. -/
theorem serverRecv_eq (hserver : s.server = .recv)
    (hconnection : s.connection = ⟨some message, none, true, false⟩)
    (hlength : message.length = setup.size) :
    step ReqRep.calls setup s .serverRecv =
      some { s with
        connection := ⟨none, none, true, true⟩
        serverBuffer := message ++ s.serverBuffer.drop setup.size
        server := .fill } := by
  have htake : message.take setup.size = message :=
    List.take_of_length_le (Nat.le_of_eq hlength)
  simp [step, hserver, hconnection, ReqRep.calls, ReqRep.recvRequest, serverReceived, htake,
    hlength]

/-- The server overwrites the message. -/
theorem serverFill_eq (hserver : s.server = .fill)
    (hlength : s.serverBuffer.length = setup.size) :
    step ReqRep.calls setup s .serverFill =
      some { s with server := .send, serverBuffer := stars setup } := by
  have hdrop : s.serverBuffer.drop setup.size = [] :=
    List.drop_of_length_le (Nat.le_of_eq hlength)
  rw [step, if_pos hserver, hdrop, List.append_nil, stars]

/-- The server sends its reply. -/
theorem serverSend_eq (hserver : s.server = .send)
    (hconnection : s.connection = ⟨none, none, true, true⟩)
    (hbuffer : s.serverBuffer = stars setup) :
    step ReqRep.calls setup s .serverSend =
      some { s with
        connection := ⟨none, some (stars setup), true, false⟩
        server := .bench } := by
  have htake : (stars setup).take setup.size = stars setup :=
    List.take_of_length_le (Nat.le_of_eq List.length_replicate)
  have hlength : (stars setup).length = setup.size := List.length_replicate
  simp [step, hserver, hconnection, hbuffer, ReqRep.calls, ReqRep.sendReply, htake, hlength]

/-- The client receives the reply. -/
theorem clientRecv_eq (hclient : s.client = .recv)
    (hconnection : s.connection = ⟨none, some (stars setup), true, false⟩)
    (hlength : s.clientBuffer.length = setup.size) :
    step ReqRep.calls setup s .clientRecv =
      some { s with
        connection := .empty
        clientBuffer := stars setup
        client := clientHead (s.remaining - 1)
        remaining := s.remaining - 1
        received := s.received ++ [stars setup] } := by
  have hstars : (stars setup).length = setup.size := List.length_replicate
  have htake : (stars setup).take setup.size = stars setup :=
    List.take_of_length_le (Nat.le_of_eq hstars)
  have hdrop : s.clientBuffer.drop setup.size = [] :=
    List.drop_of_length_le (Nat.le_of_eq hlength)
  simp [step, hclient, hconnection, ReqRep.calls, ReqRep.recvReply, ReqRep.empty, clientReceived,
    htake, hdrop, hstars]

end Equations

/-- A server outside its round moves on, and nothing else changes. -/
theorem Phase.of_ready {setup : Setup} {s t : State (ReqRep UInt8)} {k : ℕ} (h : Phase setup s k)
    (hclient : t.client = s.client) (hconnection : t.connection = s.connection)
    (hoff : s.server ≠ .fill ∧ s.server ≠ .send)
    (hready : ∀ j, Ready setup.count s.server s.message j →
      Ready setup.count t.server t.message j) : Phase setup t k := by
  cases h with
  | clientTurn hpc hempty hold hk =>
    exact .clientTurn (hclient.trans hpc) (hconnection.trans hempty) (hready k hold) hk
  | toServer message hpc hrequest hlength hold hk =>
    exact .toServer message (hclient.trans hpc) (hconnection.trans hrequest) hlength
      (hready k hold) hk
  | serverTurn _ _ hserver =>
    rcases hserver with hserver | ⟨hserver, _⟩
    · exact absurd hserver hoff.1
    · exact absurd hserver hoff.2
  | toClient hpc hreply hold hk =>
    exact .toClient (hclient.trans hpc) (hconnection.trans hreply) (hready (k + 1) hold) hk
  | finished hpc hempty hold hk =>
    exact .finished (hclient.trans hpc) (hconnection.trans hempty) (hready k hold) hk

namespace Inv

variable {setup : Setup} {s t : State (ReqRep UInt8)}

/-- The client sends. -/
theorem clientSend (h : Inv setup s) (hstep : step ReqRep.calls setup s .clientSend = some t) :
    Inv setup t := by
  have hclient : s.client = .send := by
    simp only [step, Option.ite_none_right_eq_some] at hstep
    exact hstep.1
  cases h.phase with
  | clientTurn _ hconnection hready hk =>
    rw [clientSend_eq hclient hconnection h.clientBuffer_length, Option.some.injEq] at hstep
    subst hstep
    exact { h with phase := .toServer _ rfl rfl h.clientBuffer_length hready hk }
  | _ => simp_all

/-- The client receives only the stars of the server. -/
theorem clientRecv (h : Inv setup s) (hstep : step ReqRep.calls setup s .clientRecv = some t) :
    Inv setup t := by
  have hclient : s.client = .recv := by
    simp only [step, Option.ite_none_right_eq_some] at hstep
    exact hstep.1
  cases h.phase with
  | toClient _ hconnection hready hk =>
    rw [clientRecv_eq hclient hconnection h.clientBuffer_length, Option.some.injEq] at hstep
    subst hstep
    have hremaining := h.remaining_eq
    have hcount : s.remaining - 1 + (s.received.length + 1) = setup.count := by omega
    refine ⟨?_, List.length_replicate, h.serverBuffer_length, ?_, ?_⟩
    · rw [List.length_append, List.length_singleton]
      exact hcount
    · intro message hmessage
      rcases List.mem_append.mp hmessage with hold | hnew
      · exact h.received_eq message hold
      · exact List.mem_singleton.mp hnew
    · rw [List.length_append, List.length_singleton]
      exact phase_clientHead rfl hcount rfl hready
  | toServer _ _ hconnection =>
    simp [step, hclient, hconnection, ReqRep.calls, ReqRep.recvReply] at hstep
  | serverTurn _ hconnection =>
    simp [step, hclient, hconnection, ReqRep.calls, ReqRep.recvReply] at hstep
  | _ => simp_all

/-- The server starts a round. -/
theorem serverStamp {now : UInt64} (h : Inv setup s)
    (hstep : step ReqRep.calls setup s (.serverStamp now) = some t) : Inv setup t := by
  simp only [step, Option.ite_none_right_eq_some, Option.some.injEq] at hstep
  obtain ⟨hserver, rfl⟩ := hstep
  refine { h with phase := h.phase.of_ready rfl rfl (by simp [hserver]) ?_ }
  intro j hready
  rw [hserver] at hready
  cases hready with
  | stamp hk => exact .recv hk

/-- The server receives a request. -/
theorem serverRecv (h : Inv setup s) (hstep : step ReqRep.calls setup s .serverRecv = some t) :
    Inv setup t := by
  have hserver : s.server = .recv := by
    simp only [step, Option.ite_none_right_eq_some] at hstep
    exact hstep.1
  cases h.phase with
  | toServer message hclient hconnection hlength hready hk =>
    rw [serverRecv_eq hserver hconnection hlength, Option.some.injEq] at hstep
    subst hstep
    rw [hserver] at hready
    have hdrop : s.serverBuffer.drop setup.size = [] :=
      List.drop_of_length_le (Nat.le_of_eq h.serverBuffer_length)
    refine { h with
      serverBuffer_length := ?_
      phase := .serverTurn hclient rfl (Or.inl rfl) hready.of_recv.1 hk }
    rw [hdrop, List.append_nil]
    exact hlength
  | clientTurn _ hconnection | finished _ hconnection =>
    simp [step, hserver, hconnection, ReqRep.calls, ReqRep.recvRequest, ReqRep.empty] at hstep
  | toClient _ hconnection =>
    simp [step, hserver, hconnection, ReqRep.calls, ReqRep.recvRequest] at hstep
  | serverTurn _ _ hbusy => simp [hserver] at hbusy

/-- The server overwrites the message. -/
theorem serverFill (h : Inv setup s) (hstep : step ReqRep.calls setup s .serverFill = some t) :
    Inv setup t := by
  have hserver : s.server = .fill := by
    simp only [step, Option.ite_none_right_eq_some] at hstep
    exact hstep.1
  rw [serverFill_eq hserver h.serverBuffer_length, Option.some.injEq] at hstep
  subst hstep
  refine { h with serverBuffer_length := List.length_replicate, phase := ?_ }
  cases h.phase with
  | serverTurn hclient hconnection _ hmessage hk =>
    exact .serverTurn hclient hconnection (Or.inr ⟨rfl, rfl⟩) hmessage hk
  | clientTurn _ _ hready | toServer _ _ _ _ hready | toClient _ _ hready
  | finished _ _ hready =>
    rw [hserver] at hready
    cases hready

/-- The server sends the stars. -/
theorem serverSend (h : Inv setup s) (hstep : step ReqRep.calls setup s .serverSend = some t) :
    Inv setup t := by
  have hserver : s.server = .send := by
    simp only [step, Option.ite_none_right_eq_some] at hstep
    exact hstep.1
  cases h.phase with
  | serverTurn hclient hconnection hbusy hmessage hk =>
    obtain ⟨_, hbuffer⟩ := hbusy.resolve_left (by simp [hserver])
    rw [serverSend_eq hserver hconnection hbuffer, Option.some.injEq] at hstep
    subst hstep
    refine { h with phase := .toClient hclient rfl ?_ hk }
    change Ready setup.count .bench s.message (s.received.length + 1)
    rw [hmessage]
    exact .bench hk
  | clientTurn _ _ hready | toServer _ _ _ _ hready | toClient _ _ hready
  | finished _ _ hready =>
    rw [hserver] at hready
    cases hready

/-- The server records its sample. -/
theorem serverBenchmark {now : UInt64} (h : Inv setup s)
    (hstep : step ReqRep.calls setup s (.serverBenchmark now) = some t) : Inv setup t := by
  simp only [step, Option.ite_none_right_eq_some, Option.some.injEq] at hstep
  obtain ⟨hserver, rfl⟩ := hstep
  refine { h with phase := h.phase.of_ready rfl rfl (by simp [hserver]) ?_ }
  intro j hready
  rw [hserver] at hready
  generalize s.message = m at hready ⊢
  cases hready with
  | bench hk => exact ready_serverHead hk

/-- Every step keeps the invariant. -/
theorem step {a : Action} (h : Inv setup s) (hstep : Zeromq.step ReqRep.calls setup s a = some t) :
    Inv setup t := by
  cases a with
  | clientSend => exact h.clientSend hstep
  | clientRecv => exact h.clientRecv hstep
  | serverStamp now => exact h.serverStamp hstep
  | serverRecv => exact h.serverRecv hstep
  | serverFill => exact h.serverFill hstep
  | serverSend => exact h.serverSend hstep
  | serverBenchmark now => exact h.serverBenchmark hstep

end Inv

namespace Inv

variable {setup : Setup} {s : State (ReqRep UInt8)}

/-- No call is made out of turn and no length check fails. -/
theorem not_thrown (h : Inv setup s) : s.client ≠ .thrown ∧ s.server ≠ .thrown := by
  cases h.phase with
  | serverTurn hclient _ hserver =>
    rcases hserver with hserver | ⟨hserver, _⟩ <;> simp [hclient, hserver]
  | clientTurn hclient _ hready | toServer _ hclient _ _ hready | toClient hclient _ hready
  | finished hclient _ hready =>
    refine ⟨by simp [hclient], fun hthrown => ?_⟩
    rw [hthrown] at hready
    cases hready

/-- At most one message is on its way. -/
theorem one_message (h : Inv setup s) :
    s.connection.request = none ∨ s.connection.reply = none := by
  cases h.phase with
  | clientTurn _ hconnection | finished _ hconnection =>
    rw [hconnection]
    exact Or.inl rfl
  | toServer _ _ hconnection =>
    rw [hconnection]
    exact Or.inr rfl
  | serverTurn _ hconnection | toClient _ hconnection =>
    rw [hconnection]
    exact Or.inl rfl

/-- The finished rounds of the two sides differ by at most one. -/
theorem rounds_apart (h : Inv setup s) :
    s.received.length ≤ s.message + 1 ∧ s.message ≤ s.received.length + 1 := by
  have hready_le : ∀ {pc message k}, Ready setup.count pc message k →
      message ≤ k ∧ k ≤ message + 1 := by
    intro pc message k hready
    cases hready <;> omega
  cases h.phase with
  | clientTurn _ _ hready | toServer _ _ _ _ hready | finished _ _ hready =>
    have hle := hready_le hready
    omega
  | toClient _ _ hready =>
    have hle := hready_le hready
    omega
  | serverTurn _ _ _ hmessage => omega

/-- When a side has left its loop it has finished all its rounds, and then the other one has
or needs nothing more from it. -/
theorem done_counts (h : Inv setup s) :
    (s.client = .done → s.received.length = setup.count) ∧
      (s.server = .done → s.message = setup.count) := by
  cases h.phase with
  | finished _ _ hready hk =>
    refine ⟨fun _ => hk, fun hserver => ?_⟩
    rw [hserver] at hready
    exact hready.of_done.1
  | clientTurn hclient _ hready | toServer _ hclient _ _ hready | toClient hclient _ hready =>
    refine ⟨fun hleft => by simp [hclient] at hleft, fun hserver => ?_⟩
    rw [hserver] at hready
    exact hready.of_done.1
  | serverTurn hclient _ hserver =>
    refine ⟨fun hleft => by simp [hclient] at hleft, fun hleft => ?_⟩
    simp [hleft] at hserver

end Inv

end IpcBench.Zeromq
