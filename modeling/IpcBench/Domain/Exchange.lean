import IpcBench.Tcp.Exchange

/-!
# The loops of `domain`

The client of `domain` is the client of `tcp`, and its server differs in the test behind
`send`: it throws when the eight bytes of the timestamp are fewer than the size of a message.
A server that throws ends, and its socket is closed some time later. The client then still
finds what has arrived; after that its `recv` fails with `ECONNRESET` if the server has left
a request unread, and reports the end of the stream if not. A `send` of the client into the
closed connection ends it by a signal.
-/

namespace IpcBench.Domain

open Lib

/-- The error number `ECONNRESET`. -/
def econnreset : ℤ := 104

/-- The two processes with their streams, and whether the server has ended. A client that a
signal has ended counts as `thrown`. -/
structure State where
  link : Tcp.State
  closed : Bool
  deriving DecidableEq, Repr

/-- The steps of the two processes and of the connection, and the end of the server. -/
inductive Action where
  | link (a : Tcp.Action)
  | serverExit
  deriving DecidableEq, Repr

/-- Both processes before their loops, connected to each other. -/
def start (clientErrno serverErrno : ℤ) (buffer : List UInt8) (bench : Benchmarks) : State :=
  ⟨Tcp.start clientErrno serverErrno buffer bench, false⟩

/-- What one `recv` of the client yields; `none` while it blocks. -/
def clientRecvYields (setup : Tcp.Setup) (s : State) (again : Bool) :
    Option (RecvResult × ByteStream UInt8) :=
  if s.closed = true ∧ s.link.replies.content = [] then
    some (if s.link.requests.content = [] then .data [] else .error econnreset, s.link.replies)
  else Tcp.recvYields setup.clientBusy s.link.replies 8 again

/-- One step. What is not listed is as in `tcp`. -/
def step (setup : Tcp.Setup) (s : State) : Action → Option State
  | .link .clientSend =>
      if s.link.client = .send ∧ s.closed = true then
        some { s with link := { s.link with client := .thrown } }
      else (Tcp.step setup s.link .clientSend).map fun link => { s with link := link }
  | .link (.clientRecv again) =>
      match s.link.client with
      | .receive results =>
          (clientRecvYields setup s again).map fun yielded =>
            { s with
              link := Tcp.clientReceive setup { s.link with replies := yielded.2 }
                (results ++ [yielded.1]) }
      | _ => none
  | .link .serverSend =>
      match s.link.server with
      | .send timestamp =>
          let (sent, replies) := Tcp.send s.link.replies (wordBytes timestamp)
          some { s with
            link := { s.link with
              replies := replies
              server := if sent < setup.size then .thrown else .receive [] } }
      | _ => none
  | .link a => (Tcp.step setup s.link a).map fun link => { s with link := link }
  | .serverExit =>
      if s.link.server = .thrown ∧ s.closed = false then some { s with closed := true } else none

/-- What a step does: the server ends; a request into the closed connection ends the client;
the client asks the closed connection for an answer; the server sends a timestamp; or
something happens as in `tcp`. -/
theorem step_cases {setup : Tcp.Setup} {s t : State} {a : Action}
    (hstep : step setup s a = some t) :
    (a = .serverExit ∧ s.link.server = .thrown ∧ t = { s with closed := true }) ∨
    (a = .link .clientSend ∧ s.closed = true ∧
      t = { s with link := { s.link with client := .thrown } }) ∨
    (∃ again results, a = .link (.clientRecv again) ∧ s.link.client = .receive results ∧
      s.closed = true ∧ s.link.replies.content = [] ∧
      t = { s with link := Tcp.clientReceive setup s.link (results ++
        [if s.link.requests.content = [] then .data [] else .error econnreset]) }) ∨
    (∃ timestamp, a = .link .serverSend ∧ s.link.server = .send timestamp ∧
      t = { s with
        link := { s.link with
          replies := s.link.replies.send (wordBytes timestamp)
          server := if 8 < setup.size then .thrown else .receive [] } }) ∨
    ∃ b link, a = .link b ∧ b ≠ .serverSend ∧ Tcp.step setup s.link b = some link ∧
      t = { s with link := link } := by
  cases a with
  | serverExit =>
    simp only [step, Option.ite_none_right_eq_some, Option.some.injEq] at hstep
    obtain ⟨⟨hserver, _⟩, rfl⟩ := hstep
    exact Or.inl ⟨rfl, hserver, rfl⟩
  | link a =>
    right
    cases a with
    | clientSend =>
      by_cases hgone : s.link.client = .send ∧ s.closed = true
      · simp only [step, if_pos hgone, Option.some.injEq] at hstep
        exact Or.inl ⟨rfl, hgone.2, hstep.symm⟩
      · simp only [step, if_neg hgone, Option.map_eq_some_iff] at hstep
        obtain ⟨link, htcp, rfl⟩ := hstep
        exact Or.inr (Or.inr (Or.inr ⟨_, link, rfl, by simp, htcp, rfl⟩))
    | clientRecv again =>
      right
      cases hclient : s.link.client with
      | receive results =>
        simp only [step, hclient, Option.map_eq_some_iff] at hstep
        obtain ⟨yielded, hyields, rfl⟩ := hstep
        by_cases hgone : s.closed = true ∧ s.link.replies.content = []
        · rw [clientRecvYields, if_pos hgone, Option.some.injEq] at hyields
          subst hyields
          exact Or.inl ⟨again, results, rfl, rfl, hgone.1, hgone.2, rfl⟩
        · rw [clientRecvYields, if_neg hgone] at hyields
          refine Or.inr (Or.inr ⟨_, _, rfl, by simp, ?_, rfl⟩)
          simp only [Tcp.step, hclient, hyields, Option.map_some]
      | _ => simp [step, hclient] at hstep
    | serverSend =>
      cases hserver : s.link.server with
      | send timestamp =>
        have hfew : (8 : ℤ) < setup.size ↔ 8 < setup.size := by omega
        simp only [step, hserver, Tcp.send, length_wordBytes, Option.some.injEq] at hstep
        refine Or.inr (Or.inr (Or.inl ⟨timestamp, rfl, rfl, ?_⟩))
        simpa [hfew] using hstep.symm
      | _ => simp [step, hserver] at hstep
    | _ =>
      simp only [step, Option.map_eq_some_iff] at hstep
      obtain ⟨link, htcp, rfl⟩ := hstep
      exact Or.inr (Or.inr (Or.inr ⟨_, link, rfl, by simp, htcp, rfl⟩))

end IpcBench.Domain
