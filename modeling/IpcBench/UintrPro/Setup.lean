import IpcBench.Lib.Runs
import Mathlib.Data.Int.Basic

/-!
# The start-up of `uintr-pro`

Each process is a list of system calls that the other process or the kernel can
observe. A call ends with a return value; where the source tests it and exits, the
process ends. A descriptor is named by its number in the client, also after it has
travelled through the socket `process_b`.
-/

namespace IpcBench.UintrPro.Setup

open Lib

/-- The calls of the two start-ups. The last two are those of
`setup_handler_with_vector` in `uintrfd-bi`. -/
inductive Call where
  | socket
  | unlink
  | bind
  | recvmsg
  | registerSender
  | sendmsg
  | stui
  | registerHandler
  | createFd
  deriving DecidableEq, Repr

/-- `setup_client`: send the descriptor in `uintrfd_client`, then enable interrupts. -/
def setupClient : List Call := [.socket, .sendmsg, .stui]

/-- `setup_server`: receive the descriptor and register as its sender. -/
def setupServer : List Call := [.socket, .unlink, .bind, .recvmsg, .registerSender]

/-- `setup_handler_with_vector` of `uintrfd-bi`. -/
def setupHandlerWithVector : List Call := [.registerHandler, .createFd]

/-- A process with the calls it has still to make, or ended by `exit`. -/
inductive Process where
  | running (calls : List Call)
  | exited
  deriving DecidableEq, Repr

/-- The two processes and what their calls have done. `uintrfdClient` is the global
of the client; `uintrfds` are the descriptors it got from `uintr_create_fd`; `sender`
is what the server gave to `uintr_register_sender`; `sent` counts its `_senduipi`. -/
structure State where
  client : Process
  server : Process
  uintrfdClient : ℤ
  handlerRegistered : Bool
  uintrfds : List ℤ
  interruptsEnabled : Bool
  bound : Bool
  mailbox : List ℤ
  received : Option ℤ
  sender : Option ℤ
  uipiIndex : ℤ
  sent : ℕ
  deriving DecidableEq, Repr

/-- The next call of one of the processes, with its return value. -/
inductive Action where
  | client (ret : ℤ)
  | server (ret : ℤ)
  deriving DecidableEq, Repr

/-- Both processes before their first call; the globals are zero. -/
def start (clientCalls : List Call) : State :=
  ⟨.running clientCalls, .running setupServer, 0, false, [], false, false, [], none, none, 0, 0⟩

/-- A call of the client, made from the state in which it is no longer ahead. A
datagram is accepted only by a bound socket. -/
def clientCall (s : State) (ret : ℤ) : Call → Option State
  | .socket => some s
  | .sendmsg =>
      if ret = -1 then some { s with client := .exited }
      else if s.bound then some { s with mailbox := s.mailbox ++ [s.uintrfdClient] }
      else none
  | .stui => some { s with interruptsEnabled := true }
  | .registerHandler =>
      if ret ≠ 0 then some { s with client := .exited }
      else some { s with handlerRegistered := true }
  | .createFd =>
      if ret < 0 then some { s with client := .exited }
      else some { s with uintrfdClient := ret, uintrfds := s.uintrfds ++ [ret] }
  | .unlink | .bind | .recvmsg | .registerSender => none

/-- A call of the server. `recvmsg` blocks while no datagram has arrived, and the
result of `uintr_register_sender` is not tested. -/
def serverCall (s : State) (ret : ℤ) : Call → Option State
  | .socket | .unlink => some s
  | .bind =>
      if ret < 0 then some { s with server := .exited } else some { s with bound := true }
  | .recvmsg =>
      if ret < 0 then some { s with server := .exited }
      else
        match s.mailbox with
        | [] => none
        | fd :: mailbox => some { s with mailbox := mailbox, received := some fd }
  | .registerSender => some { s with sender := s.received, uipiIndex := ret }
  | .sendmsg | .stui | .registerHandler | .createFd => none

/-- One step of the start-up. A server that has finished it notifies: `_senduipi`. -/
def step (s : State) : Action → Option State
  | .client ret =>
      match s.client with
      | .running (call :: calls) => clientCall { s with client := .running calls } ret call
      | _ => none
  | .server ret =>
      match s.server with
      | .running (call :: calls) => serverCall { s with server := .running calls } ret call
      | .running [] => some { s with sent := s.sent + 1 }
      | .exited => none

/-- What the first `_senduipi` relies on: the client has registered `ui_handler`, it
has created a descriptor for user interrupts, and that descriptor is the one the
server has registered as a sender for. -/
def Deliverable (s : State) : Prop :=
  s.handlerRegistered = true ∧ s.uintrfds ≠ [] ∧ ∃ fd ∈ s.uintrfds, s.sender = some fd

/-- What the server has got from the client satisfies `good`, and it has registered
as a sender before it notifies. -/
structure Passed (good : ℤ → Prop) (s : State) : Prop where
  calls : ∀ calls, s.server = .running calls → calls <:+ setupServer
  mailbox : ∀ fd ∈ s.mailbox, good fd
  received : s.server = .running [.registerSender] → ∃ fd, good fd ∧ s.received = some fd
  registered : s.server = .running [] → ∃ fd, good fd ∧ s.sender = some fd
  sent : 1 ≤ s.sent → ∃ fd, good fd ∧ s.sender = some fd

theorem passed_start (good : ℤ → Prop) (clientCalls : List Call) :
    Passed good (start clientCalls) := by
  refine ⟨?_, by simp [start], by simp [start, setupServer], by simp [start, setupServer],
    by simp [start]⟩
  intro calls hcalls
  obtain rfl := Process.running.inj hcalls
  exact List.suffix_refl _

namespace Passed

variable {good : ℤ → Prop} {s t : State}

/-- A weaker property of the descriptors. -/
theorem mono {good' : ℤ → Prop} (h : Passed good s) (himp : ∀ fd, good fd → good' fd) :
    Passed good' s where
  calls := h.calls
  mailbox := fun fd hfd => himp fd (h.mailbox fd hfd)
  received := fun hserver => (h.received hserver).imp fun fd hfd => ⟨himp fd hfd.1, hfd.2⟩
  registered := fun hserver => (h.registered hserver).imp fun fd hfd => ⟨himp fd hfd.1, hfd.2⟩
  sent := fun hsent => (h.sent hsent).imp fun fd hfd => ⟨himp fd hfd.1, hfd.2⟩

/-- A call of the client changes nothing of this but the mailbox. -/
theorem of_client (h : Passed good s) (hserver : t.server = s.server)
    (hreceived : t.received = s.received) (hsender : t.sender = s.sender) (hsent : t.sent = s.sent)
    (hmailbox : ∀ fd ∈ t.mailbox, good fd) : Passed good t where
  calls := by rw [hserver]; exact h.calls
  mailbox := hmailbox
  received := by rw [hserver, hreceived]; exact h.received
  registered := by rw [hserver, hsender]; exact h.registered
  sent := by rw [hsent, hsender]; exact h.sent

/-- A server that has ended. -/
theorem exit (h : Passed good s) : Passed good { s with server := .exited } :=
  ⟨by simp, h.mailbox, by simp, by simp, h.sent⟩

/-- A call of the server before it has received anything. -/
theorem advance {calls : List Call} {bound : Bool} (h : Passed good s)
    (hcalls : calls <:+ setupServer) (hearly : 2 ≤ calls.length) :
    Passed good { s with server := .running calls, bound := bound } where
  calls := by
    intro calls' hcalls'
    obtain rfl := Process.running.inj hcalls'
    exact hcalls
  mailbox := h.mailbox
  received := by
    intro hlast
    obtain rfl := Process.running.inj hlast
    simp at hearly
  registered := by
    intro hnil
    obtain rfl := Process.running.inj hnil
    simp at hearly
  sent := h.sent

/-- The server takes the oldest descriptor out of the mailbox. -/
theorem receive {fd : ℤ} {mailbox : List ℤ} (h : Passed good s)
    (hmailbox : s.mailbox = fd :: mailbox) :
    Passed good { s with
      server := .running [.registerSender], mailbox := mailbox, received := some fd } := by
  have hgood : ∀ fd' ∈ fd :: mailbox, good fd' := by
    rw [← hmailbox]
    exact h.mailbox
  refine ⟨?_, fun fd' hmem => hgood fd' (List.mem_cons_of_mem fd hmem), ?_, by simp, h.sent⟩
  · intro calls hcalls
    obtain rfl := Process.running.inj hcalls
    decide
  · exact fun _ => ⟨fd, hgood fd List.mem_cons_self, rfl⟩

/-- The server registers as a sender for the descriptor it has received. -/
theorem register {ret : ℤ} (h : Passed good s) (hserver : s.server = .running [.registerSender]) :
    Passed good { s with server := .running [], sender := s.received, uipiIndex := ret } := by
  have hreceived := h.received hserver
  refine ⟨?_, h.mailbox, by simp, fun _ => hreceived, fun _ => hreceived⟩
  intro calls hcalls
  obtain rfl := Process.running.inj hcalls
  decide

/-- A call of the server. -/
theorem server {ret : ℤ} (h : Passed good s) (hstep : step s (.server ret) = some t) :
    Passed good t := by
  cases hserver : s.server with
  | exited => simp [step, hserver] at hstep
  | running calls =>
    have hcalls := h.calls calls hserver
    simp only [setupServer, List.suffix_cons_iff, List.suffix_nil] at hcalls
    rcases hcalls with rfl | rfl | rfl | rfl | rfl | rfl
    all_goals simp only [step, hserver, serverCall] at hstep
    · obtain rfl := Option.some.inj hstep
      exact h.advance (by decide) (by decide)
    · obtain rfl := Option.some.inj hstep
      exact h.advance (by decide) (by decide)
    · split_ifs at hstep
      · obtain rfl := Option.some.inj hstep
        exact h.exit
      · obtain rfl := Option.some.inj hstep
        exact h.advance (by decide) (by decide)
    · split_ifs at hstep
      · obtain rfl := Option.some.inj hstep
        exact h.exit
      · split at hstep
        · simp at hstep
        · next fd mailbox hmailbox =>
          obtain rfl := Option.some.inj hstep
          exact h.receive hmailbox
    · obtain rfl := Option.some.inj hstep
      exact h.register hserver
    · have hregistered := h.registered hserver
      rw [← hserver] at hstep
      obtain rfl := Option.some.inj hstep
      exact ⟨h.calls, h.mailbox, h.received, h.registered, fun _ => hregistered⟩

end Passed

/-- A call of the server leaves the client and what it has set up alone. -/
theorem server_frame {s t : State} {ret : ℤ} (hstep : step s (.server ret) = some t) :
    t.client = s.client ∧ t.handlerRegistered = s.handlerRegistered ∧
      t.uintrfds = s.uintrfds ∧ t.uintrfdClient = s.uintrfdClient := by
  simp only [step] at hstep
  split at hstep
  · next call calls hserver =>
    cases call with
    | socket | unlink | registerSender =>
      obtain rfl := Option.some.inj hstep
      exact ⟨rfl, rfl, rfl, rfl⟩
    | bind =>
      simp only [serverCall] at hstep
      split_ifs at hstep <;> obtain rfl := Option.some.inj hstep <;> exact ⟨rfl, rfl, rfl, rfl⟩
    | recvmsg =>
      simp only [serverCall] at hstep
      split_ifs at hstep
      · obtain rfl := Option.some.inj hstep
        exact ⟨rfl, rfl, rfl, rfl⟩
      · split at hstep
        · simp at hstep
        · obtain rfl := Option.some.inj hstep
          exact ⟨rfl, rfl, rfl, rfl⟩
    | sendmsg | stui | registerHandler | createFd => simp [serverCall] at hstep
  · obtain rfl := Option.some.inj hstep
    exact ⟨rfl, rfl, rfl, rfl⟩
  · simp at hstep

/-- The client without the set-up of its sibling: it has registered nothing, created
nothing, and what it passes on is the zero its global started with. -/
structure Unprepared (s : State) : Prop where
  calls : ∀ calls, s.client = .running calls → calls <:+ setupClient
  not_registered : s.handlerRegistered = false
  no_uintrfd : s.uintrfds = []
  global_zero : s.uintrfdClient = 0
  passed : Passed (· = 0) s

theorem unprepared_start : Unprepared (start setupClient) where
  calls := by
    intro calls hcalls
    obtain rfl := Process.running.inj hcalls
    exact List.suffix_refl _
  not_registered := rfl
  no_uintrfd := rfl
  global_zero := rfl
  passed := passed_start _ _

/-- A call of the client that passes at most its global on. -/
theorem Unprepared.advance {s : State} {call : Call} {calls : List Call} {mailbox : List ℤ}
    {enabled : Bool} (h : Unprepared s) (hclient : s.client = .running (call :: calls))
    (hmailbox : ∀ fd ∈ mailbox, fd = 0) :
    Unprepared { s with
      client := .running calls, mailbox := mailbox, interruptsEnabled := enabled } := by
  refine ⟨?_, h.not_registered, h.no_uintrfd, h.global_zero,
    h.passed.of_client rfl rfl rfl rfl hmailbox⟩
  intro calls' hcalls'
  obtain rfl := Process.running.inj hcalls'
  exact (List.suffix_cons call calls).trans (h.calls _ hclient)

/-- No call of the client prepares it. -/
theorem Unprepared.client {s t : State} {ret : ℤ} (h : Unprepared s)
    (hstep : step s (.client ret) = some t) : Unprepared t := by
  cases hclient : s.client with
  | exited => simp [step, hclient] at hstep
  | running calls =>
    have hcalls := h.calls calls hclient
    simp only [setupClient, List.suffix_cons_iff, List.suffix_nil] at hcalls
    rcases hcalls with rfl | rfl | rfl | rfl
    · simp only [step, hclient, clientCall, Option.some.injEq] at hstep
      subst hstep
      exact h.advance hclient h.passed.mailbox
    · simp only [step, hclient, clientCall] at hstep
      split_ifs at hstep
      · obtain rfl := Option.some.inj hstep
        exact ⟨by simp, h.not_registered, h.no_uintrfd, h.global_zero,
          h.passed.of_client rfl rfl rfl rfl h.passed.mailbox⟩
      · obtain rfl := Option.some.inj hstep
        refine h.advance hclient ?_
        intro fd hfd
        rcases List.mem_append.mp hfd with hold | hnew
        · exact h.passed.mailbox fd hold
        · exact (List.mem_singleton.mp hnew).trans h.global_zero
    · simp only [step, hclient, clientCall, Option.some.injEq] at hstep
      subst hstep
      exact h.advance hclient h.passed.mailbox
    · simp [step, hclient] at hstep

/-- No call of either process prepares the client. -/
theorem Unprepared.step {s t : State} {a : Action} (h : Unprepared s)
    (hstep : Setup.step s a = some t) : Unprepared t := by
  cases a with
  | client ret => exact h.client hstep
  | server ret =>
    obtain ⟨hclient, hregistered, huintrfds, hglobal⟩ := server_frame hstep
    refine ⟨?_, hregistered.trans h.not_registered, huintrfds.trans h.no_uintrfd,
      hglobal.trans h.global_zero, h.passed.server hstep⟩
    rw [hclient]
    exact h.calls

/-- When the server of `uintr-pro` has sent an interrupt, in whatever run, nothing it
relies on has been done: the client has registered no handler and created no
descriptor, and the server is registered as a sender for descriptor 0. -/
theorem never_deliverable (actions : List Action) (s : State)
    (hrun : run step (start setupClient) actions = some s) (hsent : 1 ≤ s.sent) :
    s.handlerRegistered = false ∧ s.uintrfds = [] ∧ s.sender = some 0 ∧ ¬ Deliverable s := by
  have h := run_invariant Unprepared Unprepared.step unprepared_start hrun
  obtain ⟨fd, rfl, hsender⟩ := h.passed.sent hsent
  refine ⟨h.not_registered, h.no_uintrfd, hsender, ?_⟩
  rintro ⟨_, hcreated, _⟩
  exact hcreated h.no_uintrfd

/-- A start-up in which every call succeeds, except that descriptor 0 is not one that
a sender can be registered for. -/
def plainStartUp : List Action :=
  [.server 3, .server 0, .server 0, .client 3, .client 0, .client 0, .server 0, .server (-1),
    .server 0]

/-- The plain start-up reaches `_senduipi`. -/
theorem never_deliverable_plain :
    ∃ s, run step (start setupClient) plainStartUp = some s ∧ 1 ≤ s.sent ∧
      s.handlerRegistered = false ∧ s.uintrfds = [] ∧ s.sender = some 0 := by
  have hrun : run step (start setupClient) plainStartUp =
      some ⟨.running [], .running [], 0, false, [], true, true, [], some 0, some 0, -1, 1⟩ := by
    decide
  have hnever := never_deliverable plainStartUp _ hrun (by decide)
  exact ⟨_, hrun, by decide, hnever.1, hnever.2.1, hnever.2.2.1⟩

/-- The first interrupt of the plain start-up cannot be delivered. -/
theorem first_senduipi_undeliverable :
    ∃ s, run step (start setupClient) plainStartUp = some s ∧ s.sent = 1 ∧ ¬ Deliverable s := by
  have hrun : run step (start setupClient) plainStartUp =
      some ⟨.running [], .running [], 0, false, [], true, true, [], some 0, some 0, -1, 1⟩ := by
    decide
  refine ⟨_, hrun, rfl, ?_⟩
  rintro ⟨hregistered, _⟩
  simp at hregistered

/-- The client with the set-up of its sibling in front: a descriptor exists only
after the handler is registered, and only such descriptors are passed on. -/
structure Prepared (s : State) : Prop where
  calls : ∀ calls, s.client = .running calls → calls <:+ setupHandlerWithVector ++ setupClient
  registered : ∀ calls, s.client = .running calls → calls.length ≤ 4 → s.handlerRegistered = true
  global_mem : ∀ calls, s.client = .running calls → calls.length ≤ 3 → s.uintrfdClient ∈ s.uintrfds
  handler_first : s.uintrfds ≠ [] → s.handlerRegistered = true
  passed : Passed (· ∈ s.uintrfds) s

theorem prepared_start : Prepared (start (setupHandlerWithVector ++ setupClient)) where
  calls := by
    intro calls hcalls
    obtain rfl := Process.running.inj hcalls
    exact List.suffix_refl _
  registered := by
    intro calls hcalls
    obtain rfl := Process.running.inj hcalls
    decide
  global_mem := by
    intro calls hcalls
    obtain rfl := Process.running.inj hcalls
    decide
  handler_first := by simp [start]
  passed := passed_start _ _

namespace Prepared

variable {s t : State}

/-- A client that has ended. -/
theorem exit (h : Prepared s) : Prepared { s with client := .exited } :=
  ⟨by simp, by simp, by simp, h.handler_first,
    h.passed.of_client rfl rfl rfl rfl h.passed.mailbox⟩

/-- A call of the client after its set-up, which passes at most its global on. -/
theorem advance {call : Call} {calls : List Call} {mailbox : List ℤ} {enabled : Bool}
    (h : Prepared s) (hclient : s.client = .running (call :: calls)) (hlate : calls.length ≤ 2)
    (hmailbox : ∀ fd ∈ mailbox, fd ∈ s.uintrfds) :
    Prepared { s with
      client := .running calls, mailbox := mailbox, interruptsEnabled := enabled } := by
  have hlength : (call :: calls).length ≤ 3 := Nat.succ_le_succ hlate
  refine ⟨?_, fun _ _ _ => h.registered _ hclient (by omega),
    fun _ _ _ => h.global_mem _ hclient hlength, h.handler_first,
    h.passed.of_client rfl rfl rfl rfl hmailbox⟩
  intro calls' hcalls'
  obtain rfl := Process.running.inj hcalls'
  exact (List.suffix_cons call calls).trans (h.calls _ hclient)

/-- The client registers its handler. -/
theorem registerHandler {calls : List Call} (h : Prepared s)
    (hclient : s.client = .running (.registerHandler :: calls)) (hlength : calls.length = 4) :
    Prepared { s with client := .running calls, handlerRegistered := true } := by
  refine ⟨?_, fun _ _ _ => rfl, ?_, fun _ => rfl,
    h.passed.of_client rfl rfl rfl rfl h.passed.mailbox⟩
  · intro calls' hcalls'
    obtain rfl := Process.running.inj hcalls'
    exact (List.suffix_cons _ calls).trans (h.calls _ hclient)
  · intro calls' hcalls' hlate
    obtain rfl := Process.running.inj hcalls'
    omega

/-- The client creates its descriptor. -/
theorem createFd {calls : List Call} {fd : ℤ} (h : Prepared s)
    (hclient : s.client = .running (.createFd :: calls)) (hlength : calls.length = 3) :
    Prepared { s with
      client := .running calls, uintrfdClient := fd, uintrfds := s.uintrfds ++ [fd] } := by
  have hregistered : s.handlerRegistered = true := h.registered _ hclient (by simp [hlength])
  have hmore := h.passed.mono fun fd' hfd' => List.mem_append_left [fd] hfd'
  refine ⟨?_, fun _ _ _ => hregistered, fun _ _ _ => by simp, fun _ => hregistered,
    hmore.of_client rfl rfl rfl rfl hmore.mailbox⟩
  intro calls' hcalls'
  obtain rfl := Process.running.inj hcalls'
  exact (List.suffix_cons _ calls).trans (h.calls _ hclient)

/-- A call of the prepared client. -/
theorem client {ret : ℤ} (h : Prepared s) (hstep : step s (.client ret) = some t) :
    Prepared t := by
  cases hclient : s.client with
  | exited => simp [step, hclient] at hstep
  | running calls =>
    have hcalls := h.calls calls hclient
    simp only [setupHandlerWithVector, setupClient, List.cons_append, List.nil_append,
      List.suffix_cons_iff, List.suffix_nil] at hcalls
    rcases hcalls with rfl | rfl | rfl | rfl | rfl | rfl
    all_goals simp only [step, hclient, clientCall] at hstep
    · split_ifs at hstep
      · obtain rfl := Option.some.inj hstep
        exact h.exit
      · obtain rfl := Option.some.inj hstep
        exact h.registerHandler hclient rfl
    · split_ifs at hstep
      · obtain rfl := Option.some.inj hstep
        exact h.exit
      · obtain rfl := Option.some.inj hstep
        exact h.createFd hclient rfl
    · obtain rfl := Option.some.inj hstep
      exact h.advance hclient (by decide) h.passed.mailbox
    · split_ifs at hstep
      · obtain rfl := Option.some.inj hstep
        exact h.exit
      · obtain rfl := Option.some.inj hstep
        refine h.advance hclient (by decide) ?_
        intro fd hfd
        rcases List.mem_append.mp hfd with hold | hnew
        · exact h.passed.mailbox fd hold
        · rw [List.mem_singleton.mp hnew]
          exact h.global_mem _ hclient (by decide)
    · obtain rfl := Option.some.inj hstep
      exact h.advance hclient (by decide) h.passed.mailbox
    · simp at hstep

/-- Every call of either process. -/
theorem step {a : Action} (h : Prepared s) (hstep : Setup.step s a = some t) : Prepared t := by
  cases a with
  | client ret => exact h.client hstep
  | server ret =>
    obtain ⟨hclient, hregistered, huintrfds, hglobal⟩ := server_frame hstep
    refine ⟨?_, ?_, ?_, ?_, ?_⟩
    · rw [hclient]
      exact h.calls
    · rw [hclient, hregistered]
      exact h.registered
    · rw [hclient, hglobal, huintrfds]
      exact h.global_mem
    · rw [huintrfds, hregistered]
      exact h.handler_first
    · rw [huintrfds]
      exact h.passed.server hstep

end Prepared

/-- With `setup_handler_with_vector` of the sibling in front of `setup_client`, every
interrupt that is sent can be delivered. -/
theorem deliverable_of_handler_set_up {actions : List Action} {s : State}
    (hrun : run step (start (setupHandlerWithVector ++ setupClient)) actions = some s)
    (hsent : 1 ≤ s.sent) : Deliverable s := by
  have h := run_invariant Prepared Prepared.step prepared_start hrun
  obtain ⟨fd, hmem, hsender⟩ := h.passed.sent hsent
  have hcreated := List.ne_nil_of_mem hmem
  exact ⟨h.handler_first hcreated, hcreated, fd, hmem, hsender⟩

end IpcBench.UintrPro.Setup
