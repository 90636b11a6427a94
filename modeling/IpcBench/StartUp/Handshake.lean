import IpcBench.Lib.Runs
import IpcBench.Common.Signals

/-!
# The start-up handshake of `domain` and `mq`

The parent starts server and client by `fork` and `execv`. The server creates its socket
or queue and then tells the client once, by `kill(0, SIGUSR2)`; the client sets up its
signals and waits for it. What the signal does to the client depends on how far the
client has come: before `execv` it is lost, since the handler of the parent swallows it, if
the client is in the group at all; after `execv` the default action terminates the client,
and only after `sigprocmask` does it stay pending. The calls of `usleep` order nothing.
-/

namespace IpcBench.StartUp

open Lib

/-- The two benchmarks with this start-up. -/
inductive Benchmark where
  | domain
  | mq
  deriving DecidableEq, Repr

/-- The calls with which a server creates what the client will open. -/
inductive CreateCall where
  | socket
  | remove
  | bind
  | listen
  | msgget
  deriving DecidableEq, Repr

/-- `create_socket` and `create_mq` up to `server_once`. -/
def Benchmark.createCalls : Benchmark → List CreateCall
  | .domain => [.socket, .remove, .bind, .listen]
  | .mq => [.msgget]

/-- The signals of the parent behind `setup_parent_signals`, which its children inherit. -/
def parentSignals : SignalState := setupParentSignals.foldl SignalCall.perform .fresh

/-- Which child `start_children` starts next. -/
inductive ParentPc where
  | startServer
  | startClient
  | done
  deriving DecidableEq, Repr

/-- Where the server stands: `start_process`, then the creation, then
`server_once(NOTIFY)`. -/
inductive ServerPc where
  | unborn
  | forked
  | joined
  | create (calls : List CreateCall)
  | setup (calls : List SignalCall)
  | notify
  | past
  | terminated
  deriving DecidableEq, Repr

/-- Where the client stands: `start_process`, then `client_once(WAIT)`. -/
inductive ClientPc where
  | unborn
  | forked
  | joined
  | setup (calls : List SignalCall)
  | wait
  | past
  | terminated
  deriving DecidableEq, Repr

/-- The parent, the two children, and the signals of those that are in the group. -/
structure State where
  parent : ParentPc
  group : Group
  server : ServerPc
  client : ClientPc
  deriving DecidableEq, Repr

/-- The calls of the parent and its children. -/
inductive Action where
  | forkServer
  | forkClient
  | serverSetpgid
  | serverExecv
  | serverCreate
  | serverSetup
  | serverNotify
  | clientSetpgid
  | clientExecv
  | clientSetup
  | clientWait
  deriving DecidableEq, Repr

/-- The parent in front of `start_children`. -/
def start : State := ⟨.startServer, ⟨none, none⟩, .unborn, .unborn⟩

/-- The server with some of its creation left. -/
def creating : List CreateCall → ServerPc
  | [] => .setup setupServerSignals
  | calls => .create calls

/-- The server with some of its set-up left. -/
def serverSettingUp : List SignalCall → ServerPc
  | [] => .notify
  | calls => .setup calls

/-- The client with some of its set-up left. -/
def clientSettingUp : List SignalCall → ClientPc
  | [] => .wait
  | calls => .setup calls

/-- One step of the parent or of one of its children. -/
def step (b : Benchmark) (s : State) : Action → Option State
  | .forkServer =>
      if s.parent = .startServer then some { s with parent := .startClient, server := .forked }
      else none
  | .forkClient =>
      if s.parent = .startClient then some { s with parent := .done, client := .forked }
      else none
  | .serverSetpgid =>
      if s.server = .forked then
        some { s with group := { s.group with server := some parentSignals }, server := .joined }
      else none
  | .serverExecv =>
      if s.server = .joined then
        some { s with
          group := { s.group with server := s.group.server.map SignalState.execv }
          server := creating b.createCalls }
      else none
  | .serverCreate =>
      match s.server with
      | .create (_ :: calls) => some { s with server := creating calls }
      | _ => none
  | .serverSetup =>
      match s.server with
      | .setup (call :: calls) =>
          some { s with
            group := { s.group with server := s.group.server.map fun p => call.perform p }
            server := serverSettingUp calls }
      | _ => none
  | .serverNotify =>
      if s.server = .notify then
        let group := s.group.notifyClient
        some { s with
          group := group
          server := if group.server.isNone then .terminated else .past
          client := if s.group.client.isSome ∧ group.client.isNone then .terminated
            else s.client }
      else none
  | .clientSetpgid =>
      if s.client = .forked then
        some { s with group := { s.group with client := some parentSignals }, client := .joined }
      else none
  | .clientExecv =>
      if s.client = .joined then
        some { s with
          group := { s.group with client := s.group.client.map SignalState.execv }
          client := clientSettingUp setupClientSignals }
      else none
  | .clientSetup =>
      match s.client with
      | .setup (call :: calls) =>
          some { s with
            group := { s.group with client := s.group.client.map fun p => call.perform p }
            client := clientSettingUp calls }
      | _ => none
  | .clientWait =>
      if s.client = .wait then
        s.group.clientWait.map fun group => { s with group := group, client := .past }
      else none

/-- The client waits for the notification, or still has to come to that. -/
def ClientPc.awaits : ClientPc → Prop
  | .unborn | .forked | .joined | .setup _ | .wait => True
  | .past | .terminated => False

/-- A `SIGUSR2` is pending at the client. -/
def State.pending (s : State) : Prop := ∃ p, s.group.client = some p ∧ p.usr2.pending = true

/-- The client has not been terminated, and it does not wait for a notification that has
been given and is gone. -/
structure Safe (s : State) : Prop where
  alive : s.client ≠ .terminated
  noticed : s.server = .past → s.client.awaits → s.pending

/-- The server notifies only when the client has `SIGUSR2` in its mask. -/
def NotifiesBlocked (s : State) (a : Action) : Prop :=
  a = .serverNotify → ∃ p, s.group.client = some p ∧ p.usr2.blocked = true

instance (s : State) (a : Action) : Decidable (NotifiesBlocked s a) :=
  decidable_of_iff (a = .serverNotify → (s.group.client.any fun p => p.usr2.blocked) = true)
    (by simp [NotifiesBlocked, Option.any_eq_true])

/-- The signals of the server at each point before its notification. -/
inductive ServerQuiet : ServerPc → Option SignalState → Prop where
  | unborn : ServerQuiet .unborn none
  | forked : ServerQuiet .forked none
  | joined : ServerQuiet .joined (some parentSignals)
  | create (calls : List CreateCall) : ServerQuiet (.create calls) (some .fresh)
  | setup : ServerQuiet (.setup [.sigaction .usr2, .sigprocmask [.usr1]]) (some .fresh)
  | handled : ServerQuiet (.setup [.sigprocmask [.usr1]]) (some ⟨.fresh, .caught⟩)
  | notify : ServerQuiet .notify (some (serverReady false))

/-- The signals of the client at each point, as long as it has not been notified. -/
inductive ClientQuiet : ClientPc → Option SignalState → Prop where
  | unborn : ClientQuiet .unborn none
  | forked : ClientQuiet .forked none
  | joined : ClientQuiet .joined (some parentSignals)
  | setup : ClientQuiet (.setup [.sigaction .usr1, .sigprocmask [.usr2]]) (some .fresh)
  | handled : ClientQuiet (.setup [.sigprocmask [.usr2]]) (some ⟨.caught, .fresh⟩)
  | wait : ClientQuiet .wait (some (clientReady false))

/-- How far the handshake has come: no notification yet, the notification pending at the
waiting client, or the notification taken. -/
inductive Phase (s : State) : Prop where
  | quiet (hserver : ServerQuiet s.server s.group.server)
      (hclient : ClientQuiet s.client s.group.client)
  | pending (hserver : s.server = .past) (hclient : s.client = .wait)
      (hgroup : s.group = .ready false true)
  | taken (hserver : s.server = .past) (hclient : s.client = .past)

/-- What holds as long as the server notifies a client that blocks the signal. -/
structure Inv (s : State) : Prop where
  server_unborn : s.parent = .startServer → s.server = .unborn
  client_unborn : s.parent ≠ .done → s.client = .unborn
  phase : Phase s

/-- The invariant holds in front of `start_children`. -/
theorem inv_start : Inv start :=
  ⟨fun _ => rfl, fun _ => rfl, .quiet .unborn .unborn⟩

/-- `execv` makes the children of the parent fresh programs. -/
theorem execv_parentSignals : parentSignals.execv = .fresh := by decide

/-- The calls of `setup_server_signals`. -/
theorem setupServerSignals_eq :
    setupServerSignals = [.sigaction .usr2, .sigprocmask [.usr1]] := by decide

/-- The calls of `setup_client_signals`. -/
theorem setupClientSignals_eq :
    setupClientSignals = [.sigaction .usr1, .sigprocmask [.usr2]] := by decide

/-- A server behind the creation has its whole set-up before it. -/
theorem serverQuiet_creating (calls : List CreateCall) :
    ServerQuiet (creating calls) (some .fresh) := by
  cases calls with
  | nil =>
    rw [creating, setupServerSignals_eq]
    exact .setup
  | cons call calls => exact .create _

/-- Each call of its set-up takes the server to the next line of the table. -/
theorem ServerQuiet.setup_step {call : SignalCall} {calls : List SignalCall}
    {p : Option SignalState} (h : ServerQuiet (.setup (call :: calls)) p) :
    ServerQuiet (serverSettingUp calls) (p.map fun q => call.perform q) := by
  cases h with
  | setup => exact .handled
  | handled => exact .notify

/-- Each call of its set-up takes the client to the next line of the table. -/
theorem ClientQuiet.setup_step {call : SignalCall} {calls : List SignalCall}
    {p : Option SignalState} (h : ClientQuiet (.setup (call :: calls)) p) :
    ClientQuiet (clientSettingUp calls) (p.map fun q => call.perform q) := by
  cases h with
  | setup => exact .handled
  | handled => exact .wait

/-- A notification before the client blocks the signal leaves nothing pending: it does not
reach the client, or a handler swallows it, or it terminates the client. -/
theorem ClientQuiet.kill {pc : ClientPc} {p : Option SignalState} (h : ClientQuiet pc p)
    (hblocked : ¬ ∃ q, p = some q ∧ q.usr2.blocked = true) :
    p.isSome ∧ (p.bind fun q => q.generate .usr2).isNone ∨
      pc.awaits ∧ ¬ ∃ q, (p.bind fun q => q.generate .usr2) = some q ∧ q.usr2.pending = true := by
  cases h with
  | unborn | forked => exact Or.inr ⟨trivial, by simp⟩
  | joined =>
    refine Or.inr ⟨trivial, fun ⟨q, hq, hpending⟩ => ?_⟩
    obtain rfl := Option.some.inj hq
    exact absurd hpending (by decide)
  | setup | handled => exact Or.inl ⟨rfl, rfl⟩
  | wait => exact absurd ⟨_, rfl, rfl⟩ hblocked

namespace Inv

variable {b : Benchmark} {s t : State}

/-- Under the invariant the handshake is safe. -/
theorem safe (h : Inv s) : Safe s := by
  cases h.phase with
  | quiet hserver hclient =>
    constructor
    · intro hdead
      rw [hdead] at hclient
      cases hclient
    · intro hpast
      rw [hpast] at hserver
      cases hserver
  | pending _ hclient hgroup =>
    exact ⟨by simp [hclient], fun _ _ => ⟨clientReady true, by rw [hgroup]; rfl, rfl⟩⟩
  | taken _ hclient =>
    refine ⟨by simp [hclient], fun _ hawaits => ?_⟩
    rw [hclient] at hawaits
    exact hawaits.elim

/-- The parent starts the server. -/
theorem forkServer (h : Inv s) (hstep : step b s .forkServer = some t) : Inv t := by
  simp only [step, Option.ite_none_right_eq_some, Option.some.injEq] at hstep
  obtain ⟨hparent, rfl⟩ := hstep
  have hserver := h.server_unborn hparent
  have hclient := h.client_unborn (by simp [hparent])
  refine ⟨by simp, fun _ => hclient, ?_⟩
  cases h.phase with
  | quiet hold hquiet =>
    rw [hserver] at hold
    generalize hgroup : s.group.server = p at hold
    cases hold with
    | unborn => exact .quiet (hgroup ▸ .forked) hquiet
  | pending hpast | taken hpast => simp [hserver] at hpast

/-- The parent starts the client. -/
theorem forkClient (h : Inv s) (hstep : step b s .forkClient = some t) : Inv t := by
  simp only [step, Option.ite_none_right_eq_some, Option.some.injEq] at hstep
  obtain ⟨hparent, rfl⟩ := hstep
  have hclient := h.client_unborn (by simp [hparent])
  refine ⟨by simp, by simp, ?_⟩
  cases h.phase with
  | quiet hserver hold =>
    rw [hclient] at hold
    generalize hgroup : s.group.client = p at hold
    cases hold with
    | unborn => exact .quiet hserver (hgroup ▸ .forked)
  | pending _ hwait => simp [hclient] at hwait
  | taken _ hpast => simp [hclient] at hpast

/-- A step of the server before its notification. -/
theorem of_server {p : Option SignalState} {server : ServerPc} (h : Inv s)
    (hpast : s.server ≠ .past) (hborn : s.server ≠ .unborn) (hquiet : ServerQuiet server p) :
    Inv { s with group := { s.group with server := p }, server := server } := by
  refine ⟨fun hparent => absurd (h.server_unborn hparent) hborn, h.client_unborn, ?_⟩
  cases h.phase with
  | quiet _ hclient => exact .quiet hquiet hclient
  | pending hserver | taken hserver => exact absurd hserver hpast

/-- A step of the client before it waits. -/
theorem of_client {p : Option SignalState} {client : ClientPc} (h : Inv s)
    (hwait : s.client ≠ .wait) (hpast : s.client ≠ .past) (hborn : s.client ≠ .unborn)
    (hquiet : ClientQuiet client p) :
    Inv { s with group := { s.group with client := p }, client := client } := by
  refine ⟨h.server_unborn, fun hparent => absurd (h.client_unborn hparent) hborn, ?_⟩
  cases h.phase with
  | quiet hserver _ => exact .quiet hserver hquiet
  | pending _ hclient => exact absurd hclient hwait
  | taken _ hclient => exact absurd hclient hpast

/-- The signals of a server that has not notified yet. -/
theorem server_quiet (h : Inv s) (hpast : s.server ≠ .past) :
    ServerQuiet s.server s.group.server := by
  cases h.phase with
  | quiet hserver _ => exact hserver
  | pending hserver | taken hserver => exact absurd hserver hpast

/-- The signals of a client that does not wait yet. -/
theorem client_quiet (h : Inv s) (hwait : s.client ≠ .wait) (hpast : s.client ≠ .past) :
    ClientQuiet s.client s.group.client := by
  cases h.phase with
  | quiet _ hclient => exact hclient
  | pending _ hclient => exact absurd hclient hwait
  | taken _ hclient => exact absurd hclient hpast

/-- The server becomes a program of its own. -/
theorem serverExecv (h : Inv s) (hstep : step b s .serverExecv = some t) : Inv t := by
  simp only [step, Option.ite_none_right_eq_some, Option.some.injEq] at hstep
  obtain ⟨hserver, rfl⟩ := hstep
  have hold := h.server_quiet (by simp [hserver])
  rw [hserver] at hold
  refine h.of_server (by simp [hserver]) (by simp [hserver]) ?_
  generalize s.group.server = p at hold
  cases hold with
  | joined =>
    rw [Option.map_some, execv_parentSignals]
    exact serverQuiet_creating _

/-- The server creates its socket or queue. -/
theorem serverCreate (h : Inv s) (hstep : step b s .serverCreate = some t) : Inv t := by
  cases hserver : s.server with
  | create calls =>
    have hold := h.server_quiet (by simp [hserver])
    rw [hserver] at hold
    cases calls with
    | nil => simp [step, hserver] at hstep
    | cons call calls =>
      simp only [step, hserver, Option.some.injEq] at hstep
      subst hstep
      refine h.of_server (by simp [hserver]) (by simp [hserver]) ?_
      generalize s.group.server = p at hold
      cases hold with
      | create _ => exact serverQuiet_creating calls
  | _ => simp [step, hserver] at hstep

/-- The server sets up its signals. -/
theorem serverSetup (h : Inv s) (hstep : step b s .serverSetup = some t) : Inv t := by
  cases hserver : s.server with
  | setup calls =>
    have hold := h.server_quiet (by simp [hserver])
    rw [hserver] at hold
    cases calls with
    | nil => simp [step, hserver] at hstep
    | cons call calls =>
      simp only [step, hserver, Option.some.injEq] at hstep
      subst hstep
      exact h.of_server (by simp [hserver]) (by simp [hserver]) hold.setup_step
  | _ => simp [step, hserver] at hstep

/-- The server notifies a client that blocks the signal. -/
theorem serverNotify (h : Inv s) (hblocked : ∃ p, s.group.client = some p ∧ p.usr2.blocked = true)
    (hstep : step b s .serverNotify = some t) : Inv t := by
  simp only [step, Option.ite_none_right_eq_some, Option.some.injEq] at hstep
  obtain ⟨hserver, rfl⟩ := hstep
  obtain ⟨p, hp, hmask⟩ := hblocked
  cases h.phase with
  | quiet hold hquiet =>
    obtain ⟨hclient, rfl⟩ : s.client = .wait ∧ p = clientReady false := by
      rw [hp] at hquiet
      generalize s.client = client at hquiet ⊢
      cases hquiet with
      | wait => exact ⟨rfl, rfl⟩
      | joined | setup | handled => exact absurd hmask (by decide)
    have hready : s.group = .ready false false := by
      rw [hserver] at hold
      generalize hgroup : s.group.server = q at hold
      cases hold with
      | notify => exact congrArg₂ Group.mk hgroup hp
    refine ⟨fun hparent => ?_, fun hparent => ?_, ?_⟩
    · simp [h.server_unborn hparent] at hserver
    · simp [h.client_unborn hparent] at hclient
    · rw [hready, Group.notifyClient_ready, hclient]
      exact .pending rfl rfl rfl
  | pending hpast | taken hpast => simp [hserver] at hpast

/-- The client becomes a program of its own. -/
theorem clientExecv (h : Inv s) (hstep : step b s .clientExecv = some t) : Inv t := by
  simp only [step, Option.ite_none_right_eq_some, Option.some.injEq] at hstep
  obtain ⟨hclient, rfl⟩ := hstep
  have hold := h.client_quiet (by simp [hclient]) (by simp [hclient])
  rw [hclient] at hold
  refine h.of_client (by simp [hclient]) (by simp [hclient]) (by simp [hclient]) ?_
  generalize s.group.client = p at hold
  cases hold with
  | joined =>
    rw [Option.map_some, execv_parentSignals, setupClientSignals_eq]
    exact .setup

/-- The client sets up its signals. -/
theorem clientSetup (h : Inv s) (hstep : step b s .clientSetup = some t) : Inv t := by
  cases hclient : s.client with
  | setup calls =>
    have hold := h.client_quiet (by simp [hclient]) (by simp [hclient])
    rw [hclient] at hold
    cases calls with
    | nil => simp [step, hclient] at hstep
    | cons call calls =>
      simp only [step, hclient, Option.some.injEq] at hstep
      subst hstep
      exact h.of_client (by simp [hclient]) (by simp [hclient]) (by simp [hclient])
        hold.setup_step
  | _ => simp [step, hclient] at hstep

/-- The client takes the notification. -/
theorem clientWait (h : Inv s) (hstep : step b s .clientWait = some t) : Inv t := by
  simp only [step, Option.ite_none_right_eq_some, Option.map_eq_some_iff] at hstep
  obtain ⟨hclient, group, hwait, rfl⟩ := hstep
  have hborn : s.parent ≠ .done → ClientPc.past = .unborn := by
    intro hparent
    simp [h.client_unborn hparent] at hclient
  cases h.phase with
  | quiet _ hquiet =>
    -- nothing is pending before the notification, so the wait cannot have returned
    rw [hclient] at hquiet
    generalize hp : s.group.client = p at hquiet
    cases hquiet with
    | wait =>
      rw [Group.clientWait, hp] at hwait
      cases hwait
  | pending hserver _ _ => exact ⟨h.server_unborn, hborn, .taken hserver rfl⟩
  | taken _ hpast => simp [hclient] at hpast

/-- Every step that meets the condition keeps the invariant. -/
theorem step {a : Action} (h : Inv s) (hmet : NotifiesBlocked s a)
    (hstep : StartUp.step b s a = some t) : Inv t := by
  cases a with
  | forkServer => exact h.forkServer hstep
  | forkClient => exact h.forkClient hstep
  | serverSetpgid =>
    simp only [StartUp.step, Option.ite_none_right_eq_some, Option.some.injEq] at hstep
    obtain ⟨hserver, rfl⟩ := hstep
    exact h.of_server (by simp [hserver]) (by simp [hserver]) .joined
  | serverExecv => exact h.serverExecv hstep
  | serverCreate => exact h.serverCreate hstep
  | serverSetup => exact h.serverSetup hstep
  | serverNotify => exact h.serverNotify (hmet rfl) hstep
  | clientSetpgid =>
    simp only [StartUp.step, Option.ite_none_right_eq_some, Option.some.injEq] at hstep
    obtain ⟨hclient, rfl⟩ := hstep
    exact h.of_client (by simp [hclient]) (by simp [hclient]) (by simp [hclient]) .joined
  | clientExecv => exact h.clientExecv hstep
  | clientSetup => exact h.clientSetup hstep
  | clientWait => exact h.clientWait hstep

/-- A notification that comes too early terminates the client or is lost. -/
theorem not_safe {a : Action} (h : Inv s) (hmet : ¬ NotifiesBlocked s a)
    (hstep : StartUp.step b s a = some t) : ¬ Safe t := by
  simp only [NotifiesBlocked, Classical.not_imp] at hmet
  obtain ⟨rfl, hblocked⟩ := hmet
  simp only [StartUp.step, Option.ite_none_right_eq_some, Option.some.injEq] at hstep
  obtain ⟨hserver, rfl⟩ := hstep
  have hquiet := h.server_quiet (by simp [hserver])
  have hclient : ClientQuiet s.client s.group.client := by
    cases h.phase with
    | quiet _ hclient => exact hclient
    | pending hpast | taken hpast => simp [hserver] at hpast
  intro hsafe
  rcases hclient.kill hblocked with hkilled | ⟨hawaits, hlost⟩
  · exact hsafe.alive (if_pos hkilled)
  · have hpast : (if s.group.notifyClient.server.isNone then ServerPc.terminated else .past) =
        .past := by
      rw [hserver] at hquiet
      generalize hp : s.group.server = p at hquiet
      cases hquiet with
      | notify =>
        rw [Group.notifyClient, Group.kill, hp]
        rfl
    by_cases hkilled : s.group.client.isSome ∧ s.group.notifyClient.client.isNone
    · exact hsafe.alive (if_pos hkilled)
    · have hnoticed := hsafe.noticed hpast
      rw [if_neg hkilled] at hnoticed
      exact hlost (hnoticed hawaits)

end Inv

/-- The start-up handshake of `domain` and `mq`, for every interleaving of the parent, the
server and the client: in every state of a run the client has not been terminated, and it
does not wait, or still have to wait, for a notification that is gone, if and only if the
server notifies only after the client has blocked `SIGUSR2`. -/
theorem handshake_safe_iff (b : Benchmark) (actions : List Action) (s : State)
    (hrun : run (step b) start actions = some s) :
    Throughout (step b) Safe start actions ↔ Meets (step b) NotifiesBlocked start actions :=
  throughout_iff_meets Inv (fun h => h.safe) (fun h hmet hstep => h.step hmet hstep)
    (fun h hmet hstep => h.not_safe hmet hstep) inv_start hrun

/-- The schedule the sleeps are meant to bring about: both children set up their signals
before the server notifies. -/
def clientFirst : List Action :=
  [.forkServer, .forkClient, .clientSetpgid, .clientExecv, .clientSetup, .clientSetup,
    .serverSetpgid, .serverExecv, .serverCreate, .serverSetup, .serverSetup, .serverNotify,
    .clientWait]

/-- In this schedule the handshake of `mq` is safe. -/
theorem handshake_safe_iff_client_first : Throughout (step .mq) Safe start clientFirst :=
  (handshake_safe_iff .mq clientFirst _ rfl).mpr (by decide)

/-- Both children are programs of their own, and the server is faster. -/
def serverFirst : List Action :=
  [.forkServer, .forkClient, .serverSetpgid, .serverExecv, .clientSetpgid, .clientExecv,
    .serverCreate, .serverSetup, .serverSetup, .serverNotify]

/-- The notification of `mq` terminates a client that has not set up its signals. -/
theorem early_notification_terminates :
    ∃ s, run (step .mq) start serverFirst = some s ∧ s.server = .past ∧
      s.client = .terminated ∧ ¬ Safe s :=
  ⟨_, rfl, rfl, rfl, fun hsafe => hsafe.alive rfl⟩

end IpcBench.StartUp
