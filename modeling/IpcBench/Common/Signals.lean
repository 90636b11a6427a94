import IpcBench.Lib.Signals
import Mathlib.Data.Nat.Notation

/-!
# The signals of `common/signals.c`

Server and client notify each other by `SIGUSR1` and `SIGUSR2`, sent with `kill(0, …)`
to the whole process group, the sender included. Each side blocks the signal it waits
for and catches the other one with an empty handler. A set-up is the list of the
system calls it makes, so that its steps can be interleaved with those of the other
process; `usleep` orders nothing and is left out.
-/

namespace IpcBench

open Lib

/-- The two signals. -/
inductive Signal where
  | usr1
  | usr2
  deriving DecidableEq, Repr

/-- Both signals at one process. -/
structure SignalState where
  usr1 : SignalSlot
  usr2 : SignalSlot
  deriving DecidableEq, Repr

namespace SignalState

/-- A program that has not changed anything. -/
def fresh : SignalState := ⟨.fresh, .fresh⟩

/-- One signal is changed. -/
def modify (f : SignalSlot → SignalSlot) (p : SignalState) : Signal → SignalState
  | .usr1 => { p with usr1 := f p.usr1 }
  | .usr2 => { p with usr2 := f p.usr2 }

/-- One signal is changed, if that is possible. -/
def modifyM (f : SignalSlot → Option SignalSlot) (p : SignalState) : Signal → Option SignalState
  | .usr1 => (f p.usr1).map fun slot => { p with usr1 := slot }
  | .usr2 => (f p.usr2).map fun slot => { p with usr2 := slot }

/-- A signal reaches the process; `none` when it terminates it. -/
def generate (p : SignalState) (sig : Signal) : Option SignalState :=
  p.modifyM SignalSlot.generate sig

/-- `execv`. -/
def execv (p : SignalState) : SignalState := ⟨p.usr1.exec, p.usr2.exec⟩

end SignalState

/-- `IGNORE_USR1`. -/
def ignoreUsr1 : UInt32 := 0x0

/-- `IGNORE_USR2`. -/
def ignoreUsr2 : UInt32 := 0x0

/-- `BLOCK_USR1`. -/
def blockUsr1 : UInt32 := 0x1

/-- `BLOCK_USR2`. -/
def blockUsr2 : UInt32 := 0x2

/-- The system calls of a set-up: `signal_handler` is installed for a signal, or
signals are added to the mask. -/
inductive SignalCall where
  | sigaction (sig : Signal)
  | sigprocmask (mask : List Signal)
  deriving DecidableEq, Repr

namespace SignalCall

/-- What a call does to its process. -/
def perform (p : SignalState) : SignalCall → SignalState
  | .sigaction sig => p.modify .handle sig
  | .sigprocmask mask => mask.foldl (SignalState.modify .block) p

end SignalCall

/-- `setup_ignored_signals`. -/
def setupIgnoredSignals (flags : UInt32) : List SignalCall :=
  (if flags &&& blockUsr1 = 0 then [.sigaction .usr1] else []) ++
    (if flags &&& blockUsr2 = 0 then [.sigaction .usr2] else [])

/-- The mask that `setup_blocked_signals` leaves in `signal_action`, and for which
`wait_for_signal` waits. -/
def blockedMask (flags : UInt32) : List Signal :=
  (if flags &&& blockUsr1 ≠ 0 then [.usr1] else []) ++
    (if flags &&& blockUsr2 ≠ 0 then [.usr2] else [])

/-- `setup_blocked_signals`. -/
def setupBlockedSignals (flags : UInt32) : List SignalCall := [.sigprocmask (blockedMask flags)]

/-- `setup_signals`. -/
def setupSignals (flags : UInt32) : List SignalCall :=
  setupIgnoredSignals flags ++ setupBlockedSignals flags

/-- The flags of `setup_parent_signals`. -/
def parentFlags : UInt32 := ignoreUsr1 ||| ignoreUsr2

/-- The flags of `setup_server_signals`. -/
def serverFlags : UInt32 := blockUsr1 ||| ignoreUsr2

/-- The flags of `setup_client_signals`. -/
def clientFlags : UInt32 := ignoreUsr1 ||| blockUsr2

/-- `setup_parent_signals`. -/
def setupParentSignals : List SignalCall := setupSignals parentFlags

/-- `setup_server_signals`. -/
def setupServerSignals : List SignalCall := setupSignals serverFlags

/-- `setup_client_signals`. -/
def setupClientSignals : List SignalCall := setupSignals clientFlags

/-- `wait_for_signal` after a set-up with the given flags: `sigwait` takes a pending
signal of the mask; `none` while there is none. -/
def waitForSignal (flags : UInt32) (p : SignalState) : Option SignalState :=
  (blockedMask flags).findSome? fun sig => p.modifyM SignalSlot.accept sig

/-- The processes of one group that take part, `none` for one that is not there. -/
structure Group where
  server : Option SignalState
  client : Option SignalState
  deriving DecidableEq, Repr

namespace Group

/-- `kill(0, sig)`: every member of the group receives the signal. -/
def kill (g : Group) (sig : Signal) : Group :=
  ⟨g.server.bind fun p => p.generate sig, g.client.bind fun p => p.generate sig⟩

/-- `notify_server`. -/
def notifyServer (g : Group) : Group := g.kill .usr1

/-- `notify_client`. -/
def notifyClient (g : Group) : Group := g.kill .usr2

/-- `wait_for_signal` in the server. -/
def serverWait (g : Group) : Option Group :=
  (g.server.bind (waitForSignal serverFlags)).map fun p => { g with server := some p }

/-- `wait_for_signal` in the client. -/
def clientWait (g : Group) : Option Group :=
  (g.client.bind (waitForSignal clientFlags)).map fun p => { g with client := some p }

end Group

/-- A server behind its set-up, with or without a `SIGUSR1` pending. -/
def serverReady (pending : Bool) : SignalState := ⟨.waitedFor pending, .caught⟩

/-- A client behind its set-up, with or without a `SIGUSR2` pending. -/
def clientReady (pending : Bool) : SignalState := ⟨.caught, .waitedFor pending⟩

/-- What `setup_server_signals` makes of a fresh program. -/
theorem setupServerSignals_fresh :
    setupServerSignals.foldl SignalCall.perform .fresh = serverReady false := by decide

/-- What `setup_client_signals` makes of a fresh program. -/
theorem setupClientSignals_fresh :
    setupClientSignals.foldl SignalCall.perform .fresh = clientReady false := by decide

/-- Server and client behind their set-ups. -/
def Group.ready (toServer toClient : Bool) : Group :=
  ⟨some (serverReady toServer), some (clientReady toClient)⟩

namespace Group

/-- The server learns of the notification, the client runs its empty handler. -/
@[simp] theorem notifyServer_ready (toServer toClient : Bool) :
    (ready toServer toClient).notifyServer = ready true toClient := rfl

/-- The client learns of the notification, the server runs its empty handler. -/
@[simp] theorem notifyClient_ready (toServer toClient : Bool) :
    (ready toServer toClient).notifyClient = ready toServer true := rfl

/-- The server goes on exactly when it has been notified. -/
theorem serverWait_ready (toServer toClient : Bool) :
    (ready toServer toClient).serverWait =
      if toServer then some (ready false toClient) else none := by
  cases toServer <;> rfl

/-- The client goes on exactly when it has been notified. -/
theorem clientWait_ready (toServer toClient : Bool) :
    (ready toServer toClient).clientWait =
      if toClient then some (ready toServer false) else none := by
  cases toClient <;> rfl

end Group

/-- The signals between the two processes, with the finished calls of `notify_server`,
`notify_client` and `wait_for_signal`. -/
structure SignalLink where
  group : Group
  clientNotifies : ℕ
  serverWaits : ℕ
  serverNotifies : ℕ
  clientWaits : ℕ
  deriving DecidableEq, Repr

namespace SignalLink

/-- Both processes are behind their set-ups. -/
def start : SignalLink :=
  ⟨⟨some (setupServerSignals.foldl SignalCall.perform .fresh),
    some (setupClientSignals.foldl SignalCall.perform .fresh)⟩, 0, 0, 0, 0⟩

/-- The client calls `notify_server`. -/
def notifyServer (l : SignalLink) : SignalLink :=
  { l with group := l.group.notifyServer, clientNotifies := l.clientNotifies + 1 }

/-- The server calls `notify_client`. -/
def notifyClient (l : SignalLink) : SignalLink :=
  { l with group := l.group.notifyClient, serverNotifies := l.serverNotifies + 1 }

/-- The server returns from `wait_for_signal`. -/
def serverWait (l : SignalLink) : Option SignalLink :=
  l.group.serverWait.map fun g => { l with group := g, serverWaits := l.serverWaits + 1 }

/-- The client returns from `wait_for_signal`. -/
def clientWait (l : SignalLink) : Option SignalLink :=
  l.group.clientWait.map fun g => { l with group := g, clientWaits := l.clientWaits + 1 }

/-- A wait of the client leaves the notifications of the server alone. -/
theorem clientWait_clientNotifies {l l' : SignalLink} (h : l.clientWait = some l') :
    l'.clientNotifies = l.clientNotifies := by
  obtain ⟨g, _, rfl⟩ := Option.map_eq_some_iff.mp h
  rfl

/-- A wait of the server leaves its notifications alone. -/
theorem serverWait_clientNotifies {l l' : SignalLink} (h : l.serverWait = some l') :
    l'.clientNotifies = l.clientNotifies := by
  obtain ⟨g, _, rfl⟩ := Option.map_eq_some_iff.mp h
  rfl

/-- Both processes are alive, and every notification so far has been waited for or is
the one that is pending. -/
structure At (l : SignalLink) (toServer toClient : Bool) : Prop where
  group_eq : l.group = .ready toServer toClient
  toServer_eq : l.clientNotifies = l.serverWaits + toServer.toNat
  toClient_eq : l.serverNotifies = l.clientWaits + toClient.toNat

/-- Nothing is pending behind the set-ups. -/
theorem at_start : start.At false false := by
  refine ⟨?_, rfl, rfl⟩
  rw [start, setupServerSignals_fresh, setupClientSignals_fresh]
  rfl

namespace At

variable {l l' : SignalLink} {toServer toClient : Bool}

/-- A notification of the server that cannot merge with another one. -/
theorem notifyServer (h : l.At false toClient) : l.notifyServer.At true toClient := by
  refine ⟨?_, congrArg (· + 1) h.toServer_eq, h.toClient_eq⟩
  rw [SignalLink.notifyServer, h.group_eq, Group.notifyServer_ready]

/-- A notification of the client that cannot merge with another one. -/
theorem notifyClient (h : l.At toServer false) : l.notifyClient.At toServer true := by
  refine ⟨?_, h.toServer_eq, congrArg (· + 1) h.toClient_eq⟩
  rw [SignalLink.notifyClient, h.group_eq, Group.notifyClient_ready]

/-- The server returns from its wait only when it has been notified. -/
theorem serverWait (h : l.At toServer toClient) (hwait : l.serverWait = some l') :
    toServer = true ∧ l'.At false toClient := by
  rw [SignalLink.serverWait, h.group_eq, Group.serverWait_ready] at hwait
  cases toServer with
  | false => simp at hwait
  | true =>
    obtain rfl := Option.some.inj hwait
    exact ⟨rfl, rfl, h.toServer_eq, h.toClient_eq⟩

/-- The client returns from its wait only when it has been notified. -/
theorem clientWait (h : l.At toServer toClient) (hwait : l.clientWait = some l') :
    toClient = true ∧ l'.At toServer false := by
  rw [SignalLink.clientWait, h.group_eq, Group.clientWait_ready] at hwait
  cases toClient with
  | false => simp at hwait
  | true =>
    obtain rfl := Option.some.inj hwait
    exact ⟨rfl, rfl, h.toServer_eq, h.toClient_eq⟩

/-- A server that has been notified does not block. -/
theorem serverWait_isSome (h : l.At true toClient) : l.serverWait.isSome := by
  rw [SignalLink.serverWait, h.group_eq, Group.serverWait_ready]
  rfl

/-- A client that has been notified does not block. -/
theorem clientWait_isSome (h : l.At toServer true) : l.clientWait.isSome := by
  rw [SignalLink.clientWait, h.group_eq, Group.clientWait_ready]
  rfl

end At

end SignalLink

end IpcBench
