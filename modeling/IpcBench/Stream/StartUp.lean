import IpcBench.Stream.Protocol

/-!
# The start-up of `fifo` and `pipe`

Nothing tells the client of these benchmarks when the server has set up its signals. In
`fifo` the two processes meet in `open`, which returns at either end of a fifo only when the
other process has called it too, and the server calls it behind its set-up; but the client
needs a fifo that is already there. In `pipe` the processes are forked and set up their
signals side by side, and the first `SIGUSR1` may come before the server has blocked it.
-/

namespace IpcBench.StreamStartUp

open Lib

/-- Where the server stands, up to its loop. -/
inductive ServerPc where
  | setup (calls : List SignalCall)
  | mkfifo
  | fopen
  | opening
  | loop
  | terminated
  deriving DecidableEq, Repr

/-- Where the client stands, up to its first `wait_for_signal`. -/
inductive ClientPc where
  | setup (calls : List SignalCall)
  | fopen
  | opening
  | notify
  | wait
  | thrown
  | terminated
  deriving DecidableEq, Repr

/-- The signals of the two processes, whether the fifo is there, and the two programs. -/
structure State where
  group : Group
  created : Bool
  server : ServerPc
  client : ClientPc
  deriving DecidableEq, Repr

/-- The calls of the two processes. A `fopen` of the fifo begins and returns. -/
inductive Action where
  | serverSetup
  | serverMkfifo
  | serverOpen
  | serverOpened
  | clientSetup
  | clientOpen
  | clientOpened
  | clientNotify
  deriving DecidableEq, Repr

/-- The server with some of its set-up left. -/
def serverSettingUp (b : Stream.Benchmark) : List SignalCall → ServerPc
  | [] =>
      match b with
      | .fifo => .mkfifo
      | .pipe => .loop
  | calls => .setup calls

/-- The client with some of its set-up left. -/
def clientSettingUp (b : Stream.Benchmark) : List SignalCall → ClientPc
  | [] =>
      match b with
      | .fifo => .fopen
      | .pipe => .notify
  | calls => .setup calls

/-- Both programs before their set-ups. An earlier run may have left its fifo. -/
def start (b : Stream.Benchmark) (created : Bool) : State :=
  ⟨⟨some .fresh, some .fresh⟩, created, serverSettingUp b setupServerSignals,
    clientSettingUp b setupClientSignals⟩

/-- One call of either process. -/
def step (b : Stream.Benchmark) (s : State) : Action → Option State
  | .serverSetup =>
      match s.server with
      | .setup (call :: calls) =>
          some { s with
            group := { s.group with server := s.group.server.map fun p => call.perform p }
            server := serverSettingUp b calls }
      | _ => none
  | .serverMkfifo =>
      -- the test `mkfifo(..) > 0` never fires, also when the fifo is already there
      if s.server = .mkfifo then some { s with created := true, server := .fopen } else none
  | .serverOpen => if s.server = .fopen then some { s with server := .opening } else none
  | .serverOpened =>
      if s.server = .opening ∧ s.client ∈ [.opening, .notify, .wait] then
        some { s with server := .loop }
      else none
  | .clientSetup =>
      match s.client with
      | .setup (call :: calls) =>
          some { s with
            group := { s.group with client := s.group.client.map fun p => call.perform p }
            client := clientSettingUp b calls }
      | _ => none
  | .clientOpen =>
      if s.client = .fopen then
        some { s with client := if s.created then .opening else .thrown }
      else none
  | .clientOpened =>
      if s.client = .opening ∧ s.server ∈ [.opening, .loop] then
        some { s with client := .notify }
      else none
  | .clientNotify =>
      if s.client = .notify then
        let group := s.group.notifyServer
        some { s with
          group := group
          server := if group.server.isNone then .terminated else s.server
          client := if group.client.isNone then .terminated else .wait }
      else none

/-- Nothing has gone wrong, and when the client has notified, the signals are where the
exchange takes over. -/
structure Safe (s : State) : Prop where
  server_alive : s.server ≠ .terminated
  client_alive : s.client ≠ .terminated
  client_opens : s.client ≠ .thrown
  taken_over : s.client = .wait → s.group = SignalLink.start.notifyServer.group

/-- What the start-up leaves to chance: in `fifo` that the fifo is there when the client opens
it, in `pipe` that the server has blocked `SIGUSR1` when the client sends it. -/
def Prepared (b : Stream.Benchmark) (s : State) (a : Action) : Prop :=
  match b with
  | .fifo => a = .clientOpen → s.created = true
  | .pipe => a = .clientNotify → (s.group.server.any fun p => p.usr1.blocked) = true

instance (b : Stream.Benchmark) (s : State) (a : Action) : Decidable (Prepared b s a) :=
  match b with
  | .fifo => inferInstanceAs (Decidable (a = .clientOpen → s.created = true))
  | .pipe =>
      inferInstanceAs (Decidable
        (a = .clientNotify → (s.group.server.any fun p => p.usr1.blocked) = true))

/-- The server is behind its set-up. -/
def ServerPc.Behind : ServerPc → Prop
  | .mkfifo | .fopen | .opening | .loop => True
  | .setup _ | .terminated => False

/-- The signals of the server at each point before the notification. -/
inductive ServerQuiet : ServerPc → Option SignalState → Prop where
  | setup : ServerQuiet (.setup [.sigaction .usr2, .sigprocmask [.usr1]]) (some .fresh)
  | handled : ServerQuiet (.setup [.sigprocmask [.usr1]]) (some ⟨.fresh, .caught⟩)
  | behind {pc : ServerPc} (hpc : pc.Behind) : ServerQuiet pc (some (serverReady false))

/-- The signals of the client at each point before its notification. -/
inductive ClientQuiet : Stream.Benchmark → ClientPc → Option SignalState → Prop where
  | setup {b : Stream.Benchmark} :
      ClientQuiet b (.setup [.sigaction .usr1, .sigprocmask [.usr2]]) (some .fresh)
  | handled {b : Stream.Benchmark} :
      ClientQuiet b (.setup [.sigprocmask [.usr2]]) (some ⟨.caught, .fresh⟩)
  | fopen : ClientQuiet .fifo .fopen (some (clientReady false))
  | opening : ClientQuiet .fifo .opening (some (clientReady false))
  | notify {b : Stream.Benchmark} : ClientQuiet b .notify (some (clientReady false))

/-- Before and after the notification. In `fifo` the client has met the server in `open`
before it notifies. -/
inductive Phase (b : Stream.Benchmark) (s : State) : Prop where
  | quiet (hserver : ServerQuiet s.server s.group.server)
      (hclient : ClientQuiet b s.client s.group.client)
      (hmet : b = .fifo → s.client = .notify → s.server.Behind)
  | notified (hserver : s.server.Behind) (hclient : s.client = .wait)
      (hgroup : s.group = .ready true false)

/-- The calls of `setup_server_signals`. -/
theorem setupServerSignals_eq :
    setupServerSignals = [.sigaction .usr2, .sigprocmask [.usr1]] := by decide

/-- The calls of `setup_client_signals`. -/
theorem setupClientSignals_eq :
    setupClientSignals = [.sigaction .usr1, .sigprocmask [.usr2]] := by decide

/-- Nothing has been done. -/
theorem phase_start (b : Stream.Benchmark) (created : Bool) : Phase b (start b created) := by
  rw [start, setupServerSignals_eq, setupClientSignals_eq]
  exact .quiet .setup .setup fun _ hnotify => by cases hnotify

/-- Each call of its set-up takes the server further. -/
theorem ServerQuiet.setup_step (b : Stream.Benchmark) {call : SignalCall}
    {calls : List SignalCall} {p : Option SignalState}
    (h : ServerQuiet (.setup (call :: calls)) p) :
    ServerQuiet (serverSettingUp b calls) (p.map fun q => call.perform q) := by
  cases h with
  | setup => exact .handled
  | handled => cases b <;> exact .behind trivial
  | behind hpc => exact hpc.elim

/-- Each call of its set-up takes the client further. -/
theorem ClientQuiet.setup_step {b : Stream.Benchmark} {call : SignalCall}
    {calls : List SignalCall} {p : Option SignalState}
    (h : ClientQuiet b (.setup (call :: calls)) p) :
    ClientQuiet b (clientSettingUp b calls) (p.map fun q => call.perform q) := by
  cases h with
  | setup => exact .handled
  | handled =>
    cases b with
    | fifo => exact .fopen
    | pipe => exact .notify

/-- Only the client of `fifo` opens anything, with its signals set up. -/
theorem ClientQuiet.at_open {b : Stream.Benchmark} {pc : ClientPc} {p : Option SignalState}
    (h : ClientQuiet b pc p) (hopen : pc = .fopen ∨ pc = .opening) :
    b = .fifo ∧ p = some (clientReady false) := by
  cases h with
  | fopen | opening => exact ⟨rfl, rfl⟩
  | setup | handled | notify => simp at hopen

/-- Behind its set-up the server blocks `SIGUSR1`, and before it would not survive it. -/
theorem ServerQuiet.behind_or_killed {pc : ServerPc} {p : Option SignalState}
    (h : ServerQuiet pc p) :
    (pc.Behind ∧ p = some (serverReady false)) ∨
      (¬pc.Behind ∧ pc ≠ .terminated ∧ (p.any fun q => q.usr1.blocked) = false ∧
        (p.bind fun q => q.generate .usr1) = none) := by
  cases h with
  | setup | handled => exact Or.inr ⟨id, by simp, rfl, rfl⟩
  | behind hpc => exact Or.inl ⟨hpc, rfl⟩

namespace Phase

variable {b : Stream.Benchmark} {s t : State}

/-- The start-up is safe as long as the phases are kept. -/
theorem safe (h : Phase b s) : Safe s := by
  cases h with
  | quiet hserver hclient _ =>
    constructor
    · intro hdead
      rcases hserver.behind_or_killed with ⟨hbehind, _⟩ | ⟨_, halive, _⟩
      · rw [hdead] at hbehind
        exact hbehind
      · exact halive hdead
    · intro hdead
      rw [hdead] at hclient
      cases hclient
    · intro hthrown
      rw [hthrown] at hclient
      cases hclient
    · intro hwait
      rw [hwait] at hclient
      cases hclient
  | notified hserver hclient hgroup =>
    refine ⟨?_, by simp [hclient], by simp [hclient], fun _ => ?_⟩
    · intro hdead
      rw [hdead] at hserver
      exact hserver
    · rw [hgroup, SignalLink.notifyServer, SignalLink.at_start.group_eq,
        Group.notifyServer_ready]

/-- A server behind its set-up goes on. -/
theorem of_behind {server : ServerPc} {created : Bool} (h : Phase b s) (hold : s.server.Behind)
    (hnew : server.Behind) : Phase b { s with created := created, server := server } := by
  cases h with
  | quiet hserver hclient hmet =>
    rcases hserver.behind_or_killed with ⟨_, hp⟩ | ⟨hsetup, _⟩
    · refine .quiet ?_ hclient fun _ _ => hnew
      rw [hp]
      exact .behind hnew
    · exact absurd hold hsetup
  | notified _ hclient hgroup => exact .notified hnew hclient hgroup

/-- The server sets up its signals. -/
theorem serverSetup (h : Phase b s) (hstep : step b s .serverSetup = some t) : Phase b t := by
  cases hserver : s.server with
  | setup calls =>
    cases calls with
    | nil => simp [step, hserver] at hstep
    | cons call calls =>
      simp only [step, hserver, Option.some.injEq] at hstep
      subst hstep
      cases h with
      | quiet hold hclient hmet =>
        rw [hserver] at hold hmet
        exact .quiet (hold.setup_step b) hclient fun hfifo hnotify => (hmet hfifo hnotify).elim
      | notified hbehind =>
        rw [hserver] at hbehind
        exact hbehind.elim
  | _ => simp [step, hserver] at hstep

/-- The client sets up its signals. -/
theorem clientSetup (h : Phase b s) (hstep : step b s .clientSetup = some t) : Phase b t := by
  cases hclient : s.client with
  | setup calls =>
    cases calls with
    | nil => simp [step, hclient] at hstep
    | cons call calls =>
      simp only [step, hclient, Option.some.injEq] at hstep
      subst hstep
      cases h with
      | quiet hserver hold _ =>
        rw [hclient] at hold
        refine .quiet hserver hold.setup_step ?_
        rintro rfl hnotify
        cases calls <;> cases hnotify
      | notified _ hwait => simp [hclient] at hwait
  | _ => simp [step, hclient] at hstep

/-- The client goes on in `fifo`. -/
theorem of_client {client : ClientPc} (h : Phase b s)
    (hold : s.client = .fopen ∨ s.client = .opening)
    (hquiet : ClientQuiet .fifo client (some (clientReady false)))
    (hmet : client = .notify → s.server.Behind) : Phase b { s with client := client } := by
  cases h with
  | quiet hserver hclient _ =>
    obtain ⟨rfl, hready⟩ := hclient.at_open hold
    refine .quiet hserver ?_ fun _ => hmet
    rw [hready]
    exact hquiet
  | notified _ hwait => simp [hwait] at hold

/-- The client notifies a server that is behind its set-up. -/
theorem clientNotify (h : Phase b s) (hprepared : Prepared b s .clientNotify)
    (hstep : step b s .clientNotify = some t) : Phase b t := by
  simp only [step, Option.ite_none_right_eq_some, Option.some.injEq] at hstep
  obtain ⟨hclient, rfl⟩ := hstep
  cases h with
  | quiet hserver hquiet hmet =>
    have hready : s.server.Behind ∧ s.group.server = some (serverReady false) := by
      rcases hserver.behind_or_killed with hbehind | ⟨hsetup, _, hblocked, _⟩
      · exact hbehind
      · cases b with
        | pipe => simp [hprepared rfl] at hblocked
        | fifo => exact absurd (hmet rfl hclient) hsetup
    have hgroup : s.group = .ready false false := by
      rw [hclient] at hquiet
      generalize hp : s.group.client = p at hquiet
      cases hquiet with
      | notify => exact congrArg₂ Group.mk hready.2 hp
    rw [hgroup, Group.notifyServer_ready]
    exact .notified hready.1 rfl rfl
  | notified _ hwait => simp [hclient] at hwait

/-- Every step that meets the condition keeps the phases. -/
theorem step {a : Action} (h : Phase b s) (hprepared : Prepared b s a)
    (hstep : StreamStartUp.step b s a = some t) : Phase b t := by
  cases a with
  | serverSetup => exact h.serverSetup hstep
  | clientSetup => exact h.clientSetup hstep
  | clientNotify => exact h.clientNotify hprepared hstep
  | serverMkfifo =>
    simp only [StreamStartUp.step, Option.ite_none_right_eq_some, Option.some.injEq] at hstep
    obtain ⟨hserver, rfl⟩ := hstep
    exact h.of_behind (by rw [hserver]; trivial) trivial
  | serverOpen =>
    simp only [StreamStartUp.step, Option.ite_none_right_eq_some, Option.some.injEq] at hstep
    obtain ⟨hserver, rfl⟩ := hstep
    exact h.of_behind (by rw [hserver]; trivial) trivial
  | serverOpened =>
    simp only [StreamStartUp.step, Option.ite_none_right_eq_some, Option.some.injEq] at hstep
    obtain ⟨⟨hserver, _⟩, rfl⟩ := hstep
    exact h.of_behind (by rw [hserver]; trivial) trivial
  | clientOpen =>
    simp only [StreamStartUp.step, Option.ite_none_right_eq_some, Option.some.injEq] at hstep
    obtain ⟨hclient, rfl⟩ := hstep
    have hcreated : s.created = true := by
      cases h with
      | quiet _ hquiet _ =>
        obtain ⟨rfl, _⟩ := hquiet.at_open (Or.inl hclient)
        exact hprepared rfl
      | notified _ hwait => simp [hclient] at hwait
    rw [if_pos hcreated]
    exact h.of_client (Or.inl hclient) .opening (by simp)
  | clientOpened =>
    simp only [StreamStartUp.step, Option.ite_none_right_eq_some, Option.some.injEq] at hstep
    obtain ⟨⟨hclient, hserver⟩, rfl⟩ := hstep
    refine h.of_client (Or.inr hclient) .notify fun _ => ?_
    simp only [List.mem_cons, List.not_mem_nil, or_false] at hserver
    rcases hserver with hserver | hserver <;> rw [hserver] <;> trivial

/-- A step that does not meet the condition breaks the start-up. -/
theorem not_safe {a : Action} (h : Phase b s) (hprepared : ¬Prepared b s a)
    (hstep : StreamStartUp.step b s a = some t) : ¬Safe t := by
  intro hsafe
  cases b with
  | fifo =>
    obtain ⟨rfl, hcreated⟩ := Classical.not_imp.mp hprepared
    simp only [StreamStartUp.step, Option.ite_none_right_eq_some, Option.some.injEq] at hstep
    obtain ⟨_, rfl⟩ := hstep
    exact hsafe.client_opens (if_neg hcreated)
  | pipe =>
    obtain ⟨rfl, hblocked⟩ := Classical.not_imp.mp hprepared
    simp only [StreamStartUp.step, Option.ite_none_right_eq_some, Option.some.injEq] at hstep
    obtain ⟨hclient, rfl⟩ := hstep
    cases h with
    | quiet hserver _ _ =>
      rcases hserver.behind_or_killed with ⟨_, hp⟩ | ⟨_, _, _, hkilled⟩
      · exact hblocked (by rw [hp]; rfl)
      · exact hsafe.server_alive (if_pos (by
          rw [Group.notifyServer, Group.kill, hkilled]
          rfl))
    | notified _ hwait => simp [hclient] at hwait

end Phase

/-- In every order of the calls, with a fifo left behind or not, the start-up of `fifo` and of
`pipe` is safe exactly when the one thing it leaves to chance goes well: in `fifo` that the
client opens the fifo only when it is there, in `pipe` that the client sends its first signal
only when the server has blocked it. Then nobody is terminated and nothing fails, and when
the client waits, the group stands as the exchange begins with. -/
theorem startUp_safe_iff (b : Stream.Benchmark) (created : Bool) (actions : List Action)
    (s : State) (hrun : run (step b) (start b created) actions = some s) :
    Throughout (step b) Safe (start b created) actions ↔
      Meets (step b) (Prepared b) (start b created) actions := by
  apply throughout_iff_meets (Phase b) (fun h => h.safe) _ _ (phase_start b created) hrun
  · intro s a t h hprepared hstep
    exact h.step hprepared hstep
  · intro s a t h hprepared hstep
    exact h.not_safe hprepared hstep

/-- A start-up of `fifo` in which the client is ready long before the server. -/
theorem startUp_safe_iff_late_server :
    Throughout (step .fifo) Safe (start .fifo false)
      [.clientSetup, .clientSetup, .serverSetup, .serverSetup, .serverMkfifo, .clientOpen,
        .serverOpen, .clientOpened, .clientNotify, .serverOpened] := by
  refine (startUp_safe_iff .fifo false _
    ⟨.ready true false, true, .loop, .wait⟩ (by decide)).mpr ?_
  decide

end IpcBench.StreamStartUp
