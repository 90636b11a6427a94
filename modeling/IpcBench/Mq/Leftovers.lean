import IpcBench.Mq.Refinement

/-!
# What earlier runs of `mq` leave behind

The loop of the server has no end, and the queue is removed only behind it: every run leaves
its server waiting at the queue, and the next run finds the same queue. A server takes any
message of the type of a request. If the request is longer than it expects, its `msgrcv` fails
and the request stays; if it is shorter, the server throws and the request is gone.
-/

namespace IpcBench.Mq

open Lib

/-- A server with the message size of its own run. -/
structure Process where
  size : ℕ
  pc : ServerPc
  message : Message
  deriving DecidableEq, Repr

/-- The processes of a run, and the servers that earlier runs have left. -/
structure Crowd where
  state : State
  others : List Process
  deriving DecidableEq, Repr

/-- A step of this run, or of one of the other servers. -/
inductive CrowdAction where
  | own (a : Action)
  | other (i : ℕ) (a : Action)
  deriving DecidableEq, Repr

/-- Whether it is a server that takes the step. -/
def Action.ofServer : Action → Bool
  | .serverReceive | .serverStamp _ | .serverFill | .serverSend => true
  | .clientFill | .clientSend | .clientReceive | .clientBenchmark _ | .clientLeave => false

/-- The queue and the client, with another server in the place of the own one. -/
def Crowd.focus (c : Crowd) (p : Process) : State :=
  { c.state with server := p.pc, atServer := p.message }

/-- What a step of another server has changed. -/
def Crowd.unfocus (c : Crowd) (i size : ℕ) (t : State) : Crowd :=
  ⟨{ t with server := c.state.server, atServer := c.state.atServer },
    c.others.set i ⟨size, t.server, t.atServer⟩⟩

/-- One step. Every server receives messages of its own size. -/
def crowdStep (limits : QueueLimits) (size : ℕ) (c : Crowd) : CrowdAction → Option Crowd
  | .own a => (step limits size c.state a).map fun state => { c with state := state }
  | .other i a =>
      if a.ofServer then
        c.others[i]?.bind fun p =>
          (step limits p.size (c.focus p) a).map (c.unfocus i p.size)
      else none

/-- The next run: a new client and a new server at the queue as it is. -/
def Crowd.next (size : ℕ) (c : Crowd) (atClient atServer : Message) (bench : Benchmarks) : Crowd :=
  ⟨{ start atClient atServer bench with queue := c.state.queue },
    ⟨size, c.state.server, c.state.atServer⟩ :: c.others⟩

/-- What can be reached in a run with messages of `size` bytes after runs with messages of
earlier sizes, the last one first. A run begins when the client of the run before has left. -/
inductive Reachable (limits : QueueLimits) : ℕ → List ℕ → Crowd → Prop where
  | first (size : ℕ) (atClient atServer : Message) (bench : Benchmarks) :
      Reachable limits size [] ⟨start atClient atServer bench, []⟩
  | step {size : ℕ} {earlier : List ℕ} {c d : Crowd} {a : CrowdAction}
      (h : Reachable limits size earlier c) (hstep : crowdStep limits size c a = some d) :
      Reachable limits size earlier d
  | next {size : ℕ} {earlier : List ℕ} {c : Crowd} (size' : ℕ) (atClient atServer : Message)
      (bench : Benchmarks) (h : Reachable limits size earlier c)
      (hleft : c.state.client = .left) :
      Reachable limits size' (size :: earlier) (c.next size atClient atServer bench)

/-- A server that waits for a request, or has thrown. -/
def Process.Idle (p : Process) : Prop := p.pc = .receive ∨ p.pc = .thrown

/-- Where the processes stand: this run's server or another one of the same size is at work,
or nobody is; or the request was too short for whoever has received it. -/
inductive Crowd.Inv (size : ℕ) (c : Crowd) : Prop where
  | own (hinv : Mq.Inv size c.state) (hidle : ∀ p ∈ c.others, p.Idle)
  | other (i : ℕ) (p : Process) (hp : c.others[i]? = some p) (hsize : p.size = size)
      (hbusy : p.pc ≠ .receive) (hown : c.state.server = .receive)
      (hinv : Mq.Inv size (c.focus p))
      (hidle : ∀ j q, j ≠ i → c.others[j]? = some q → q.Idle)
  | lost (hclient : c.state.client = .receive) (hserver : c.state.server = .receive)
      (hqueue : c.state.queue = []) (hjournal : c.state.journal.At .asked)
      (hidle : ∀ p ∈ c.others, p.Idle) (hlarge : ∃ p ∈ c.others, size < p.size)

section Facts

variable {limits : QueueLimits} {size k : ℕ} {s : State}

/-- A server that waits does not look at its message object. -/
theorem Inv.of_receive (h : Inv size s) (hserver : s.server = .receive) (message : Message) :
    Inv size { s with server := .receive, atServer := message } := by
  refine ⟨?_, h.foreign⟩
  cases h.phase with
  | resting hclient _ hqueue hjournal => exact .resting hclient rfl hqueue hjournal
  | filled hclient _ hqueue hmessage hjournal => exact .filled hclient rfl hqueue hmessage hjournal
  | requested hclient _ hqueue hjournal => exact .requested hclient rfl hqueue hjournal
  | replied timestamp hclient _ hqueue hjournal =>
    exact .replied timestamp hclient rfl hqueue hjournal
  | received hclient _ hqueue hjournal => exact .received hclient rfl hqueue hjournal
  | woken _ hother | stamped _ _ hother | ready _ _ hother => simp [hserver] at hother

/-- While a server is at work, the client waits at an empty queue. -/
theorem Inv.of_busy (h : Inv size s) (hserver : s.server ≠ .receive) :
    s.client = .receive ∧ s.queue = [] := by
  cases h.phase with
  | woken hclient _ hqueue | stamped _ hclient _ hqueue | ready _ hclient _ hqueue =>
    exact ⟨hclient, hqueue⟩
  | resting _ hother | filled _ hother | requested _ hother | replied _ _ hother
  | received _ hother => exact absurd hother hserver

/-- Whoever can receive a request finds the one of this run. -/
theorem Inv.requested_of_receive (h : Inv size s) (hserver : s.server = .receive)
    (hsome : msgrcv k clientMessage s.queue ≠ none) :
    s.client = .receive ∧ s.queue = [request size] ∧ s.journal.At .asked := by
  cases h.phase with
  | requested hclient _ hqueue hjournal => exact ⟨hclient, hqueue, hjournal⟩
  | replied timestamp _ _ hqueue =>
    rw [hqueue, msgrcv_singleton_ne k (by simp [reply, types_ne.symm])] at hsome
    exact absurd rfl hsome
  | resting _ _ hqueue | filled _ _ hqueue | received _ _ hqueue =>
    rw [hqueue, msgrcv_nil] at hsome
    exact absurd rfl hsome
  | woken _ hother | stamped _ _ hother | ready _ _ hother => simp [hserver] at hother

/-- Nobody can do anything when both sides wait at an empty queue. -/
theorem step_of_waiting (hclient : s.client = .receive) (hserver : s.server = .receive)
    (hqueue : s.queue = []) (a : Action) : step limits size s a = none := by
  cases a with
  | clientReceive | serverReceive => simp [step, hclient, hserver, hqueue, msgrcv_nil]
  | clientFill | clientSend | clientBenchmark now | clientLeave => simp [step, hclient]
  | serverStamp now | serverFill | serverSend => simp [step, hserver]

/-- A server that has thrown does nothing. -/
theorem step_of_thrown (hserver : s.server = .thrown) {a : Action} (ha : a.ofServer = true) :
    step limits size s a = none := by
  cases a with
  | serverReceive | serverStamp now | serverFill | serverSend => simp [step, hserver]
  | clientFill | clientSend | clientReceive | clientBenchmark now | clientLeave => cases ha

/-- A waiting server can only receive. -/
theorem eq_serverReceive (hserver : s.server = .receive) {a : Action} (ha : a.ofServer = true)
    {t : State} (hstep : step limits size s a = some t) : a = .serverReceive := by
  cases a with
  | serverReceive => rfl
  | serverStamp now | serverFill | serverSend => simp [step, hserver] at hstep
  | clientFill | clientSend | clientReceive | clientBenchmark now | clientLeave => cases ha

/-- A request that is too short is received, and the server throws. -/
theorem serverReceive_short (limits : QueueLimits) (hserver : s.server = .receive)
    (hqueue : s.queue = [request size]) (hshort : size < k) :
    step limits k s .serverReceive =
      some { s with
        queue := []
        atServer := s.atServer.receive (some (request size))
        receipts := s.receipts ++ receipt .server (some (request size))
        server := .thrown } := by
  have hlength : (request size).payload.length = size := List.length_replicate
  have hsingle := msgrcv_singleton (hlength.le.trans hshort.le)
  rw [hlength] at hsingle
  have hreceived : msgrcv k clientMessage [request size] =
    some ((size : ℤ), some (request size), []) := hsingle
  rw [step, if_pos hserver, hqueue, hreceived, Option.map_some]
  simp only [if_pos (show (size : ℤ) < k by exact_mod_cast hshort)]

/-- A request that is too long stays in the queue, and the server throws. -/
theorem serverReceive_long (limits : QueueLimits) (hserver : s.server = .receive)
    (hqueue : s.queue = [request size]) (hlong : k < size) :
    step limits k s .serverReceive = some { s with server := .thrown } := by
  have hreceived : msgrcv k clientMessage [request size] = some (-1, none, [request size]) := by
    simp [msgrcv, request, hlong]
  rw [step, if_pos hserver, hqueue, hreceived, Option.map_some]
  simp only [Message.receive, receipt, List.append_nil, if_pos (show (-1 : ℤ) < k by omega)]

end Facts

section Steps

variable {limits : QueueLimits} {size i : ℕ} {c d : Crowd} {p x : Process}

/-- Whoever is idle finds nothing in an empty queue. -/
theorem Process.Idle.step_eq_none (h : p.Idle) (hclient : c.state.client = .receive)
    (hqueue : c.state.queue = []) {a : Action} (ha : a.ofServer = true) :
    step limits p.size (c.focus p) a = none := by
  rcases h with hreceive | hthrown
  · exact step_of_waiting (s := c.focus p) hclient hreceive hqueue a
  · exact step_of_thrown (s := c.focus p) hthrown ha

/-- One server has become idle, and all the others are. -/
theorem idle_set {others : List Process}
    (hidle : ∀ j q, j ≠ i → others[j]? = some q → q.Idle) (hx : x.Idle) :
    ∀ q ∈ others.set i x, q.Idle := by
  intro q hmem
  obtain ⟨j, hj⟩ := List.mem_iff_getElem?.mp hmem
  by_cases hij : j = i
  · subst hij
    simp only [List.getElem?_set_self', Option.map_eq_map, Option.map_eq_some_iff,
      Function.const_apply] at hj
    obtain ⟨_, _, rfl⟩ := hj
    exact hx
  · rw [List.getElem?_set_ne (Ne.symm hij)] at hj
    exact hidle j q hij hj

/-- The server at work takes a step. -/
theorem Crowd.Inv.busy_steps (hp : c.others[i]? = some p) (hsize : p.size = size)
    (hown : c.state.server = .receive) (hidle : ∀ j q, j ≠ i → c.others[j]? = some q → q.Idle)
    {t : State} (hinv : Mq.Inv size t) : (c.unfocus i p.size t).Inv size := by
  by_cases hserver : t.server = .receive
  · refine .own ?_ (idle_set hidle (Or.inl hserver))
    rw [Crowd.unfocus, hown]
    exact hinv.of_receive hserver c.state.atServer
  · refine .other i ⟨p.size, t.server, t.atServer⟩ ?_ hsize hserver hown hinv ?_
    · rw [Crowd.unfocus, List.getElem?_set_self', hp]
      rfl
    · intro j q hij hq
      rw [Crowd.unfocus, List.getElem?_set_ne (Ne.symm hij)] at hq
      exact hidle j q hij hq

/-- An idle server receives the request: nothing has happened if it is too long, the server
answers if it has the right length, and the request is lost if it is too short. -/
theorem Crowd.Inv.other_receives (hinv : Mq.Inv size c.state) (hidle : ∀ p ∈ c.others, p.Idle)
    (hlimits : Admissible limits) (hsize : size ≤ maximumMessageSize)
    (hp : c.others[i]? = some p) {a : Action} (ha : a.ofServer = true) {t : State}
    (hstep : step limits p.size (c.focus p) a = some t) :
    (c.unfocus i p.size t).Inv size := by
  have hpidle := hidle p (List.mem_of_getElem? hp)
  have hrest : ∀ j q, j ≠ i → c.others[j]? = some q → q.Idle :=
    fun j q _ hq => hidle q (List.mem_of_getElem? hq)
  have hpc : (c.focus p).server = .receive := by
    rcases hpidle with hreceive | hthrown
    · exact hreceive
    · rw [step_of_thrown (s := c.focus p) hthrown ha] at hstep
      cases hstep
  obtain rfl := eq_serverReceive (s := c.focus p) hpc ha hstep
  by_cases hown : c.state.server = .receive
  · have hsome : msgrcv p.size clientMessage c.state.queue ≠ none := by
      intro hnone
      have hfocus : (c.focus p).queue = c.state.queue := rfl
      rw [step, if_pos hpc, hfocus, hnone] at hstep
      cases hstep
    obtain ⟨hclient, hqueue, hjournal⟩ := hinv.requested_of_receive hown hsome
    rcases lt_trichotomy p.size size with hlong | heq | hshort
    · rw [serverReceive_long limits (s := c.focus p) hpc hqueue hlong, Option.some.injEq] at hstep
      subst hstep
      exact .own hinv (idle_set hrest (Or.inr rfl))
    · have hfocused : Mq.Inv size (c.focus p) := by
        have hwaiting := hinv.of_receive hown p.message
        rw [← hpc] at hwaiting
        exact hwaiting
      rw [heq] at hstep
      exact Crowd.Inv.busy_steps hp heq hown hrest (hfocused.step hlimits hsize hstep)
    · rw [serverReceive_short limits (s := c.focus p) hpc hqueue hshort, Option.some.injEq] at hstep
      subst hstep
      refine .lost hclient hown rfl hjournal (idle_set hrest (Or.inr rfl)) ?_
      obtain ⟨hi, _⟩ := List.getElem?_eq_some_iff.mp hp
      exact ⟨_, List.mem_set hi _, hshort⟩
  · obtain ⟨hclient, hqueue⟩ := hinv.of_busy hown
    rw [hpidle.step_eq_none hclient hqueue rfl] at hstep
    cases hstep

/-- This run's processes do what they do without the others. -/
theorem crowdStep_own {a : Action} {t : State} (hstep : step limits size c.state a = some t) :
    crowdStep limits size c (.own a) = some { c with state := t } := by
  rw [crowdStep, hstep]
  rfl

/-- Another server takes a step. -/
theorem crowdStep_other {a : Action} (ha : a.ofServer = true)
    (hp : c.others[i]? = some p) {t : State} (hstep : step limits p.size (c.focus p) a = some t) :
    crowdStep limits size c (.other i a) = some (c.unfocus i p.size t) := by
  rw [crowdStep, if_pos ha, hp, Option.bind_some, hstep]
  rfl

/-- A step belongs to this run, or to one of the other servers. -/
theorem crowdStep_cases {a : CrowdAction} (hstep : crowdStep limits size c a = some d) :
    (∃ b t, a = .own b ∧ step limits size c.state b = some t ∧ d = { c with state := t }) ∨
      ∃ i b p t, a = .other i b ∧ b.ofServer = true ∧ c.others[i]? = some p ∧
        step limits p.size (c.focus p) b = some t ∧ d = c.unfocus i p.size t := by
  cases a with
  | own b =>
    simp only [crowdStep, Option.map_eq_some_iff] at hstep
    obtain ⟨t, hstep, rfl⟩ := hstep
    exact .inl ⟨b, t, rfl, hstep, rfl⟩
  | other i b =>
    simp only [crowdStep, Option.ite_none_right_eq_some, Option.bind_eq_some_iff,
      Option.map_eq_some_iff] at hstep
    obtain ⟨hb, p, hp, t, hstep, rfl⟩ := hstep
    exact .inr ⟨i, b, p, t, rfl, hb, hp, hstep, rfl⟩

/-- A lost request stops everything. -/
theorem Crowd.stuck (hclient : c.state.client = .receive) (hserver : c.state.server = .receive)
    (hqueue : c.state.queue = []) (hidle : ∀ p ∈ c.others, p.Idle) :
    Stuck (crowdStep limits size) c := by
  intro a
  by_contra hsome
  obtain ⟨d, hstep⟩ := Option.ne_none_iff_exists'.mp hsome
  rcases crowdStep_cases hstep with ⟨b, t, _, htaken, _⟩ |
      ⟨i, b, p, t, _, hb, hp, htaken, _⟩
  · rw [step_of_waiting hclient hserver hqueue] at htaken
    cases htaken
  · rw [(hidle p (List.mem_of_getElem? hp)).step_eq_none hclient hqueue hb] at htaken
    cases htaken

/-- Every step, of whatever process, keeps the invariant. -/
theorem Crowd.Inv.step {a : CrowdAction} (h : c.Inv size) (hlimits : Admissible limits)
    (hsize : size ≤ maximumMessageSize) (hstep : crowdStep limits size c a = some d) :
    d.Inv size := by
  cases h with
  | own hinv hidle =>
    rcases crowdStep_cases hstep with ⟨b, t, _, htaken, rfl⟩ |
        ⟨i, b, p, t, _, hb, hp, htaken, rfl⟩
    · exact .own (hinv.step hlimits hsize htaken) hidle
    · exact Crowd.Inv.other_receives hinv hidle hlimits hsize hp hb htaken
  | other j p hp hpsize hbusy hown hinv hidle =>
    obtain ⟨hclient, hqueue⟩ := hinv.of_busy hbusy
    rcases crowdStep_cases hstep with ⟨b, t, _, htaken, rfl⟩ |
        ⟨i, b, q, t, _, hb, hq, htaken, rfl⟩
    · rw [step_of_waiting (s := c.state) hclient hown hqueue] at htaken
      cases htaken
    · by_cases hij : i = j
      · subst hij
        obtain rfl := Option.some.inj (hq.symm.trans hp)
        rw [hpsize] at htaken
        exact Crowd.Inv.busy_steps hq hpsize hown hidle (hinv.step hlimits hsize htaken)
      · rw [(hidle i q hij hq).step_eq_none hclient hqueue hb] at htaken
        cases htaken
  | lost hclient hserver hqueue _ hidle =>
    rw [Crowd.stuck hclient hserver hqueue hidle] at hstep
    cases hstep

/-- No server changes its size. -/
theorem sizes_step {a : CrowdAction} (hstep : crowdStep limits size c a = some d) :
    d.others.map Process.size = c.others.map Process.size := by
  rcases crowdStep_cases hstep with ⟨b, t, _, _, rfl⟩ | ⟨i, b, p, t, _, _, hp, _, rfl⟩
  · rfl
  · obtain ⟨hi, rfl⟩ := List.getElem?_eq_some_iff.mp hp
    rw [Crowd.unfocus, List.map_set]
    apply List.ext_getElem
    · simp
    · intro j _ _
      by_cases hij : i = j
      · subst hij
        simp
      · simp [List.getElem_set_ne hij]

/-- Once its client has left, a run has left nothing in the queue, and its server waits. -/
theorem Crowd.Inv.of_left (h : c.Inv size) (hleft : c.state.client = .left) :
    c.state.queue = [] ∧ c.state.server = .receive ∧ ∀ p ∈ c.others, p.Idle := by
  cases h with
  | own hinv hidle =>
    cases hinv.phase with
    | resting _ hserver hqueue => exact ⟨hqueue, hserver, hidle⟩
    | _ => simp_all
  | other j p _ _ hbusy _ hinv =>
    have hclient : c.state.client = .receive := (hinv.of_busy hbusy).1
    simp [hleft] at hclient
  | lost hclient => simp [hleft] at hclient

/-- In every run the processes stand as the invariant says, and the other servers have the
sizes of the earlier runs. -/
theorem Reachable.inv {earlier : List ℕ} (h : Reachable limits size earlier c)
    (hlimits : Admissible limits) (hsizes : ∀ n ∈ size :: earlier, n ≤ maximumMessageSize) :
    c.Inv size ∧ c.others.map Process.size = earlier := by
  induction h with
  | first size atClient atServer bench =>
    exact ⟨.own (inv_start size atClient atServer bench) (by simp), rfl⟩
  | step _ hstep ih =>
    obtain ⟨hinv, hmap⟩ := ih hsizes
    exact ⟨hinv.step hlimits (hsizes _ List.mem_cons_self) hstep, (sizes_step hstep).trans hmap⟩
  | next size' atClient atServer bench _ hleft ih =>
    obtain ⟨hinv, hmap⟩ := ih fun n hmem => hsizes n (List.mem_cons_of_mem _ hmem)
    obtain ⟨hqueue, hserver, hidle⟩ := hinv.of_left hleft
    refine ⟨.own ?_ ?_, by rw [Crowd.next, List.map_cons, hmap]⟩
    · rw [Crowd.next, hqueue]
      exact inv_start size' atClient atServer bench
    · intro p hmem
      rcases List.mem_cons.mp hmem with rfl | hmem
      · exact Or.inl hserver
      · exact hidle p hmem

end Steps

section Answers

variable {limits : QueueLimits} {size i : ℕ} {s : State} {c : Crowd}

/-- A timestamp that has been taken is received. -/
theorem Inv.answered_of_stamped {timestamp : UInt64} (h : Inv size s)
    (hlimits : Admissible limits) (hclient : s.client = .receive)
    (hjournal : s.journal.At (.stamped timestamp)) :
    ∃ actions t, run (Mq.step limits size) s actions = some t ∧ t.client = .bench := by
  obtain ⟨t, ⟨actions, hrun, _⟩, ⟨⟨_, _, hdoing⟩, hsending⟩⟩ :=
    reaches_receive hlimits h hclient hjournal
  exact ⟨actions, t, hrun, (client_eq hsending).2.2 hdoing⟩

/-- With a server of its own size, a client that waits can be answered. -/
theorem Inv.answered (h : Inv size s) (hlimits : Admissible limits)
    (hclient : s.client = .receive) :
    ∃ actions t, run (Mq.step limits size) s actions = some t ∧ t.client = .bench := by
  cases h.phase with
  | requested _ _ _ hjournal | woken _ _ _ hjournal =>
    obtain ⟨u, ⟨first, hfirst, _⟩, ⟨⟨hinv, _, hdoing, hstamped⟩, hsending⟩⟩ :=
      reaches_stamp limits h hclient hjournal 0
    obtain ⟨second, t, hsecond, hend⟩ :=
      hinv.answered_of_stamped hlimits ((client_eq hsending).2.1 hdoing) hstamped
    exact ⟨first ++ second, t, run_append hfirst hsecond, hend⟩
  | stamped _ _ _ _ hjournal | ready _ _ _ _ _ hjournal | replied _ _ _ _ hjournal =>
    exact h.answered_of_stamped hlimits hclient hjournal
  | resting hother =>
    rcases hother with hother | hother <;> simp [hclient] at hother
  | filled hother | received hother => simp [hclient] at hother

/-- The client sees another server of its size in the place of its own. -/
def Stands (size i : ℕ) (s : State) (c : Crowd) : Prop :=
  ∃ p, c.others[i]? = some p ∧ p.size = size ∧ c.focus p = s

/-- Who takes the steps of a run in which another server answers. -/
def CrowdAction.standIn (i : ℕ) (a : Action) : CrowdAction :=
  if a.ofServer then .other i a else .own a

/-- A step of the client neither depends on the server nor changes it. -/
theorem step_client {a : Action} (ha : a.ofServer = false) (pc : ServerPc) (message : Message)
    {t : State} (hstep : step limits size { s with server := pc, atServer := message } a = some t) :
    t.server = pc ∧ t.atServer = message ∧
      step limits size s a = some { t with server := s.server, atServer := s.atServer } := by
  cases a with
  | clientFill | clientBenchmark now | clientLeave =>
    simp only [step, Option.ite_none_right_eq_some, Option.some.injEq] at hstep ⊢
    obtain ⟨hclient, rfl⟩ := hstep
    exact ⟨rfl, rfl, hclient, rfl⟩
  | clientSend =>
    simp only [step, Option.ite_none_right_eq_some, Option.map_eq_some_iff] at hstep ⊢
    obtain ⟨hclient, ⟨code, queue⟩, hsent, rfl⟩ := hstep
    refine ⟨?_, ?_, hclient, ⟨code, queue⟩, hsent, ?_⟩
    all_goals dsimp only; split <;> rfl
  | clientReceive =>
    simp only [step, Option.ite_none_right_eq_some, Option.map_eq_some_iff] at hstep ⊢
    obtain ⟨hclient, ⟨code, received, queue⟩, hreceived, rfl⟩ := hstep
    refine ⟨?_, ?_, hclient, ⟨code, received, queue⟩, hreceived, ?_⟩
    all_goals dsimp only; split <;> rfl
  | serverReceive | serverStamp now | serverFill | serverSend => cases ha

/-- The other server does what the own one would do. -/
theorem Stands.step {a : Action} {t : State} (h : Stands size i s c)
    (hstep : Mq.step limits size s a = some t) :
    ∃ d, crowdStep limits size c (.standIn i a) = some d ∧ Stands size i t d := by
  obtain ⟨p, hp, rfl, rfl⟩ := h
  cases ha : a.ofServer with
  | true =>
    refine ⟨c.unfocus i p.size t, ?_, ⟨p.size, t.server, t.atServer⟩, ?_, rfl, rfl⟩
    · rw [CrowdAction.standIn, if_pos ha]
      exact crowdStep_other ha hp hstep
    · rw [Crowd.unfocus, List.getElem?_set_self', hp]
      rfl
  | false =>
    obtain ⟨hpc, hmessage, hown⟩ := step_client ha p.pc p.message hstep
    refine ⟨{ c with state := { t with server := c.state.server, atServer := c.state.atServer } },
      ?_, p, hp, rfl, ?_⟩
    · rw [CrowdAction.standIn, if_neg (by simp [ha])]
      exact crowdStep_own hown
    · rw [Crowd.focus, ← hpc, ← hmessage]

/-- Unless its request is lost, a client that waits can be answered. -/
theorem Crowd.Inv.answered (h : c.Inv size) (hlimits : Admissible limits)
    (hclient : c.state.client = .receive) (hsmall : ∀ p ∈ c.others, p.size ≤ size) :
    ∃ actions d, run (crowdStep limits size) c actions = some d ∧ d.state.client = .bench := by
  cases h with
  | own hinv =>
    obtain ⟨actions, t, hrun, hend⟩ := hinv.answered hlimits hclient
    obtain ⟨d, hlifted, rfl⟩ := exists_run_of_keeping_up (fun s (d : Crowd) => d.state = s)
      CrowdAction.own (by rintro _ d a t rfl hstep; exact ⟨_, crowdStep_own hstep, rfl⟩) rfl hrun
    exact ⟨_, d, hlifted, hend⟩
  | other i p hp hsize hbusy _ hinv =>
    obtain ⟨actions, t, hrun, hend⟩ := hinv.answered hlimits hclient
    obtain ⟨d, hlifted, q, _, _, rfl⟩ :=
      exists_run_of_keeping_up (Stands size i) (CrowdAction.standIn i) Stands.step
        ⟨p, hp, hsize, rfl⟩ hrun
    exact ⟨_, d, hlifted, hend⟩
  | lost _ _ _ _ _ hlarge =>
    obtain ⟨p, hmem, hlarger⟩ := hlarge
    exact absurd (hsmall p hmem) (Nat.not_le.mpr hlarger)

end Answers

section Loss

variable {limits : QueueLimits} {size : ℕ} {earlier : List ℕ}

/-- A run after others whose clients have left at once. -/
def fresh (earlier : List ℕ) (bench : Benchmarks) : Crowd :=
  ⟨start ⟨0, []⟩ ⟨0, []⟩ bench, earlier.map fun size => ⟨size, .receive, ⟨0, []⟩⟩⟩

theorem reachable_fresh (limits : QueueLimits) (size : ℕ) (earlier : List ℕ) (bench : Benchmarks) :
    Reachable limits size earlier (fresh earlier bench) := by
  induction earlier generalizing size with
  | nil => exact .first size ⟨0, []⟩ ⟨0, []⟩ bench
  | cons last earlier ih =>
    have hleave : crowdStep limits last (fresh earlier bench) (.own .clientLeave) = some _ := rfl
    exact .next size ⟨0, []⟩ ⟨0, []⟩ bench ((ih last).step hleave) rfl

/-- This run asks before any other server has moved. -/
theorem exists_asked (hlimits : Admissible limits) (hsize : size ≤ maximumMessageSize)
    (earlier : List ℕ) :
    ∃ c, Reachable limits size earlier c ∧ c.state.client = .receive ∧
      c.state.server = .receive ∧ c.state.queue = [request size] ∧
      c.others = earlier.map fun size => ⟨size, .receive, ⟨0, []⟩⟩ := by
  have hfresh := reachable_fresh limits size earlier ⟨0, 0, 0, 0, 0, 0, 0⟩
  have hfill :
    step limits size (start ⟨0, []⟩ ⟨0, []⟩ ⟨0, 0, 0, 0, 0, 0, 0⟩) .clientFill = some _ := rfl
  have hmessage := (⟨0, []⟩ : Message).sent_fill clientMessage (List.replicate size '1'.toUInt8)
    .client
  rw [List.length_replicate] at hmessage
  have hsend := clientSend_eq (s := { start ⟨0, []⟩ ⟨0, []⟩ ⟨0, 0, 0, 0, 0, 0, 0⟩ with
    client := .send
    atClient := (⟨0, []⟩ : Message).fill clientMessage (List.replicate size '1'.toUInt8) })
    hlimits hsize rfl rfl hmessage
  exact ⟨_, (hfresh.step (crowdStep_own hfill)).step (crowdStep_own hsend), rfl, rfl, rfl, rfl⟩

/-- After a run with larger messages a request can be lost. -/
theorem exists_lost (hlimits : Admissible limits) (hsize : size ≤ maximumMessageSize)
    {larger : ℕ} (hmem : larger ∈ earlier) (hlarger : size < larger) :
    ∃ c, Reachable limits size earlier c ∧ c.state.client = .receive ∧
      Stuck (crowdStep limits size) c := by
  obtain ⟨c, hreachable, hclient, hserver, hqueue, hothers⟩ := exists_asked hlimits hsize earlier
  obtain ⟨i, hi⟩ := List.mem_iff_getElem?.mp hmem
  have hidle : ∀ p ∈ c.others, p.Idle := by
    rw [hothers]
    rintro p hp
    obtain ⟨n, _, rfl⟩ := List.mem_map.mp hp
    exact Or.inl rfl
  have hp : c.others[i]? = some ⟨larger, .receive, ⟨0, []⟩⟩ := by
    rw [hothers, List.getElem?_map, hi]
    rfl
  have htaken := serverReceive_short limits (s := c.focus ⟨larger, .receive, ⟨0, []⟩⟩) rfl hqueue
    hlarger
  refine ⟨_, hreachable.step (crowdStep_other rfl hp htaken), hclient,
    Crowd.stuck hclient hserver rfl ?_⟩
  exact idle_set (fun j q _ hq => hidle q (List.mem_of_getElem? hq)) (Or.inr rfl)

end Loss

/-- `mq`, run again and again at one queue, with every number of servers that earlier runs have
left and every interleaving of all of them: the queue holds at most one message, neither the
client nor the server of this run throws, and whichever server answers, the `k`-th value the
client receives is the `k`-th timestamp, taken after the `k`-th request was sent. -/
theorem paired_among_servers (limits : QueueLimits) (size : ℕ) (earlier : List ℕ) (c : Crowd)
    (hlimits : Admissible limits) (hsizes : ∀ n ∈ size :: earlier, n ≤ maximumMessageSize)
    (hreachable : Reachable limits size earlier c) :
    c.state.queue.length ≤ 1 ∧ (c.state.client ≠ .thrown ∧ c.state.server ≠ .thrown) ∧
      ∀ (k : ℕ) value, c.state.journal.received[k]? = some value →
        c.state.journal.stamps[k]? = some (value, k + 1) := by
  cases (hreachable.inv hlimits hsizes).1 with
  | own hinv =>
    exact ⟨hinv.phase.queue_length_le, hinv.phase.not_thrown,
      fun k value => hinv.phase.paired.stamp_of_received⟩
  | other i p _ _ _ hown hinv =>
    exact ⟨hinv.phase.queue_length_le, ⟨hinv.phase.not_thrown.1, by simp [hown]⟩,
      fun k value => hinv.phase.paired.stamp_of_received⟩
  | lost hclient hserver hqueue hjournal =>
    exact ⟨by simp [hqueue], by simp [hclient, hserver],
      fun k value => hjournal.toPaired.stamp_of_received⟩

/-- The server of an earlier run answers, and the server of this run has nothing to do. -/
def answeredByOther : List CrowdAction :=
  [.own .clientFill, .own .clientSend, .other 0 .serverReceive, .other 0 (.serverStamp 700),
    .other 0 .serverFill, .other 0 .serverSend, .own .clientReceive]

/-- With the limits of the system and messages of nine bytes, the value that the client
receives from the server of an earlier run. -/
theorem paired_among_servers_other_server :
    ∃ c, Reachable ⟨8192, 16384⟩ 9 [9] c ∧ c.state.journal.received = [700] ∧
      c.state.journal.stamps[0]? = some (700, 1) := by
  have hanswered : (run (crowdStep ⟨8192, 16384⟩ 9) (fresh [9] ⟨0, 0, 50, 0, 0, 0, 0⟩)
      answeredByOther).map (fun c => c.state.journal.received) = some [700] := by
    decide +kernel
  obtain ⟨c, hrun, hreceived⟩ := Option.map_eq_some_iff.mp hanswered
  have hreachable := run_invariant (Reachable ⟨8192, 16384⟩ 9 [9]) (fun h hstep => h.step hstep)
    (reachable_fresh ⟨8192, 16384⟩ 9 [9] ⟨0, 0, 50, 0, 0, 0, 0⟩) hrun
  refine ⟨c, hreachable, hreceived, ?_⟩
  exact (paired_among_servers ⟨8192, 16384⟩ 9 [9] c ⟨by decide, by decide⟩ (by decide)
    hreachable).2.2 0 700 (by rw [hreceived]; rfl)

/-- `mq`, run again and again at one queue: a client that waits can be answered in whatever
state this run has reached if and only if no earlier run had larger messages. A server that
such a run has left takes the request for too short, throws it away and ends. -/
theorem requests_answered_iff (limits : QueueLimits) (size : ℕ) (earlier : List ℕ)
    (hlimits : Admissible limits) (hsizes : ∀ n ∈ size :: earlier, n ≤ maximumMessageSize) :
    (∀ c, Reachable limits size earlier c → c.state.client = .receive →
        ∃ actions d, run (crowdStep limits size) c actions = some d ∧ d.state.client = .bench) ↔
      ∀ n ∈ earlier, n ≤ size := by
  constructor
  · intro hanswered larger hmem
    by_contra hlarger
    obtain ⟨c, hreachable, hclient, hstuck⟩ := exists_lost hlimits
      (hsizes size List.mem_cons_self) hmem (Nat.not_le.mp hlarger)
    obtain ⟨actions, d, hrun, hend⟩ := hanswered c hreachable hclient
    cases actions with
    | nil =>
      obtain rfl : c = d := by simpa using hrun
      simp [hclient] at hend
    | cons a actions => simp [run, hstuck a] at hrun
  · intro hsmall c hreachable hclient
    obtain ⟨hinv, hmap⟩ := hreachable.inv hlimits hsizes
    refine hinv.answered hlimits hclient fun p hmem => hsmall p.size ?_
    rw [← hmap]
    exact List.mem_map_of_mem hmem

/-- Messages of nine bytes are answered after a run with five bytes, and not always after one
with a hundred. -/
theorem requests_answered_iff_after_larger :
    (∀ c, Reachable ⟨8192, 16384⟩ 9 [5] c → c.state.client = .receive →
        ∃ actions d, run (crowdStep ⟨8192, 16384⟩ 9) c actions = some d ∧
          d.state.client = .bench) ∧
      ¬ ∀ c, Reachable ⟨8192, 16384⟩ 9 [100, 5] c → c.state.client = .receive →
        ∃ actions d, run (crowdStep ⟨8192, 16384⟩ 9) c actions = some d ∧
          d.state.client = .bench := by
  rw [requests_answered_iff ⟨8192, 16384⟩ 9 [5] ⟨by decide, by decide⟩ (by decide),
    requests_answered_iff ⟨8192, 16384⟩ 9 [100, 5] ⟨by decide, by decide⟩ (by decide)]
  decide

end IpcBench.Mq
