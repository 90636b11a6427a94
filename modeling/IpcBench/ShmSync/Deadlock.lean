import IpcBench.ShmSync.Protocol

/-!
# `shm-sync` always deadlocks

When the server returns from its first `sync_wait` it owns the mutex, and nothing ever
unlocks it. The second `sync_wait` of the server, in its first round, blocks on the mutex
that the server itself holds, and every `sync_wait` of the client blocks on it as well.
So no run finishes a single round of the server, and every run comes to an end.
-/

namespace IpcBench.ShmSync

open Lib

/-- A wait that returns leaves the mutex to its process. -/
theorem owner_of_syncWait {p : Process} {sync sync' : Monitor Process} {pc : WaitPc}
    (h : syncWait p sync pc = some (sync', none)) : sync'.owner = some p := by
  cases pc with
  | lock | beginWait => simp [syncWait] at h
  | endWait =>
    simp only [syncWait, Option.map_eq_some_iff, Prod.mk.injEq, and_true] at h
    obtain ⟨m, hwait, rfl⟩ := h
    exact (Monitor.owner_of_endWait hwait).2

/-- A process waits in vain while the other one owns the mutex. -/
theorem syncWait_blocked {p q : Process} {sync : Monitor Process} {pc : WaitPc}
    (howner : sync.owner = some q) (hne : q ≠ p) : syncWait p sync pc = none := by
  cases pc with
  | lock => simp [syncWait, Monitor.lock, howner]
  | beginWait => simp [syncWait, Monitor.beginWait, howner, hne]
  | endWait => simp [syncWait, Monitor.endWait, howner]

/-- A process that locks the mutex it owns waits in vain, too. -/
theorem syncWait_lock_blocked {p q : Process} {sync : Monitor Process}
    (howner : sync.owner = some q) : syncWait p sync .lock = none := by
  simp [syncWait, Monitor.lock, howner]

/-- The server is in its first wait, or it owns the mutex and has not finished the first
`sync_wait` of its loop. -/
inductive Inv (s : State) : Prop where
  | first (pc : WaitPc) (hserver : s.server = .first pc) (hmessage : s.message = 0)
  | owned (howner : s.sync.owner = some .server)
      (hserver : s.server ∈ [.setup, .stamp, .write, .notify, .wait .lock])
      (hmessage : s.message = 0)

/-- The invariant holds in front of `communicate`. -/
theorem inv_start (count size : ℕ) (bench : Benchmarks) : Inv (start count size bench) :=
  .first .lock rfl rfl

namespace Inv

variable {count size : ℕ} {s t : State}

/-- The first wait of the server may end, the second one does not begin. -/
theorem serverWait (h : Inv s) (hstep : step count size s .serverWait = some t) : Inv t := by
  cases h with
  | first pc hserver hmessage =>
    simp only [step, hserver, Option.map_eq_some_iff] at hstep
    obtain ⟨⟨sync, next⟩, hwait, rfl⟩ := hstep
    cases next with
    | some pc => exact .first pc rfl hmessage
    | none => exact .owned (owner_of_syncWait hwait) (by simp) hmessage
  | owned howner hserver _ =>
    simp only [List.mem_cons, List.not_mem_nil, or_false] at hserver
    rcases hserver with hserver | hserver | hserver | hserver | hserver <;>
      simp [step, hserver, syncWait_lock_blocked howner] at hstep

/-- The server enters its loop. -/
theorem serverSetup {now : UInt64} (h : Inv s) (hcount : 1 ≤ count)
    (hstep : step count size s (.serverSetup now) = some t) : Inv t := by
  simp only [step, Option.ite_none_right_eq_some, Option.some.injEq] at hstep
  obtain ⟨hserver, rfl⟩ := hstep
  cases h with
  | first _ hfirst => simp [hserver] at hfirst
  | owned howner _ hmessage =>
    refine .owned howner ?_ hmessage
    rw [serverHead, hmessage, if_pos (by omega)]
    simp

/-- The server notes the start of its sample. -/
theorem serverStamp {now : UInt64} (h : Inv s)
    (hstep : step count size s (.serverStamp now) = some t) : Inv t := by
  simp only [step, Option.ite_none_right_eq_some, Option.some.injEq] at hstep
  obtain ⟨hserver, rfl⟩ := hstep
  cases h with
  | first _ hfirst => simp [hserver] at hfirst
  | owned howner _ hmessage => exact .owned howner (by simp) hmessage

/-- The server writes its message. -/
theorem serverWrite (h : Inv s) (hstep : step count size s .serverWrite = some t) : Inv t := by
  simp only [step, Option.ite_none_right_eq_some, Option.some.injEq] at hstep
  obtain ⟨hserver, rfl⟩ := hstep
  cases h with
  | first _ hfirst => simp [hserver] at hfirst
  | owned howner _ hmessage => exact .owned howner (by simp) hmessage

/-- The server notifies and keeps the mutex. -/
theorem serverNotify (h : Inv s) (hstep : step count size s .serverNotify = some t) : Inv t := by
  cases h with
  | first _ hfirst => simp [step, hfirst] at hstep
  | owned howner hserver hmessage =>
    simp only [List.mem_cons, List.not_mem_nil, or_false] at hserver
    rcases hserver with hserver | hserver | hserver | hserver | hserver
    case inr.inr.inr.inl =>
      simp only [step, hserver, Option.some.injEq] at hstep
      subst hstep
      exact .owned ((Monitor.signal_owner _).trans howner) (by simp) hmessage
    all_goals simp [step, hserver] at hstep

/-- The client changes neither the server nor the owner of the mutex. -/
theorem of_client {sync : Monitor Process} {memory buffer : List UInt8} {client : ClientPc}
    {remaining : ℕ} (h : Inv s) (howner : s.sync.owner = some .server → sync.owner = some .server) :
    Inv { s with
      sync := sync
      memory := memory
      client := client
      remaining := remaining
      clientBuffer := buffer } := by
  cases h with
  | first pc hserver hmessage => exact .first pc hserver hmessage
  | owned hold hserver hmessage => exact .owned (howner hold) hserver hmessage

/-- The client notifies. -/
theorem clientNotify (h : Inv s) (hstep : step count size s .clientNotify = some t) : Inv t := by
  cases hclient : s.client with
  | begin | notify =>
    simp only [step, hclient, Option.some.injEq] at hstep
    subst hstep
    exact h.of_client fun howner => (Monitor.signal_owner _).trans howner
  | wait pc => simp [step, hclient] at hstep
  | read | write | done => simp [step, hclient] at hstep

/-- The client can only go on in a wait while the server does not own the mutex. -/
theorem clientWait (h : Inv s) (hstep : step count size s .clientWait = some t) : Inv t := by
  cases hclient : s.client with
  | wait pc =>
    simp only [step, hclient, Option.map_eq_some_iff] at hstep
    obtain ⟨⟨sync, next⟩, hwait, rfl⟩ := hstep
    have hfree : s.sync.owner = some .server → sync.owner = some .server := by
      intro howner
      rw [syncWait_blocked howner (by simp)] at hwait
      cases hwait
    cases next with
    | some pc => exact h.of_client hfree
    | none => exact h.of_client hfree
  | begin | notify | read | write | done => simp [step, hclient] at hstep

/-- Every step of either process keeps the invariant. -/
theorem step {a : Action} (h : Inv s) (hcount : 1 ≤ count)
    (hstep : ShmSync.step count size s a = some t) : Inv t := by
  cases a with
  | serverWait => exact h.serverWait hstep
  | serverSetup now => exact h.serverSetup hcount hstep
  | serverStamp now => exact h.serverStamp hstep
  | serverWrite => exact h.serverWrite hstep
  | serverNotify => exact h.serverNotify hstep
  | serverRead | serverBenchmark now =>
    simp only [ShmSync.step, Option.ite_none_right_eq_some] at hstep
    cases h with
    | first _ hfirst => simp [hfirst] at hstep
    | owned _ hserver => simp [hstep.1] at hserver
  | clientNotify => exact h.clientNotify hstep
  | clientWait => exact h.clientWait hstep
  | clientRead | clientWrite =>
    simp only [ShmSync.step, Option.ite_none_right_eq_some, Option.some.injEq] at hstep
    obtain ⟨_, rfl⟩ := hstep
    exact h.of_client id

/-- The server has not finished a round. -/
theorem not_done (h : Inv s) : s.server ≠ .done ∧ s.message = 0 := by
  cases h with
  | first pc hserver hmessage => exact ⟨by simp [hserver], hmessage⟩
  | owned _ hserver hmessage =>
    refine ⟨fun hdone => ?_, hmessage⟩
    simp [hdone] at hserver

end Inv

/-- How far a wait is from its end. -/
def WaitPc.rank : WaitPc → ℕ
  | .lock => 2
  | .beginWait => 1
  | .endWait => 0

/-- How far the server is from the end of its round. -/
def ServerPc.rank : ServerPc → ℕ
  | .first pc => 12 + pc.rank
  | .setup => 11
  | .stamp => 10
  | .write => 9
  | .notify => 8
  | .wait pc => 4 + pc.rank
  | .read => 3
  | .answer => 2
  | .bench => 1
  | .done => 0

/-- How far the client is from the end of its round. -/
def ClientPc.rank : ClientPc → ℕ
  | .begin => 7
  | .wait pc => 4 + pc.rank
  | .read => 3
  | .write => 2
  | .notify => 1
  | .done => 0

/-- What the two processes have left to do: every step makes it smaller. -/
def left (count : ℕ) (s : State) : ℕ :=
  10 * (count - s.message) + s.server.rank + (6 * s.remaining + s.client.rank)

/-- A step of a wait brings it closer to its end. -/
theorem rank_syncWait {p : Process} {sync sync' : Monitor Process} {pc pc' : WaitPc}
    (h : syncWait p sync pc = some (sync', some pc')) : pc'.rank < pc.rank := by
  cases pc with
  | lock | beginWait =>
    simp only [syncWait, Option.map_eq_some_iff, Prod.mk.injEq, Option.some.injEq] at h
    obtain ⟨_, _, _, rfl⟩ := h
    decide
  | endWait => simp [syncWait] at h

/-- Going to the head of its loop uses up the step of the server that leads there. -/
theorem rank_serverHead (count message : ℕ) :
    10 * (count - message) + (serverHead count message).rank < 10 * (count + 1 - message) + 1 := by
  unfold serverHead
  by_cases hmore : message < count
  · rw [if_pos hmore]
    simp only [ServerPc.rank]
    omega
  · rw [if_neg hmore]
    simp only [ServerPc.rank]
    omega

/-- Going to the head of its loop leaves the client at most at the beginning of a round. -/
theorem rank_clientHead (remaining : ℕ) :
    (clientHead remaining).rank ≤ 6 ∧ (remaining = 0 → (clientHead remaining).rank = 0) := by
  unfold clientHead
  by_cases hmore : remaining > 0
  · rw [if_pos hmore]
    exact ⟨Nat.le_refl 6, fun hzero => by omega⟩
  · rw [if_neg hmore]
    exact ⟨Nat.zero_le 6, fun _ => rfl⟩

/-- Every step of the server uses up something of what is left to do. -/
theorem left_lt_server {count size : ℕ} {s t : State} {a : Action}
    (hserver : a ∉ [.clientNotify, .clientWait, .clientRead, .clientWrite])
    (hstep : step count size s a = some t) : left count t < left count s := by
  cases a with
  | serverWait =>
    cases hpc : s.server with
    | first pc | wait pc =>
      simp only [step, hpc, Option.map_eq_some_iff] at hstep
      obtain ⟨⟨sync, next⟩, hwait, rfl⟩ := hstep
      cases next with
      | some pc' =>
        have hless := rank_syncWait hwait
        simp only [left, hpc, ServerPc.rank]
        omega
      | none =>
        simp only [left, hpc, ServerPc.rank]
        omega
    | _ => simp [step, hpc] at hstep
  | serverSetup now =>
    simp only [step, Option.ite_none_right_eq_some, Option.some.injEq] at hstep
    obtain ⟨hpc, rfl⟩ := hstep
    have hhead := rank_serverHead count s.message
    have hold : s.server.rank = 11 := by rw [hpc]; rfl
    simp only [left]
    omega
  | serverStamp now | serverWrite | serverRead =>
    simp only [step, Option.ite_none_right_eq_some, Option.some.injEq] at hstep
    obtain ⟨hpc, rfl⟩ := hstep
    simp [left, hpc, ServerPc.rank]
  | serverNotify =>
    cases hpc : s.server with
    | notify | answer =>
      simp only [step, hpc, Option.some.injEq] at hstep
      subst hstep
      simp [left, hpc, ServerPc.rank, WaitPc.rank]
    | _ => simp [step, hpc] at hstep
  | serverBenchmark now =>
    simp only [step, Option.ite_none_right_eq_some, Option.some.injEq] at hstep
    obtain ⟨hpc, rfl⟩ := hstep
    have hhead := rank_serverHead count (s.message + 1)
    have hold : s.server.rank = 1 := by rw [hpc]; rfl
    simp only [left]
    omega
  | clientNotify | clientWait | clientRead | clientWrite => simp at hserver

/-- Every step of the client uses up something of what is left to do. -/
theorem left_lt_client {count size : ℕ} {s t : State} {a : Action}
    (hclient : a ∈ [.clientNotify, .clientWait, .clientRead, .clientWrite])
    (hstep : step count size s a = some t) : left count t < left count s := by
  cases a with
  | clientNotify =>
    cases hpc : s.client with
    | begin =>
      simp only [step, hpc, Option.some.injEq] at hstep
      subst hstep
      have hhead := (rank_clientHead s.remaining).1
      have hold : s.client.rank = 7 := by rw [hpc]; rfl
      simp only [left]
      omega
    | notify =>
      simp only [step, hpc, Option.some.injEq] at hstep
      subst hstep
      have hhead := rank_clientHead (s.remaining - 1)
      have hold : s.client.rank = 1 := by rw [hpc]; rfl
      simp only [left]
      omega
    | _ => simp [step, hpc] at hstep
  | clientWait =>
    cases hpc : s.client with
    | wait pc =>
      simp only [step, hpc, Option.map_eq_some_iff] at hstep
      obtain ⟨⟨sync, next⟩, hwait, rfl⟩ := hstep
      cases next with
      | some pc' =>
        have hless := rank_syncWait hwait
        simp only [left, hpc, ClientPc.rank]
        omega
      | none =>
        simp only [left, hpc, ClientPc.rank]
        omega
    | _ => simp [step, hpc] at hstep
  | clientRead | clientWrite =>
    simp only [step, Option.ite_none_right_eq_some, Option.some.injEq] at hstep
    obtain ⟨hpc, rfl⟩ := hstep
    simp [left, hpc, ClientPc.rank]
  | _ => simp at hclient

/-- Every step uses up something of what is left to do. -/
theorem left_lt {count size : ℕ} {s t : State} {a : Action}
    (hstep : step count size s a = some t) : left count t < left count s := by
  by_cases hclient : a ∈ [.clientNotify, .clientWait, .clientRead, .clientWrite]
  · exact left_lt_client hclient hstep
  · exact left_lt_server hclient hstep

/-- What the two processes are meant to do in every run: until both have finished, one of
them can go on. -/
def NeverDeadlocks (count size : ℕ) (bench : Benchmarks) : Prop :=
  ∀ actions s, run (step count size) (start count size bench) actions = some s →
    ¬ (s.server = .done ∧ s.client = .done) → ¬ Stuck (step count size) s

/-- `shm-sync` is free of deadlocks for no positive count. In no run does the server
finish a single round; no run goes on for ever; and every run can be continued to a
state in which nothing is possible any more. -/
theorem always_deadlocks (count size : ℕ) (bench : Benchmarks) (hcount : 1 ≤ count) :
    ¬ NeverDeadlocks count size bench ∧
      ∀ actions s, run (step count size) (start count size bench) actions = some s →
        s.server ≠ .done ∧ s.message = 0 ∧ actions.length ≤ 16 * count + 21 ∧
        ∃ more t, run (step count size) s more = some t ∧ Stuck (step count size) t ∧
          t.server ≠ .done := by
  have hreach : ∀ {s : State}, Inv s → ∃ more t, run (step count size) s more = some t ∧
      Inv t ∧ Stuck (step count size) t := by
    intro s h
    exact exists_run_to_stuck Inv (left count)
      (fun h hstep => ⟨h.step hcount hstep, left_lt hstep⟩) h
  constructor
  · intro hfree
    obtain ⟨actions, t, hrun, h, hstuck⟩ := hreach (inv_start count size bench)
    exact hfree actions t hrun (fun hdone => h.not_done.1 hdone.1) hstuck
  · intro actions s hrun
    have h := run_invariant Inv (fun h hstep => h.step hcount hstep) (inv_start count size bench)
      hrun
    have hlength := length_add_measure_le (left count) (fun hstep => left_lt hstep) hrun
    have hstart : left count (start count size bench) = 16 * count + 21 := by
      simp only [left, start, ServerPc.rank, ClientPc.rank, WaitPc.rank]
      omega
    obtain ⟨more, t, hmore, ht, hstuck⟩ := hreach h
    exact ⟨h.not_done.1, h.not_done.2, by omega, more, t, hmore, hstuck, ht.not_done.1⟩

/-- One round of 4096 bytes. -/
theorem always_deadlocks_one_round : 1 ≤ 1 ∧ ¬ NeverDeadlocks 1 4096 ⟨0, 0, 0, 0, 0, 0, 0⟩ :=
  ⟨Nat.le_refl 1, (always_deadlocks 1 4096 ⟨0, 0, 0, 0, 0, 0, 0⟩ (Nat.le_refl 1)).1⟩

/-- The schedule in which no wake-up is lost: the server waits before the client
notifies. -/
def usualSchedule : List Action :=
  [.serverWait, .serverWait, .clientNotify, .serverWait, .serverSetup 1, .serverStamp 5,
    .serverWrite, .serverNotify]

/-- It ends with the server locking the mutex it owns and the client locking it as well. -/
theorem server_locks_twice :
    ∃ s, run (step 1 1) (start 1 1 ⟨0, 0, 0, 0, 0, 0, 0⟩) usualSchedule = some s ∧
      s.sync.owner = some .server ∧ s.server = .wait .lock ∧ s.client = .wait .lock ∧
      Stuck (step 1 1) s ∧ ¬ NeverDeadlocks 1 1 ⟨0, 0, 0, 0, 0, 0, 0⟩ := by
  have hrun : run (step 1 1) (start 1 1 ⟨0, 0, 0, 0, 0, 0, 0⟩) usualSchedule =
      some ⟨⟨some .server, [], []⟩, ['1'.toUInt8], .wait .lock, 0,
        ⟨1, 5, 2147483647, 0, 0, 0, 0⟩, [], .wait .lock, 1, []⟩ := by decide
  have hstuck : Stuck (step 1 1) ⟨⟨some .server, [], []⟩, ['1'.toUInt8], .wait .lock, 0,
      ⟨1, 5, 2147483647, 0, 0, 0, 0⟩, [], .wait .lock, 1, []⟩ := fun a => by cases a <;> rfl
  exact ⟨_, hrun, rfl, rfl, rfl, hstuck, fun hfree => hfree _ _ hrun (by decide) hstuck⟩

end IpcBench.ShmSync
