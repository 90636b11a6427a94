import IpcBench.Mq.Exchange

/-!
# Requests and replies of `mq` stay paired

A round passes through eight phases. In each of them the queue is empty or contains one
message, so whoever sends finds the queue empty, and whoever receives finds only a message
of the type it asks for.
-/

namespace IpcBench.Mq

open Lib

/-- The system lets the largest message through, and a queue holds one. -/
structure Admissible (limits : QueueLimits) : Prop where
  message : maximumMessageSize ≤ limits.message
  queue : maximumMessageSize ≤ limits.queue

/-- An admissible message is sent at once if the queue is empty. -/
theorem Admissible.msgsnd_eq {limits : QueueLimits} (h : Admissible limits)
    {message : QueueMessage ℤ UInt8 Party} (noWait : Bool)
    (hlength : message.payload.length ≤ maximumMessageSize) :
    msgsnd limits noWait [] message = some (0, [message]) :=
  msgsnd_nil noWait (hlength.trans h.message) (hlength.trans h.queue)
    (Nat.le_trans (by decide) h.queue)

/-- The request of the client as it stands in the queue. -/
def request (size : ℕ) : QueueMessage ℤ UInt8 Party :=
  ⟨clientMessage, List.replicate size '1'.toUInt8, .client⟩

/-- The reply of the server as it stands in the queue. -/
def reply (timestamp : UInt64) : QueueMessage ℤ UInt8 Party :=
  ⟨serverMessage, wordBytes timestamp, .server⟩

theorem types_ne : clientMessage ≠ serverMessage := by decide

/-- What has been filled in is what is sent. -/
theorem Message.sent_fill (message : Message) (type : ℤ) (bytes : List UInt8) (sender : Party) :
    (message.fill type bytes).sent bytes.length sender = ⟨type, bytes, sender⟩ := by
  rw [fill, sent, List.take_left]

/-- What has been received is at the start of the buffer. -/
theorem Message.take_receive (message : Message) (received : QueueMessage ℤ UInt8 Party) :
    (message.receive (some received)).buffer.take received.payload.length =
      received.payload := by
  rw [receive, fill, List.take_left]

/-- Where the round stands. -/
inductive Phase (size : ℕ) (s : State) : Prop where
  | resting (hclient : s.client = .fill ∨ s.client = .left) (hserver : s.server = .receive)
      (hqueue : s.queue = []) (hjournal : s.journal.At .resting)
  | filled (hclient : s.client = .send) (hserver : s.server = .receive) (hqueue : s.queue = [])
      (hmessage : s.atClient.sent size .client = request size) (hjournal : s.journal.At .resting)
  | requested (hclient : s.client = .receive) (hserver : s.server = .receive)
      (hqueue : s.queue = [request size]) (hjournal : s.journal.At .asked)
  | woken (hclient : s.client = .receive) (hserver : s.server = .stamp) (hqueue : s.queue = [])
      (hjournal : s.journal.At .asked)
  | stamped (timestamp : UInt64) (hclient : s.client = .receive)
      (hserver : s.server = .fill timestamp) (hqueue : s.queue = [])
      (hjournal : s.journal.At (.stamped timestamp))
  | ready (timestamp : UInt64) (hclient : s.client = .receive) (hserver : s.server = .send)
      (hqueue : s.queue = []) (hmessage : s.atServer.sent 8 .server = reply timestamp)
      (hjournal : s.journal.At (.stamped timestamp))
  | replied (timestamp : UInt64) (hclient : s.client = .receive) (hserver : s.server = .receive)
      (hqueue : s.queue = [reply timestamp]) (hjournal : s.journal.At (.stamped timestamp))
  | received (hclient : s.client = .bench) (hserver : s.server = .receive) (hqueue : s.queue = [])
      (hjournal : s.journal.At (.received s.bench.singleStart))

/-- Between any two steps the round stands somewhere, and nobody has received a message of
its own. -/
structure Inv (size : ℕ) (s : State) : Prop where
  phase : Phase size s
  foreign : ∀ receipt ∈ s.receipts, receipt.1 ≠ receipt.2

/-- The first round has not begun. -/
theorem inv_start (size : ℕ) (atClient atServer : Message) (bench : Benchmarks) :
    Inv size (start atClient atServer bench) :=
  ⟨.resting (Or.inl rfl) rfl rfl Journal.at_empty, by simp [start]⟩

namespace Inv

variable {limits : QueueLimits} {size : ℕ} {s t : State}

/-- A message from the other side is received. -/
theorem foreign_append (h : Inv size s) {receiver : Party}
    {received : QueueMessage ℤ UInt8 Party} (hne : receiver ≠ received.sender) :
    ∀ r ∈ s.receipts ++ receipt receiver (some received), r.1 ≠ r.2 := by
  intro r hmem
  rcases List.mem_append.mp hmem with hold | hnew
  · exact h.foreign r hold
  · obtain rfl := List.mem_singleton.mp hnew
    exact hne

/-- The client fills its message. -/
theorem clientFill (h : Inv size s) (hstep : step limits size s .clientFill = some t) :
    Inv size t := by
  simp only [step, Option.ite_none_right_eq_some, Option.some.injEq] at hstep
  obtain ⟨hclient, rfl⟩ := hstep
  refine ⟨?_, h.foreign⟩
  cases h.phase with
  | resting _ hserver hqueue hjournal =>
    refine .filled rfl hserver hqueue ?_ hjournal
    have hsent := s.atClient.sent_fill clientMessage (List.replicate size '1'.toUInt8) .client
    rwa [List.length_replicate] at hsent
  | _ => simp_all

/-- The client sends into an empty queue. -/
theorem clientSend (h : Inv size s) (hlimits : Admissible limits)
    (hsize : size ≤ maximumMessageSize) (hstep : step limits size s .clientSend = some t) :
    Inv size t := by
  simp only [step, Option.ite_none_right_eq_some] at hstep
  obtain ⟨hclient, hstep⟩ := hstep
  cases h.phase with
  | filled _ hserver hqueue hmessage hjournal =>
    have hlength : (request size).payload.length ≤ maximumMessageSize := by
      rwa [request, List.length_replicate]
    rw [hqueue, hmessage, hlimits.msgsnd_eq false hlength, Option.map_some,
      Option.some.injEq] at hstep
    subst hstep
    exact ⟨.requested rfl hserver rfl hjournal.ask, h.foreign⟩
  | _ => simp_all

/-- The client receives only a reply, and from it the timestamp. -/
theorem clientReceive (h : Inv size s) (hstep : step limits size s .clientReceive = some t) :
    Inv size t := by
  simp only [step, Option.ite_none_right_eq_some] at hstep
  obtain ⟨hclient, hstep⟩ := hstep
  cases h.phase with
  | replied timestamp _ hserver hqueue hjournal =>
    have hlength : (reply timestamp).payload.length = 8 := length_wordBytes timestamp
    have hreceived : msgrcv 8 serverMessage [reply timestamp] =
        some (8, some (reply timestamp), []) :=
      msgrcv_singleton (Nat.le_of_eq hlength)
    have hvalue : ofWordBytes ((s.atClient.receive (some (reply timestamp))).buffer.take 8) =
        timestamp := by
      rw [← hlength, Message.take_receive, reply, ofWordBytes_wordBytes]
    rw [hqueue, hreceived, Option.map_some, Option.some.injEq] at hstep
    simp only [hvalue] at hstep
    subst hstep
    exact ⟨.received rfl hserver rfl hjournal.receive, h.foreign_append (by simp [reply])⟩
  | requested _ _ hqueue =>
    rw [hqueue, msgrcv_singleton_ne 8 (by simp [request, types_ne])] at hstep
    cases hstep
  | woken _ _ hqueue | stamped _ _ _ hqueue | ready _ _ _ hqueue =>
    rw [hqueue, msgrcv_nil] at hstep
    cases hstep
  | _ => simp_all

/-- The client records its sample. -/
theorem clientBenchmark {now : UInt64} (h : Inv size s)
    (hstep : step limits size s (.clientBenchmark now) = some t) : Inv size t := by
  simp only [step, Option.ite_none_right_eq_some, Option.some.injEq] at hstep
  obtain ⟨hclient, rfl⟩ := hstep
  refine ⟨?_, h.foreign⟩
  cases h.phase with
  | received _ hserver hqueue hjournal =>
    exact .resting (Or.inl rfl) hserver hqueue (hjournal.sample now)
  | _ => simp_all

/-- The client leaves its loop. -/
theorem clientLeave (h : Inv size s) (hstep : step limits size s .clientLeave = some t) :
    Inv size t := by
  simp only [step, Option.ite_none_right_eq_some, Option.some.injEq] at hstep
  obtain ⟨hclient, rfl⟩ := hstep
  refine ⟨?_, h.foreign⟩
  cases h.phase with
  | resting _ hserver hqueue hjournal => exact .resting (Or.inr rfl) hserver hqueue hjournal
  | _ => simp_all

/-- The server receives only a request. -/
theorem serverReceive (h : Inv size s) (hstep : step limits size s .serverReceive = some t) :
    Inv size t := by
  simp only [step, Option.ite_none_right_eq_some] at hstep
  obtain ⟨hserver, hstep⟩ := hstep
  cases h.phase with
  | requested hclient _ hqueue hjournal =>
    have hlength : (request size).payload.length = size := List.length_replicate
    have hreceived : msgrcv size clientMessage [request size] =
        some ((size : ℤ), some (request size), []) := by
      have hsingle := msgrcv_singleton (Nat.le_of_eq hlength)
      rwa [hlength] at hsingle
    rw [hqueue, hreceived, Option.map_some, Option.some.injEq] at hstep
    simp only [Int.lt_irrefl, if_false] at hstep
    subst hstep
    exact ⟨.woken hclient rfl rfl hjournal, h.foreign_append (by simp [request])⟩
  | replied _ _ _ hqueue =>
    rw [hqueue, msgrcv_singleton_ne size (by simp [reply, types_ne.symm])] at hstep
    cases hstep
  | resting _ _ hqueue | filled _ _ hqueue | received _ _ hqueue =>
    rw [hqueue, msgrcv_nil] at hstep
    cases hstep
  | _ => simp_all

/-- The server takes its timestamp. -/
theorem serverStamp {now : UInt64} (h : Inv size s)
    (hstep : step limits size s (.serverStamp now) = some t) : Inv size t := by
  simp only [step, Option.ite_none_right_eq_some, Option.some.injEq] at hstep
  obtain ⟨hserver, rfl⟩ := hstep
  refine ⟨?_, h.foreign⟩
  cases h.phase with
  | woken hclient _ hqueue hjournal => exact .stamped now hclient rfl hqueue (hjournal.stamp now)
  | _ => simp_all

/-- The server rewrites the type and the first bytes of the request it has received. -/
theorem serverFill (h : Inv size s) (hstep : step limits size s .serverFill = some t) :
    Inv size t := by
  cases h.phase with
  | stamped timestamp hclient hserver hqueue hjournal =>
    simp only [step, hserver, Option.some.injEq] at hstep
    subst hstep
    refine ⟨.ready timestamp hclient rfl hqueue ?_ hjournal, h.foreign⟩
    have hsent := s.atServer.sent_fill serverMessage (wordBytes timestamp) .server
    rwa [length_wordBytes] at hsent
  | resting _ hserver | filled _ hserver | requested _ hserver | woken _ hserver
  | ready _ _ hserver | replied _ _ hserver | received _ hserver => simp [step, hserver] at hstep

/-- The server sends into an empty queue, so `IPC_NOWAIT` does not fail. -/
theorem serverSend (h : Inv size s) (hlimits : Admissible limits)
    (hstep : step limits size s .serverSend = some t) : Inv size t := by
  simp only [step, Option.ite_none_right_eq_some] at hstep
  obtain ⟨hserver, hstep⟩ := hstep
  cases h.phase with
  | ready timestamp hclient _ hqueue hmessage hjournal =>
    have hlength : (reply timestamp).payload.length ≤ maximumMessageSize := by
      rw [reply, length_wordBytes]
      decide
    rw [hqueue, hmessage, hlimits.msgsnd_eq true hlength, Option.map_some,
      Option.some.injEq] at hstep
    subst hstep
    exact ⟨.replied timestamp hclient rfl rfl hjournal, h.foreign⟩
  | _ => simp_all

/-- Every step keeps the invariant. -/
theorem step {a : Action} (h : Inv size s) (hlimits : Admissible limits)
    (hsize : size ≤ maximumMessageSize) (hstep : Mq.step limits size s a = some t) :
    Inv size t := by
  cases a with
  | clientFill => exact h.clientFill hstep
  | clientSend => exact h.clientSend hlimits hsize hstep
  | clientReceive => exact h.clientReceive hstep
  | clientBenchmark now => exact h.clientBenchmark hstep
  | clientLeave => exact h.clientLeave hstep
  | serverReceive => exact h.serverReceive hstep
  | serverStamp now => exact h.serverStamp hstep
  | serverFill => exact h.serverFill hstep
  | serverSend => exact h.serverSend hlimits hstep

end Inv

namespace Phase

variable {size : ℕ} {s : State}

/-- The queue never holds more than one message. -/
theorem queue_length_le (h : Phase size s) : s.queue.length ≤ 1 := by
  cases h with
  | requested _ _ hqueue | replied _ _ _ hqueue => simp [hqueue]
  | resting _ _ hqueue | filled _ _ hqueue | woken _ _ hqueue | stamped _ _ _ hqueue
  | ready _ _ _ hqueue | received _ _ hqueue => simp [hqueue]

/-- In no phase has a process thrown. -/
theorem not_thrown (h : Phase size s) : s.client ≠ .thrown ∧ s.server ≠ .thrown := by
  cases h with
  | resting hclient hserver => rcases hclient with hclient | hclient <;> simp [hclient, hserver]
  | filled hclient hserver | requested hclient hserver | woken hclient hserver
  | stamped _ hclient hserver | ready _ hclient hserver | replied _ hclient hserver
  | received hclient hserver => simp [hclient, hserver]

/-- In every phase the answers match the requests. -/
theorem paired (h : Phase size s) : s.journal.Paired := by
  cases h with
  | resting _ _ _ hjournal | filled _ _ _ _ hjournal | requested _ _ _ hjournal
  | woken _ _ _ hjournal | stamped _ _ _ _ hjournal | ready _ _ _ _ _ hjournal
  | replied _ _ _ _ hjournal | received _ _ _ hjournal => exact hjournal.toPaired

end Phase

/-- `mq`, for every size up to the maximum, every interleaving and any number of rounds, from
an empty queue of a system that lets the largest message through: the queue holds at most
one message, nobody receives a message of its own, neither a length check nor a send fails,
and the `k`-th value the client receives is the server's `k`-th timestamp, taken after the
`k`-th request was sent. -/
theorem mq_pairing (limits : QueueLimits) (size : ℕ) (atClient atServer : Message)
    (bench : Benchmarks) (actions : List Action) (s : State) (hlimits : Admissible limits)
    (hsize : size ≤ maximumMessageSize)
    (hrun : run (step limits size) (start atClient atServer bench) actions = some s) :
    s.queue.length ≤ 1 ∧
      (∀ receipt ∈ s.receipts, receipt.1 ≠ receipt.2) ∧
      (s.client ≠ .thrown ∧ s.server ≠ .thrown) ∧
      (∀ (k : ℕ) value, s.journal.received[k]? = some value →
        s.journal.stamps[k]? = some (value, k + 1)) := by
  have hinv := run_invariant (Inv size) (fun h hstep => h.step hlimits hsize hstep)
    (inv_start size atClient atServer bench) hrun
  exact ⟨hinv.phase.queue_length_le, hinv.foreign, hinv.phase.not_thrown,
    fun k value => hinv.phase.paired.stamp_of_received⟩

/-- One round; the client asks for the reply only after the server has sent it. -/
def oneRound : List Action :=
  [.clientFill, .clientSend, .serverReceive, .serverStamp 700, .serverFill, .serverSend,
    .clientReceive, .clientBenchmark 900]

/-- With the limits of the system, one round with messages of nine bytes. -/
theorem mq_pairing_one_round :
    ∃ s, run (step ⟨8192, 16384⟩ 9) (start ⟨0, []⟩ ⟨0, []⟩ ⟨0, 0, 50, 0, 0, 0, 0⟩) oneRound =
        some s ∧
      s.journal.received = [700] ∧ s.journal.stamps[0]? = some (700, 1) := by
  have hrun : run (step ⟨8192, 16384⟩ 9) (start ⟨0, []⟩ ⟨0, []⟩ ⟨0, 0, 50, 0, 0, 0, 0⟩) oneRound =
    some ⟨[], .fill, .receive, ⟨2, wordBytes 700 ++ ['1'.toUInt8]⟩,
      ⟨2, wordBytes 700 ++ ['1'.toUInt8]⟩, ⟨0, 700, 50, 200, 200, 0, 1⟩,
      ⟨1, [(700, 1)], [700], [(700, 900)], [700, 900]⟩,
      [(.server, .client), (.client, .server)]⟩ := by
    decide +kernel
  refine ⟨_, hrun, rfl, ?_⟩
  exact (mq_pairing _ 9 ⟨0, []⟩ ⟨0, []⟩ _ oneRound _ ⟨by decide, by decide⟩ (by decide)
    hrun).2.2.2 0 700 rfl

end IpcBench.Mq
