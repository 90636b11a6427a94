import IpcBench.Stream.Protocol

/-!
# The wake-ups and the data of `fifo` and `pipe` stay in step

A round passes through nine phases, and in each of them exactly one process can go
on. A signal is sent only when none of its kind is pending, so no two of them merge,
and the client is woken only when the timestamp is already in the stream.
-/

namespace IpcBench.Stream

open Lib

/-- Where the round stands: what is pending, what the buffer and the stream contain,
and whose turn it is in the journal. -/
inductive Phase (s : State) : Prop where
  | resting (hclient : s.client = .notify ∨ s.client = .left) (hserver : s.server = .wait)
      (hlink : s.link.At false false) (hbuffer : s.buffer = []) (hstream : s.stream = [])
      (hjournal : s.journal.At .resting)
  | asked (hclient : s.client = .wait) (hserver : s.server = .wait)
      (hlink : s.link.At true false) (hbuffer : s.buffer = []) (hstream : s.stream = [])
      (hjournal : s.journal.At .asked)
  | woken (hclient : s.client = .wait) (hserver : s.server = .stamp)
      (hlink : s.link.At false false) (hbuffer : s.buffer = []) (hstream : s.stream = [])
      (hjournal : s.journal.At .asked)
  | stamped (timestamp : UInt64) (hclient : s.client = .wait)
      (hserver : s.server = .write timestamp) (hlink : s.link.At false false)
      (hbuffer : s.buffer = []) (hstream : s.stream = [])
      (hjournal : s.journal.At (.stamped timestamp))
  | written (timestamp : UInt64) (hclient : s.client = .wait) (hserver : s.server = .flush)
      (hlink : s.link.At false false) (hbuffer : s.buffer = wordBytes timestamp)
      (hstream : s.stream = []) (hjournal : s.journal.At (.stamped timestamp))
  | flushed (timestamp : UInt64) (hclient : s.client = .wait) (hserver : s.server = .notify)
      (hlink : s.link.At false false) (hbuffer : s.buffer = [])
      (hstream : s.stream = wordBytes timestamp) (hjournal : s.journal.At (.stamped timestamp))
  | answered (timestamp : UInt64) (hclient : s.client = .wait) (hserver : s.server = .wait)
      (hlink : s.link.At false true) (hbuffer : s.buffer = [])
      (hstream : s.stream = wordBytes timestamp) (hjournal : s.journal.At (.stamped timestamp))
  | reading (timestamp : UInt64) (hclient : s.client = .read) (hserver : s.server = .wait)
      (hlink : s.link.At false false) (hbuffer : s.buffer = [])
      (hstream : s.stream = wordBytes timestamp) (hjournal : s.journal.At (.stamped timestamp))
  | received (hclient : s.client = .bench) (hserver : s.server = .wait)
      (hlink : s.link.At false false) (hbuffer : s.buffer = []) (hstream : s.stream = [])
      (hjournal : s.journal.At (.received s.bench.singleStart))

/-- The first round has not begun. -/
theorem phase_start (bench : Benchmarks) : Phase (start bench) :=
  .resting (Or.inl rfl) rfl SignalLink.at_start rfl rfl Journal.at_empty

namespace Phase

variable {b : Benchmark} {s t : State}

/-- The client asks. -/
theorem clientNotify (h : Phase s) (hstep : step b s .clientNotify = some t) : Phase t := by
  obtain ⟨hclient, rfl⟩ := step_clientNotify hstep
  cases h with
  | resting _ hserver hlink hbuffer hstream hjournal =>
    exact .asked rfl hserver hlink.notifyServer hbuffer hstream hjournal.ask
  | _ => simp_all

/-- The client is woken only by an answer. -/
theorem clientWait (h : Phase s) (hstep : step b s .clientWait = some t) : Phase t := by
  obtain ⟨hclient, link, hwait, rfl⟩ := step_clientWait hstep
  cases h with
  | answered timestamp _ hserver hlink hbuffer hstream hjournal =>
    exact .reading timestamp rfl hserver (hlink.clientWait hwait).2 hbuffer hstream hjournal
  | asked _ _ hlink | woken _ _ hlink | stamped _ _ _ hlink | written _ _ _ hlink
  | flushed _ _ _ hlink => exact absurd (hlink.clientWait hwait).1 (by simp)
  | resting hidle => simp [hclient] at hidle
  | reading _ hread => simp [hclient] at hread
  | received hbench => simp [hclient] at hbench

/-- The client reads the one timestamp in the stream. -/
theorem clientRead (h : Phase s) (hstep : step b s .clientRead = some t) : Phase t := by
  obtain ⟨hclient, _, rfl⟩ := step_clientRead hstep
  cases h with
  | reading timestamp _ hserver hlink hbuffer hstream hjournal =>
    have htake : s.stream.take 8 = wordBytes timestamp := by
      rw [hstream, List.take_of_length_le (Nat.le_of_eq (length_wordBytes timestamp))]
    have hdrop : s.stream.drop 8 = [] := by
      rw [hstream, List.drop_of_length_le (Nat.le_of_eq (length_wordBytes timestamp))]
    simp only [htake, hdrop, ofWordBytes_wordBytes]
    exact .received rfl hserver hlink hbuffer rfl hjournal.receive
  | _ => simp_all

/-- The client records its sample. -/
theorem clientBenchmark {now : UInt64} (h : Phase s)
    (hstep : step b s (.clientBenchmark now) = some t) : Phase t := by
  obtain ⟨hclient, rfl⟩ := step_clientBenchmark hstep
  cases h with
  | received _ hserver hlink hbuffer hstream hjournal =>
    exact .resting (Or.inl rfl) hserver hlink hbuffer hstream (hjournal.sample now)
  | _ => simp_all

/-- The client leaves its loop. -/
theorem clientLeave (h : Phase s) (hstep : step b s .clientLeave = some t) : Phase t := by
  obtain ⟨hclient, rfl⟩ := step_clientLeave hstep
  cases h with
  | resting _ hserver hlink hbuffer hstream hjournal =>
    exact .resting (Or.inr rfl) hserver hlink hbuffer hstream hjournal
  | _ => simp_all

/-- The server is woken only by a question. -/
theorem serverWait (h : Phase s) (hstep : step b s .serverWait = some t) : Phase t := by
  obtain ⟨hserver, link, hwait, rfl⟩ := step_serverWait hstep
  cases h with
  | asked hclient _ hlink hbuffer hstream hjournal =>
    exact .woken hclient rfl (hlink.serverWait hwait).2 hbuffer hstream hjournal
  | resting _ _ hlink | answered _ _ _ hlink | reading _ _ _ hlink | received _ _ hlink =>
    exact absurd (hlink.serverWait hwait).1 (by simp)
  | woken _ hbusy | stamped _ _ hbusy | written _ _ hbusy | flushed _ _ hbusy =>
    simp [hserver] at hbusy

/-- The server takes its timestamp. -/
theorem serverStamp {now : UInt64} (h : Phase s)
    (hstep : step b s (.serverStamp now) = some t) : Phase t := by
  obtain ⟨hserver, rfl⟩ := step_serverStamp hstep
  cases h with
  | woken hclient _ hlink hbuffer hstream hjournal =>
    exact .stamped now hclient rfl hlink hbuffer hstream (hjournal.stamp now)
  | _ => simp_all

/-- The server writes into its empty buffer. -/
theorem serverWrite (h : Phase s) (hstep : step b s .serverWrite = some t) : Phase t := by
  obtain ⟨timestamp, hserver, rfl⟩ := step_serverWrite hstep
  cases h with
  | stamped taken hclient hwrite hlink hbuffer hstream hjournal =>
    obtain rfl : taken = timestamp := ServerPc.write.inj (hwrite.symm.trans hserver)
    refine .written taken hclient rfl hlink ?_ hstream hjournal
    rw [hbuffer, List.nil_append]
  | _ => simp_all

/-- The server flushes its buffer into the empty stream. -/
theorem serverFlush (h : Phase s) (hstep : step b s .serverFlush = some t) : Phase t := by
  obtain ⟨hserver, rfl⟩ := step_serverFlush hstep
  cases h with
  | written timestamp hclient _ hlink hbuffer hstream hjournal =>
    refine .flushed timestamp hclient rfl hlink rfl ?_ hjournal
    rw [hstream, hbuffer, List.nil_append]
  | _ => simp_all

/-- The server answers. -/
theorem serverNotify (h : Phase s) (hstep : step b s .serverNotify = some t) : Phase t := by
  obtain ⟨hserver, rfl⟩ := step_serverNotify hstep
  cases h with
  | flushed timestamp hclient _ hlink hbuffer hstream hjournal =>
    exact .answered timestamp hclient rfl hlink.notifyClient hbuffer hstream hjournal
  | _ => simp_all

/-- Every step leads from one phase to another. -/
theorem step {a : Action} (h : Phase s) (hstep : Stream.step b s a = some t) : Phase t := by
  cases a with
  | clientNotify => exact h.clientNotify hstep
  | clientWait => exact h.clientWait hstep
  | clientRead => exact h.clientRead hstep
  | clientBenchmark now => exact h.clientBenchmark hstep
  | clientLeave => exact h.clientLeave hstep
  | serverWait => exact h.serverWait hstep
  | serverStamp now => exact h.serverStamp hstep
  | serverWrite => exact h.serverWrite hstep
  | serverFlush => exact h.serverFlush hstep
  | serverNotify => exact h.serverNotify hstep

/-- In every phase both processes are alive, and every notification has been waited
for or is the one pending. -/
theorem link_at (h : Phase s) : ∃ toServer toClient, s.link.At toServer toClient := by
  cases h with
  | resting _ _ hlink | asked _ _ hlink | woken _ _ hlink | stamped _ _ _ hlink
  | written _ _ _ hlink | flushed _ _ _ hlink | answered _ _ _ hlink | reading _ _ _ hlink
  | received _ _ hlink => exact ⟨_, _, hlink⟩

/-- In every phase the answers match the questions. -/
theorem paired (h : Phase s) : s.journal.Paired := by
  cases h with
  | resting _ _ _ _ _ hjournal | asked _ _ _ _ _ hjournal | woken _ _ _ _ _ hjournal
  | stamped _ _ _ _ _ _ hjournal | written _ _ _ _ _ _ hjournal
  | flushed _ _ _ _ _ _ hjournal | answered _ _ _ _ _ _ hjournal
  | reading _ _ _ _ _ _ hjournal | received _ _ _ _ _ hjournal => exact hjournal.toPaired

/-- The stream is empty or holds one timestamp. -/
theorem stream_eq (h : Phase s) :
    s.stream = [] ∨ ∃ timestamp, s.stream = wordBytes timestamp := by
  cases h with
  | resting _ _ _ _ hstream | asked _ _ _ _ hstream | woken _ _ _ _ hstream
  | stamped _ _ _ _ _ hstream | written _ _ _ _ _ hstream | received _ _ _ _ hstream =>
    exact Or.inl hstream
  | flushed timestamp _ _ _ _ hstream | answered timestamp _ _ _ _ hstream
  | reading timestamp _ _ _ _ hstream => exact Or.inr ⟨timestamp, hstream⟩

/-- A client that is about to read finds eight bytes. -/
theorem stream_of_read (h : Phase s) (hclient : s.client = .read) : s.stream.length = 8 := by
  cases h with
  | reading timestamp _ _ _ _ hstream => rw [hstream, length_wordBytes]
  | resting hidle => simp [hclient] at hidle
  | asked hwait | woken hwait | stamped _ hwait | written _ hwait | flushed _ hwait
  | answered _ hwait | received hwait => simp [hclient] at hwait

/-- No error branch is taken. -/
theorem not_thrown (h : Phase s) : s.client ≠ .thrown ∧ s.server ≠ .thrown := by
  cases h with
  | resting hclient hserver => rcases hclient with hclient | hclient <;> simp [hclient, hserver]
  | asked hclient hserver | woken hclient hserver | stamped _ hclient hserver
  | written _ hclient hserver | flushed _ hclient hserver | answered _ hclient hserver
  | reading _ hclient hserver | received hclient hserver => simp [hclient, hserver]

/-- Until the client leaves its loop one of the processes can go on. -/
theorem not_stuck (h : Phase s) (hopen : s.client ≠ .left) : ¬ Stuck (Stream.step b) s := by
  intro hstuck
  cases h with
  | resting hclient =>
    have hnotify := hstuck .clientNotify
    rcases hclient with hclient | hclient
    · simp [Stream.step, hclient] at hnotify
    · exact hopen hclient
  | asked _ hserver hlink =>
    obtain ⟨link, hwait⟩ := Option.isSome_iff_exists.mp hlink.serverWait_isSome
    have hnext := hstuck .serverWait
    simp [Stream.step, hserver, hwait] at hnext
  | woken _ hserver =>
    have hstamp := hstuck (.serverStamp 0)
    simp [Stream.step, hserver] at hstamp
  | stamped _ _ hserver =>
    have hwrite := hstuck .serverWrite
    simp [Stream.step, hserver] at hwrite
  | written _ _ hserver _ hbuffer hstream =>
    have hflush := hstuck .serverFlush
    simp [Stream.step, hserver, hbuffer, hstream, pipeCapacity] at hflush
  | flushed _ _ hserver =>
    have hnotify := hstuck .serverNotify
    simp [Stream.step, hserver] at hnotify
  | answered _ hclient _ hlink =>
    obtain ⟨link, hwait⟩ := Option.isSome_iff_exists.mp hlink.clientWait_isSome
    have hnext := hstuck .clientWait
    simp [Stream.step, hclient, hwait] at hnext
  | reading _ hclient _ _ _ hstream =>
    have hread := hstuck .clientRead
    simp [Stream.step, hclient, hstream, fread] at hread
  | received hclient =>
    have hbench := hstuck (.clientBenchmark 0)
    simp [Stream.step, hclient] at hbench

end Phase

/-- The signal-paced hand-off of `fifo` and `pipe`, for every interleaving and any
number of rounds: both processes stay alive and every notification has been waited
for or is the one that is pending, so none is lost to merging; the stream is empty or
holds one timestamp, and a client about to read finds one; the `k`-th value read is
the server's `k`-th timestamp, taken after `k` questions; no error branch is taken;
and until the client leaves its loop one of the processes can go on. -/
theorem stream_handoff (b : Benchmark) (bench : Benchmarks) (actions : List Action) (s : State)
    (hrun : run (step b) (start bench) actions = some s) :
    (∃ toServer toClient : Bool, s.link.group = .ready toServer toClient ∧
        s.link.clientNotifies = s.link.serverWaits + toServer.toNat ∧
        s.link.serverNotifies = s.link.clientWaits + toClient.toNat) ∧
      (s.stream = [] ∨ ∃ timestamp, s.stream = wordBytes timestamp) ∧
      (s.client = .read → s.stream.length = 8) ∧
      (∀ (k : ℕ) value, s.journal.received[k]? = some value →
        s.journal.stamps[k]? = some (value, k + 1)) ∧
      s.client ≠ .thrown ∧ s.server ≠ .thrown ∧
      (s.client ≠ .left → ¬ Stuck (step b) s) := by
  have h := run_invariant Phase (fun h hstep => h.step hstep) (phase_start bench) hrun
  obtain ⟨toServer, toClient, hgroup, htoServer, htoClient⟩ := h.link_at
  exact ⟨⟨toServer, toClient, hgroup, htoServer, htoClient⟩, h.stream_eq, h.stream_of_read,
    fun k value hvalue => h.paired.stamp_of_received hvalue, h.not_thrown.1, h.not_thrown.2,
    h.not_stuck⟩

/-- The first round of `fifo`. -/
theorem stream_handoff_first_round :
    ∃ s, run (step .fifo) (start ⟨0, 0, 0, 0, 0, 0, 0⟩)
        [.clientNotify, .serverWait, .serverStamp 700, .serverWrite, .serverFlush,
          .serverNotify, .clientWait, .clientRead] = some s ∧
      s.journal.received = [700] ∧ s.journal.stamps[0]? = some (700, 1) := by
  refine ⟨_, rfl, rfl, ?_⟩
  exact (stream_handoff .fifo ⟨0, 0, 0, 0, 0, 0, 0⟩
    [.clientNotify, .serverWait, .serverStamp 700, .serverWrite, .serverFlush,
      .serverNotify, .clientWait, .clientRead] _ rfl).2.2.2.1 0 700 rfl

end IpcBench.Stream
