import IpcBench.Common.RoundTrip
import IpcBench.Stream.Handoff

/-!
# `fifo` and `pipe` are measured exchanges

The signals, the buffer of the server and the stream show themselves only through the
questions of the client, the timestamps of the server and what the client reads and
records, and these follow each other as if nothing had to be transported.
-/

namespace IpcBench.Stream

open Lib

/-- What an observer sees of a step. -/
def event (_ : State) (a : Action) (t : State) : Option (Event UInt64) :=
  match a with
  | .clientNotify => some .ask
  | .clientRead => if t.client = .bench then some (.receive t.bench.singleStart) else none
  | .clientBenchmark now => some (.sample now)
  | .clientLeave => some .leave
  | .serverStamp now => some (.stamp now)
  | .clientWait | .serverWait | .serverWrite | .serverFlush | .serverNotify => none

/-- What the client is doing. -/
def doing : ClientPc → Doing
  | .notify => .resting
  | .wait | .read => .waiting
  | .bench => .holding
  | .left => .gone
  | .thrown => .failed

/-- The state of both processes stands for a state of the exchange. -/
structure Shows (s : State) (x : Exchange UInt64 Benchmarks) : Prop where
  phase : Phase s
  agrees : x.Agrees s.bench (doing s.client) (s.journal.At .asked)
    fun value => s.journal.At (.stamped value)

theorem shows_start (bench : Benchmarks) : Shows (start bench) ⟨.resting, bench⟩ :=
  ⟨phase_start bench, rfl, rfl⟩

namespace Shows

variable {s t : State} {x : Exchange UInt64 Benchmarks}

/-- A client that waits for the answer to its question. -/
theorem eq_asked (h : Shows s x) (hdoing : doing s.client = .waiting)
    (hjournal : s.journal.At .asked) : x = ⟨.asked, s.bench⟩ :=
  h.agrees.eq_asked hdoing fun _ => hjournal.not_stamped_of_asked

/-- A client whose answer is under way. -/
theorem eq_stamped {timestamp : UInt64} (h : Shows s x) (hdoing : doing s.client = .waiting)
    (hjournal : s.journal.At (.stamped timestamp)) : x = ⟨.stamped timestamp, s.bench⟩ :=
  h.agrees.eq_stamped hdoing (fun hasked => hasked.not_stamped_of_asked hjournal)
    fun _ hother => hother.stamped_inj hjournal

/-- A step that changes neither what the client is doing nor its accumulator nor the journal
shows nothing. -/
theorem of_frame (h : Shows s x) (hphase : Phase t) (hdoing : doing t.client = doing s.client)
    (hbench : t.bench = s.bench) (hjournal : t.journal = s.journal) : Shows t x := by
  refine ⟨hphase, ?_⟩
  rw [hbench, hdoing, hjournal]
  exact h.agrees

end Shows

/-- The client reads the timestamp that is in the stream. -/
theorem clientRead_eq (b : Benchmark) {s : State} {timestamp : UInt64} (hclient : s.client = .read)
    (hstream : s.stream = wordBytes timestamp) :
    step b s .clientRead =
      some { s with
        stream := []
        client := .bench
        bench := storeStart s.bench timestamp
        journal := s.journal.receive timestamp } := by
  have htake : (wordBytes timestamp).take 8 = wordBytes timestamp :=
    List.take_of_length_le (Nat.le_of_eq (length_wordBytes timestamp))
  have hdrop : (wordBytes timestamp).drop 8 = [] :=
    List.drop_of_length_le (Nat.le_of_eq (length_wordBytes timestamp))
  have hpasses : b.freadFails 1 = false := by cases b <;> decide
  rw [step, if_pos hclient, hstream, fread, if_neg (by rw [length_wordBytes]; decide), htake, hdrop,
    Option.map_some]
  simp [afterRead, hpasses, storeStart, ofWordBytes_wordBytes]

/-- The server writes into its empty buffer. -/
theorem serverWrite_eq (b : Benchmark) {s : State} {timestamp : UInt64}
    (hserver : s.server = .write timestamp) (hbuffer : s.buffer = []) :
    step b s .serverWrite = some { s with buffer := wordBytes timestamp, server := .flush } := by
  have hpasses : b.fwriteFails 1 = false := by cases b <;> decide
  simp [step, hserver, fwrite, afterWrite, hpasses, hbuffer]

/-- The server flushes its buffer into the empty stream. -/
theorem serverFlush_eq (b : Benchmark) {s : State} {timestamp : UInt64}
    (hserver : s.server = .flush) (hbuffer : s.buffer = wordBytes timestamp)
    (hstream : s.stream = []) :
    step b s .serverFlush =
      some { s with buffer := [], stream := wordBytes timestamp, server := .notify } := by
  have hfits : s.stream.length + s.buffer.length ≤ pipeCapacity := by
    rw [hstream, hbuffer, length_wordBytes]
    decide
  rw [step, if_pos ⟨hserver, hfits⟩, hstream, hbuffer, List.nil_append]

/-- Every step of `fifo` and `pipe` shows what the exchange does. -/
theorem refines (b : Benchmark) : Refines (step b) event measured Shows := by
  intro s a t x h hstep
  have hphase := h.phase.step hstep
  cases a with
  | clientNotify =>
    obtain ⟨hclient, rfl⟩ := step_clientNotify hstep
    obtain rfl := h.agrees.eq_resting (by rw [hclient]; rfl)
    cases h.phase with
    | resting _ _ _ _ _ hjournal => exact ⟨⟨.asked, s.bench⟩, rfl, hphase, rfl, rfl, hjournal.ask⟩
    | _ => simp_all
  | clientWait =>
    obtain ⟨hclient, link, _, rfl⟩ := step_clientWait hstep
    exact ⟨x, rfl, h.of_frame hphase (by rw [hclient]; rfl) rfl rfl⟩
  | clientRead =>
    obtain ⟨hclient, _⟩ := step_clientRead hstep
    cases h.phase with
    | reading timestamp _ _ _ _ hstream hjournal =>
      rw [clientRead_eq b hclient hstream, Option.some.injEq] at hstep
      subst hstep
      obtain rfl := h.eq_stamped (by rw [hclient]; rfl) hjournal
      refine ⟨⟨.received timestamp, storeStart s.bench timestamp⟩, ?_, hphase, rfl, rfl⟩
      simp [event, run, measured, Exchange.next, storeStart]
    | _ => simp_all
  | clientBenchmark now =>
    obtain ⟨hclient, rfl⟩ := step_clientBenchmark hstep
    obtain ⟨value, rfl⟩ := h.agrees.eq_received (by rw [hclient]; rfl)
    exact ⟨⟨.resting, benchmark s.bench now⟩, rfl, hphase, rfl, rfl⟩
  | clientLeave =>
    obtain ⟨hclient, rfl⟩ := step_clientLeave hstep
    obtain rfl := h.agrees.eq_resting (by rw [hclient]; rfl)
    exact ⟨⟨.left, s.bench⟩, rfl, hphase, rfl, rfl⟩
  | serverWait =>
    obtain ⟨_, link, _, rfl⟩ := step_serverWait hstep
    exact ⟨x, rfl, h.of_frame hphase rfl rfl rfl⟩
  | serverStamp now =>
    obtain ⟨hserver, rfl⟩ := step_serverStamp hstep
    cases h.phase with
    | woken hclient _ _ _ _ hjournal =>
      have hdoing : doing s.client = .waiting := by
        rw [hclient]
        rfl
      obtain rfl := h.eq_asked hdoing hjournal
      exact ⟨⟨.stamped now, s.bench⟩, rfl, hphase, rfl, hdoing, hjournal.stamp now⟩
    | _ => simp_all
  | serverWrite =>
    obtain ⟨timestamp, _, rfl⟩ := step_serverWrite hstep
    exact ⟨x, rfl, h.of_frame hphase rfl rfl rfl⟩
  | serverFlush =>
    obtain ⟨_, rfl⟩ := step_serverFlush hstep
    exact ⟨x, rfl, h.of_frame hphase rfl rfl rfl⟩
  | serverNotify =>
    obtain ⟨_, rfl⟩ := step_serverNotify hstep
    exact ⟨x, rfl, h.of_frame hphase rfl rfl rfl⟩

section Answers

variable {s : State} {timestamp : UInt64}

/-- A server that has been woken takes a timestamp. -/
theorem reaches_stamp_of_woken (b : Benchmark) (h : Phase s) (hclient : s.client = .wait)
    (hserver : s.server = .stamp) (hjournal : s.journal.At .asked) (now : UInt64) :
    ∃ t, Reaches (step b) event s [.stamp now] t ∧ Shows t ⟨.stamped now, s.bench⟩ := by
  have hstamp : step b s (.serverStamp now) = some _ := if_pos hserver
  refine ⟨_, .visible hstamp rfl, h.serverStamp hstamp, rfl, ?_, hjournal.stamp now⟩
  change doing s.client = .waiting
  rw [hclient]
  rfl

/-- The timestamp for an open question is taken. -/
theorem reaches_stamp (b : Benchmark) (h : Phase s) (hdoing : doing s.client = .waiting)
    (hjournal : s.journal.At .asked) (now : UInt64) :
    ∃ t, Reaches (step b) event s [.stamp now] t ∧ Shows t ⟨.stamped now, s.bench⟩ := by
  cases h with
  | asked hclient hserver hlink =>
    obtain ⟨link, hwait⟩ := Option.isSome_iff_exists.mp hlink.serverWait_isSome
    have hwake : step b s .serverWait = some { s with link := link, server := .stamp } := by
      rw [step, if_pos hserver, hwait, Option.map_some]
    obtain ⟨t, hreaches, hend⟩ := reaches_stamp_of_woken b
      (Phase.serverWait (.asked hclient hserver hlink ‹_› ‹_› hjournal) hwake) hclient rfl
      hjournal now
    exact ⟨t, .silent hwake rfl hreaches, hend⟩
  | woken hclient hserver hlink =>
    exact reaches_stamp_of_woken b (.woken hclient hserver hlink ‹_› ‹_› hjournal) hclient hserver
      hjournal now
  | stamped _ _ _ _ _ _ hstamped | written _ _ _ _ _ _ hstamped | flushed _ _ _ _ _ _ hstamped
  | answered _ _ _ _ _ _ hstamped | reading _ _ _ _ _ _ hstamped =>
    exact absurd hstamped hjournal.not_stamped_of_asked
  | resting hclient => rcases hclient with hclient | hclient <;> simp [hclient, doing] at hdoing
  | received hclient => simp [hclient, doing] at hdoing

/-- How many steps are missing until the client can read. -/
def stepsToRead (s : State) : ℕ :=
  match s.server with
  | .write _ => 4
  | .flush => 3
  | .notify => 2
  | .wait | .stamp | .thrown => if s.client = .wait then 1 else 0

/-- A timestamp on its way from the server to the client. -/
structure Underway (timestamp : UInt64) (bench : Benchmarks) (s : State) : Prop where
  phase : Phase s
  waiting : doing s.client = .waiting
  journal : s.journal.At (.stamped timestamp)
  bench : s.bench = bench

/-- The timestamp is read, or it comes nearer. -/
theorem Underway.progress (b : Benchmark) {bench : Benchmarks} (h : Underway timestamp bench s) :
    (∃ t, Reaches (step b) event s [.receive timestamp] t ∧
        Shows t ⟨.received timestamp, storeStart bench timestamp⟩) ∨
      ∃ a t, step b s a = some t ∧ event s a t = none ∧ Underway timestamp bench t ∧
        stepsToRead t < stepsToRead s := by
  obtain ⟨hphase, hwaiting, hjournal, rfl⟩ := h
  cases hphase with
  | stamped taken hclient hserver hlink hbuffer hstream hstamped =>
    have hwrite := serverWrite_eq b hserver hbuffer
    refine Or.inr ⟨_, _, hwrite, rfl, ⟨?_, hwaiting, hjournal, rfl⟩, by simp [stepsToRead, hserver]⟩
    exact Phase.step (.stamped taken hclient hserver hlink hbuffer hstream hstamped) hwrite
  | written taken hclient hserver hlink hbuffer hstream hstamped =>
    have hflush := serverFlush_eq b hserver hbuffer hstream
    refine Or.inr ⟨_, _, hflush, rfl, ⟨?_, hwaiting, hjournal, rfl⟩, by simp [stepsToRead, hserver]⟩
    exact Phase.step (.written taken hclient hserver hlink hbuffer hstream hstamped) hflush
  | flushed taken hclient hserver hlink hbuffer hstream hstamped =>
    have hnotify : step b s .serverNotify = some _ := if_pos hserver
    refine Or.inr ⟨_, _, hnotify, rfl, ⟨?_, hwaiting, hjournal, rfl⟩,
      by simp [stepsToRead, hserver, hclient]⟩
    exact Phase.step (.flushed taken hclient hserver hlink hbuffer hstream hstamped) hnotify
  | answered taken hclient hserver hlink hbuffer hstream hstamped =>
    obtain ⟨link, hwait⟩ := Option.isSome_iff_exists.mp hlink.clientWait_isSome
    have hwake : step b s .clientWait = some { s with link := link, client := .read } := by
      rw [step, if_pos hclient, hwait, Option.map_some]
    refine Or.inr ⟨_, _, hwake, rfl, ⟨?_, rfl, hjournal, rfl⟩,
      by simp [stepsToRead, hserver, hclient]⟩
    exact Phase.step (.answered taken hclient hserver hlink hbuffer hstream hstamped) hwake
  | reading taken hclient hserver hlink hbuffer hstream hstamped =>
    obtain rfl := hstamped.stamped_inj hjournal
    have hread := clientRead_eq b hclient hstream
    refine Or.inl ⟨_, .visible hread rfl, ?_, rfl, rfl⟩
    exact Phase.step (.reading taken hclient hserver hlink hbuffer hstream hstamped) hread
  | asked _ _ _ _ _ hasked | woken _ _ _ _ _ hasked =>
    exact absurd hjournal hasked.not_stamped_of_asked
  | resting hclient => rcases hclient with hclient | hclient <;> simp [hclient, doing] at hwaiting
  | received hclient => simp [hclient, doing] at hwaiting

end Answers

/-- Whatever happens in the exchange can happen in `fifo` and `pipe`. -/
theorem realizes (b : Benchmark) : Realizes (step b) event measured Shows := by
  apply Exchange.realizes_of
  · rintro s _ ⟨hphase, rfl, hdoing⟩
    have hclient : s.client = .notify := by cases hpc : s.client <;> simp_all [doing]
    have hnotify : step b s .clientNotify = some _ := if_pos hclient
    have hjournal : s.journal.At .resting := by cases hphase <;> simp_all
    exact ⟨_, .visible hnotify rfl, hphase.clientNotify hnotify, rfl, rfl, hjournal.ask⟩
  · rintro s _ ⟨hphase, rfl, hdoing⟩
    have hclient : s.client = .notify := by cases hpc : s.client <;> simp_all [doing]
    have hleave : step b s .clientLeave = some _ := if_pos hclient
    exact ⟨_, .visible hleave rfl, hphase.clientLeave hleave, rfl, rfl⟩
  · rintro s _ now ⟨hphase, rfl, hdoing, hjournal⟩
    exact reaches_stamp b hphase hdoing hjournal now
  · rintro s _ timestamp ⟨hphase, rfl, hdoing, hjournal⟩
    exact Reaches.of_nearer (Underway timestamp s.bench) _ stepsToRead
      (fun t h => h.progress b) ⟨hphase, hdoing, hjournal, rfl⟩
  · rintro s _ value now ⟨hphase, rfl, hdoing⟩
    have hclient : s.client = .bench := by cases hpc : s.client <;> simp_all [doing]
    have hbench : step b s (.clientBenchmark now) = some _ := if_pos hclient
    exact ⟨_, .visible hbench rfl, hphase.clientBenchmark hbench, rfl, rfl⟩

/-- `fifo` and `pipe`: in their runs the client asks, the server takes timestamps and the
client reads them and records its samples in exactly the sequences, and with exactly the
results, of the exchange in which nothing is transported. -/
theorem stream_shows_measured_exchange (b : Benchmark) (bench bench' : Benchmarks)
    (events : List (Event UInt64)) :
    (∃ s, Reaches (step b) event (start bench) events s ∧ s.bench = bench') ↔
      ∃ stage, run measured ⟨.resting, bench⟩ events = some ⟨stage, bench'⟩ := by
  refine Exchange.reaches_iff_run (refines b) (realizes b) ?_ (shows_start bench)
    (shows_start bench)
  rintro t y (hshows | hshows)
  · exact hshows.agrees.total_eq
  · exact hshows.agrees.total_eq

end IpcBench.Stream
