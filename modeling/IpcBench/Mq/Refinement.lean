import IpcBench.Lib.Simulation
import IpcBench.Common.RoundTrip
import IpcBench.Mq.Pairing

/-!
# `mq` is a measured exchange

Seen from outside, a run of `mq` consists of the requests sent, the timestamps taken, the
timestamps received and the samples recorded. These sequences are exactly those of the
exchange in which nothing is transported: the queue, the types of the messages and the two
message objects can neither be observed in a run nor prevent one.
-/

namespace IpcBench.Mq

open Lib

/-- What an observer sees of a step. -/
def event (_ : State) (a : Action) (t : State) : Option (Event UInt64) :=
  match a with
  | .clientSend => if t.client = .receive then some .ask else none
  | .clientReceive => if t.client = .bench then some (.receive t.bench.singleStart) else none
  | .clientBenchmark now => some (.sample now)
  | .clientLeave => some .leave
  | .serverStamp now => some (.stamp now)
  | .clientFill | .serverReceive | .serverFill | .serverSend => none

/-- What the client is doing. -/
def doing : ClientPc → Doing
  | .fill | .send => .resting
  | .receive => .waiting
  | .bench => .holding
  | .left => .gone
  | .thrown => .failed

/-- The state of both processes stands for a state of the exchange. -/
structure Shows (size : ℕ) (s : State) (x : Exchange UInt64 Benchmarks) : Prop where
  inv : Inv size s
  agrees : x.Agrees s.bench (doing s.client) (s.journal.At .asked)
    fun value => s.journal.At (.stamped value)

section Equations

variable {limits : QueueLimits} {size : ℕ} {s : State} {timestamp : UInt64}

/-- The client sends its request into an empty queue. -/
theorem clientSend_eq (hlimits : Admissible limits) (hsize : size ≤ maximumMessageSize)
    (hclient : s.client = .send) (hqueue : s.queue = [])
    (hmessage : s.atClient.sent size .client = request size) :
    step limits size s .clientSend =
      some { s with queue := [request size], client := .receive, journal := s.journal.ask } := by
  have hlength : (request size).payload.length ≤ maximumMessageSize := by
    rwa [request, List.length_replicate]
  rw [step, if_pos hclient, hqueue, hmessage, hlimits.msgsnd_eq false hlength]
  rfl

/-- The server receives the request. -/
theorem serverReceive_eq (limits : QueueLimits) (hserver : s.server = .receive)
    (hqueue : s.queue = [request size]) :
    step limits size s .serverReceive =
      some { s with
        queue := []
        atServer := s.atServer.receive (some (request size))
        receipts := s.receipts ++ receipt .server (some (request size))
        server := .stamp } := by
  have hlength : (request size).payload.length = size := List.length_replicate
  have hsingle := msgrcv_singleton (Nat.le_of_eq hlength)
  rw [hlength] at hsingle
  have hreceived : msgrcv size clientMessage [request size] =
    some ((size : ℤ), some (request size), []) := hsingle
  rw [step, if_pos hserver, hqueue, hreceived, Option.map_some]
  simp only [Int.lt_irrefl, if_false]

/-- The server writes its reply over the request it has received. -/
theorem serverFill_eq (limits : QueueLimits) (size : ℕ) (hserver : s.server = .fill timestamp) :
    step limits size s .serverFill =
      some { s with
        server := .send
        atServer := s.atServer.fill serverMessage (wordBytes timestamp) } := by
  rw [step, hserver]

/-- The server sends its reply into an empty queue. -/
theorem serverSend_eq (size : ℕ) (hlimits : Admissible limits) (hserver : s.server = .send)
    (hqueue : s.queue = []) (hmessage : s.atServer.sent 8 .server = reply timestamp) :
    step limits size s .serverSend =
      some { s with queue := [reply timestamp], server := .receive } := by
  have hlength : (reply timestamp).payload.length ≤ maximumMessageSize := by
    rw [reply, length_wordBytes]
    decide
  rw [step, if_pos hserver, hqueue, hmessage, hlimits.msgsnd_eq true hlength]
  rfl

/-- The client receives the reply, and from it the timestamp. -/
theorem clientReceive_eq (limits : QueueLimits) (size : ℕ) (hclient : s.client = .receive)
    (hqueue : s.queue = [reply timestamp]) :
    step limits size s .clientReceive =
      some { s with
        queue := []
        atClient := s.atClient.receive (some (reply timestamp))
        receipts := s.receipts ++ receipt .client (some (reply timestamp))
        client := .bench
        bench := storeStart s.bench timestamp
        journal := s.journal.receive timestamp } := by
  have hlength : (reply timestamp).payload.length = 8 := length_wordBytes timestamp
  have hreceived : msgrcv 8 serverMessage [reply timestamp] =
      some (8, some (reply timestamp), []) :=
    msgrcv_singleton (Nat.le_of_eq hlength)
  have hvalue : ofWordBytes ((s.atClient.receive (some (reply timestamp))).buffer.take 8) =
      timestamp := by
    rw [← hlength, Message.take_receive, reply, ofWordBytes_wordBytes]
  rw [step, if_pos hclient, hqueue, hreceived, Option.map_some]
  simp only [hvalue]
  rfl

end Equations

namespace Shows

variable {limits : QueueLimits} {size : ℕ} {s t : State} {x : Exchange UInt64 Benchmarks}

/-- A client between two rounds. -/
theorem eq_resting (h : Shows size s x) (hclient : s.client = .fill ∨ s.client = .send) :
    x = ⟨.resting, s.bench⟩ :=
  h.agrees.eq_resting (by rcases hclient with hclient | hclient <;> rw [hclient] <;> rfl)

/-- A client that waits for the answer to its request. -/
theorem eq_asked (h : Shows size s x) (hclient : s.client = .receive)
    (hjournal : s.journal.At .asked) : x = ⟨.asked, s.bench⟩ :=
  h.agrees.eq_asked (by rw [hclient]; rfl) fun _ => hjournal.not_stamped_of_asked

/-- A client whose answer is under way. -/
theorem eq_stamped {timestamp : UInt64} (h : Shows size s x) (hclient : s.client = .receive)
    (hjournal : s.journal.At (.stamped timestamp)) : x = ⟨.stamped timestamp, s.bench⟩ :=
  h.agrees.eq_stamped (by rw [hclient]; rfl) (fun hasked => hasked.not_stamped_of_asked hjournal)
    fun _ hother => hother.stamped_inj hjournal

/-- A step that leaves the client, its accumulator and the journal alone shows nothing. -/
theorem of_frame (h : Shows size s x) (hinv : Inv size t) (hclient : t.client = s.client)
    (hbench : t.bench = s.bench) (hjournal : t.journal = s.journal) : Shows size t x := by
  refine ⟨hinv, ?_⟩
  rw [hbench, hclient, hjournal]
  exact h.agrees

end Shows

/-- Before the loops the exchange rests. -/
theorem shows_start (size : ℕ) (atClient atServer : Message) (bench : Benchmarks) :
    Shows size (start atClient atServer bench) ⟨.resting, bench⟩ :=
  ⟨inv_start size atClient atServer bench, rfl, rfl⟩

/-- Every step of `mq` shows what the exchange does. -/
theorem refines {limits : QueueLimits} {size : ℕ} (hlimits : Admissible limits)
    (hsize : size ≤ maximumMessageSize) :
    Refines (step limits size) event measured (Shows size) := by
  intro s a t x h hstep
  have hinv := h.inv.step hlimits hsize hstep
  cases a with
  | clientFill =>
    simp only [step, Option.ite_none_right_eq_some, Option.some.injEq] at hstep
    obtain ⟨hclient, rfl⟩ := hstep
    obtain rfl := h.eq_resting (Or.inl hclient)
    exact ⟨_, rfl, hinv, rfl, rfl⟩
  | clientSend =>
    have hclient : s.client = .send := by
      simp only [step, Option.ite_none_right_eq_some] at hstep
      exact hstep.1
    cases h.inv.phase with
    | filled _ _ hqueue hmessage hjournal =>
      rw [clientSend_eq hlimits hsize hclient hqueue hmessage, Option.some.injEq] at hstep
      subst hstep
      obtain rfl := h.eq_resting (Or.inr hclient)
      exact ⟨⟨.asked, s.bench⟩, rfl, hinv, rfl, rfl, hjournal.ask⟩
    | _ => simp_all
  | clientReceive =>
    have hclient : s.client = .receive := by
      simp only [step, Option.ite_none_right_eq_some] at hstep
      exact hstep.1
    cases h.inv.phase with
    | replied timestamp _ _ hqueue hjournal =>
      rw [clientReceive_eq limits size hclient hqueue, Option.some.injEq] at hstep
      subst hstep
      obtain rfl := h.eq_stamped hclient hjournal
      refine ⟨⟨.received timestamp, storeStart s.bench timestamp⟩, ?_, hinv, rfl, rfl⟩
      simp [event, run, measured, Exchange.next, storeStart]
    | requested _ _ hqueue =>
      rw [step, if_pos hclient, hqueue,
        msgrcv_singleton_ne 8 (by simp [request, types_ne])] at hstep
      cases hstep
    | woken _ _ hqueue | stamped _ _ _ hqueue | ready _ _ _ hqueue =>
      rw [step, if_pos hclient, hqueue, msgrcv_nil] at hstep
      cases hstep
    | _ => simp_all
  | clientBenchmark now =>
    simp only [step, Option.ite_none_right_eq_some, Option.some.injEq] at hstep
    obtain ⟨hclient, rfl⟩ := hstep
    obtain ⟨value, rfl⟩ := h.agrees.eq_received (by rw [hclient]; rfl)
    exact ⟨⟨.resting, benchmark s.bench now⟩, rfl, hinv, rfl, rfl⟩
  | clientLeave =>
    simp only [step, Option.ite_none_right_eq_some, Option.some.injEq] at hstep
    obtain ⟨hclient, rfl⟩ := hstep
    obtain rfl := h.eq_resting (Or.inl hclient)
    exact ⟨⟨.left, s.bench⟩, rfl, hinv, rfl, rfl⟩
  | serverReceive =>
    simp only [step, Option.ite_none_right_eq_some, Option.map_eq_some_iff] at hstep
    obtain ⟨_, _, _, rfl⟩ := hstep
    exact ⟨x, rfl, h.of_frame hinv rfl rfl rfl⟩
  | serverStamp now =>
    simp only [step, Option.ite_none_right_eq_some, Option.some.injEq] at hstep
    obtain ⟨hserver, rfl⟩ := hstep
    cases h.inv.phase with
    | woken hclient _ _ hjournal =>
      obtain rfl := h.eq_asked hclient hjournal
      refine ⟨⟨.stamped now, s.bench⟩, rfl, hinv, rfl, ?_, hjournal.stamp now⟩
      change doing s.client = .waiting
      rw [hclient]
      rfl
    | _ => simp_all
  | serverFill =>
    cases hserver : s.server with
    | fill timestamp =>
      simp only [step, hserver, Option.some.injEq] at hstep
      subst hstep
      exact ⟨x, rfl, h.of_frame hinv rfl rfl rfl⟩
    | _ => simp [step, hserver] at hstep
  | serverSend =>
    simp only [step, Option.ite_none_right_eq_some, Option.map_eq_some_iff] at hstep
    obtain ⟨_, ⟨code, queue⟩, _, rfl⟩ := hstep
    refine ⟨x, rfl, ?_⟩
    dsimp only at hinv ⊢
    split at hinv <;> rename_i hcode
    · exact absurd rfl hinv.phase.not_thrown.2
    · rw [if_neg hcode]
      exact h.of_frame hinv rfl rfl rfl

/-- Both processes stand for the exchange, and the client is not about to send. -/
structure Settled (size : ℕ) (s : State) (x : Exchange UInt64 Benchmarks) : Prop
    extends Shows size s x where
  not_sending : s.client ≠ .send

section Answers

variable {limits : QueueLimits} {size : ℕ} {s : State} {timestamp : UInt64}

/-- A client at the head of its loop sends a request. -/
theorem reaches_ask (hlimits : Admissible limits) (hsize : size ≤ maximumMessageSize)
    (h : Inv size s) (hclient : s.client = .fill) :
    ∃ t, Reaches (step limits size) event s [.ask] t ∧ Settled size t ⟨.asked, s.bench⟩ := by
  have hfill : step limits size s .clientFill = some _ := if_pos hclient
  have hfilled := h.clientFill hfill
  generalize ht : ({ s with client := _, atClient := _ } : State) = t at hfill hfilled
  have hbench : t.bench = s.bench := by rw [← ht]
  have hpc : t.client = .send := by rw [← ht]
  cases hfilled.phase with
  | filled _ _ hqueue hmessage hjournal =>
    have hsend := clientSend_eq hlimits hsize hpc hqueue hmessage
    refine ⟨_, .silent hfill rfl (.visible hsend rfl), ⟨hfilled.clientSend hlimits hsize hsend, ?_⟩,
      by simp⟩
    exact ⟨hbench.symm, rfl, hjournal.ask⟩
  | _ => simp_all

/-- A server that finds a request takes a timestamp. -/
theorem reaches_stamp_of_woken (limits : QueueLimits) (h : Inv size s)
    (hclient : s.client = .receive) (hserver : s.server = .stamp)
    (hjournal : s.journal.At .asked) (now : UInt64) :
    ∃ t, Reaches (step limits size) event s [.stamp now] t ∧
      Settled size t ⟨.stamped now, s.bench⟩ := by
  have hstamp : step limits size s (.serverStamp now) = some _ := if_pos hserver
  refine ⟨_, .visible hstamp rfl, ⟨h.serverStamp hstamp, rfl, ?_, hjournal.stamp now⟩, ?_⟩
  · change doing s.client = .waiting
    rw [hclient]
    rfl
  · simp [hclient]

/-- The timestamp of an open request is taken. -/
theorem reaches_stamp (limits : QueueLimits) (h : Inv size s) (hclient : s.client = .receive)
    (hjournal : s.journal.At .asked) (now : UInt64) :
    ∃ t, Reaches (step limits size) event s [.stamp now] t ∧
      Settled size t ⟨.stamped now, s.bench⟩ := by
  cases h.phase with
  | requested _ hserver hqueue =>
    have hreceive := serverReceive_eq limits hserver hqueue
    obtain ⟨t, hreaches, hend⟩ := reaches_stamp_of_woken limits (h.serverReceive hreceive) hclient
      rfl hjournal now
    exact ⟨t, .silent hreceive rfl hreaches, hend⟩
  | woken _ hserver => exact reaches_stamp_of_woken limits h hclient hserver hjournal now
  | stamped _ _ _ _ hstamped | ready _ _ _ _ _ hstamped | replied _ _ _ _ hstamped =>
    exact absurd hstamped hjournal.not_stamped_of_asked
  | _ => simp_all

/-- The client receives the reply in the queue. -/
theorem reaches_receive_of_replied (limits : QueueLimits) (h : Inv size s)
    (hclient : s.client = .receive) (hqueue : s.queue = [reply timestamp]) :
    ∃ t, Reaches (step limits size) event s [.receive timestamp] t ∧
      Settled size t ⟨.received timestamp, storeStart s.bench timestamp⟩ := by
  have hreceive := clientReceive_eq limits size hclient hqueue
  exact ⟨_, .visible hreceive rfl, ⟨h.clientReceive hreceive, rfl, rfl⟩, by simp⟩

/-- The server sends its reply. -/
theorem reaches_receive_of_ready (hlimits : Admissible limits) (h : Inv size s)
    (hclient : s.client = .receive) (hserver : s.server = .send) (hqueue : s.queue = [])
    (hmessage : s.atServer.sent 8 .server = reply timestamp) :
    ∃ t, Reaches (step limits size) event s [.receive timestamp] t ∧
      Settled size t ⟨.received timestamp, storeStart s.bench timestamp⟩ := by
  have hsend := serverSend_eq size hlimits hserver hqueue hmessage
  obtain ⟨t, hreaches, hend⟩ := reaches_receive_of_replied limits (h.serverSend hlimits hsend)
    hclient rfl
  exact ⟨t, .silent hsend rfl hreaches, hend⟩

/-- The timestamp that is under way is received. -/
theorem reaches_receive (hlimits : Admissible limits) (h : Inv size s)
    (hclient : s.client = .receive) (hjournal : s.journal.At (.stamped timestamp)) :
    ∃ t, Reaches (step limits size) event s [.receive timestamp] t ∧
      Settled size t ⟨.received timestamp, storeStart s.bench timestamp⟩ := by
  cases h.phase with
  | stamped taken _ hserver hqueue hstamped =>
    obtain rfl := hstamped.stamped_inj hjournal
    have hfill := serverFill_eq limits size hserver
    have hmessage := s.atServer.sent_fill serverMessage (wordBytes taken) .server
    rw [length_wordBytes] at hmessage
    obtain ⟨t, hreaches, hend⟩ := reaches_receive_of_ready hlimits (h.serverFill hfill) hclient rfl
      hqueue hmessage
    exact ⟨t, .silent hfill rfl hreaches, hend⟩
  | ready taken _ hserver hqueue hmessage hstamped =>
    obtain rfl := hstamped.stamped_inj hjournal
    exact reaches_receive_of_ready hlimits h hclient hserver hqueue hmessage
  | replied taken _ _ hqueue hstamped =>
    obtain rfl := hstamped.stamped_inj hjournal
    exact reaches_receive_of_replied limits h hclient hqueue
  | requested _ _ _ hasked | woken _ _ _ hasked =>
    exact absurd hjournal hasked.not_stamped_of_asked
  | _ => simp_all

end Answers

/-- What the client is doing tells where it stands. -/
theorem client_eq {pc : ClientPc} (hsending : pc ≠ .send) :
    (doing pc = .resting → pc = .fill) ∧ (doing pc = .waiting → pc = .receive) ∧
      (doing pc = .holding → pc = .bench) := by
  cases pc <;> simp_all [doing]

/-- Whatever happens in the exchange can happen in `mq`. -/
theorem realizes {limits : QueueLimits} {size : ℕ} (hlimits : Admissible limits)
    (hsize : size ≤ maximumMessageSize) :
    Realizes (step limits size) event measured (Settled size) := by
  apply Exchange.realizes_of
  · rintro s _ ⟨⟨hinv, rfl, hdoing⟩, hsending⟩
    exact reaches_ask hlimits hsize hinv ((client_eq hsending).1 hdoing)
  · rintro s _ ⟨⟨hinv, rfl, hdoing⟩, hsending⟩
    have hleave : step limits size s .clientLeave = some _ :=
      if_pos ((client_eq hsending).1 hdoing)
    exact ⟨_, .visible hleave rfl, ⟨hinv.clientLeave hleave, rfl, rfl⟩, by simp⟩
  · rintro s _ now ⟨⟨hinv, rfl, hdoing, hjournal⟩, hsending⟩
    exact reaches_stamp limits hinv ((client_eq hsending).2.1 hdoing) hjournal now
  · rintro s _ value ⟨⟨hinv, rfl, hdoing, hjournal⟩, hsending⟩
    exact reaches_receive hlimits hinv ((client_eq hsending).2.1 hdoing) hjournal
  · rintro s _ value now ⟨⟨hinv, rfl, hdoing⟩, hsending⟩
    have hbench : step limits size s (.clientBenchmark now) = some _ :=
      if_pos ((client_eq hsending).2.2 hdoing)
    exact ⟨_, .visible hbench rfl, ⟨hinv.clientBenchmark hbench, rfl, rfl⟩, by simp⟩

/-- `mq`, for every size up to the maximum, from an empty queue of a system that lets the
largest message through: in its runs the client sends requests, the server takes timestamps
and the client receives them and records its samples in exactly the sequences, and with
exactly the results, of the exchange in which nothing is transported. -/
theorem mq_shows_measured_exchange (limits : QueueLimits) (size : ℕ) (atClient atServer : Message)
    (bench bench' : Benchmarks) (events : List (Event UInt64)) (hlimits : Admissible limits)
    (hsize : size ≤ maximumMessageSize) :
    (∃ s, Reaches (step limits size) event (start atClient atServer bench) events s ∧
        s.bench = bench') ↔
      ∃ stage, run measured ⟨.resting, bench⟩ events = some ⟨stage, bench'⟩ := by
  have hstart := shows_start size atClient atServer bench
  refine Exchange.reaches_iff_run (refines hlimits hsize) (realizes hlimits hsize) ?_ hstart
    ⟨hstart, by simp [start]⟩
  rintro t y (hshows | hsettled)
  · exact hshows.agrees.total_eq
  · exact hsettled.agrees.total_eq

/-- With the limits of the system, some run with messages of nine bytes shows a round and
the next request. -/
theorem mq_shows_measured_exchange_round :
    ∃ s, Reaches (step ⟨8192, 16384⟩ 9) event
        (start ⟨0, []⟩ ⟨0, []⟩ ⟨0, 0, 50, 0, 0, 0, 0⟩)
        [.ask, .stamp 700, .receive 700, .sample 900, .ask] s ∧
      s.bench = ⟨0, 700, 50, 200, 200, 0, 1⟩ :=
  (mq_shows_measured_exchange _ 9 _ _ _ _ _ ⟨by decide, by decide⟩ (by decide)).mpr
    ⟨.asked, by decide⟩

end IpcBench.Mq
