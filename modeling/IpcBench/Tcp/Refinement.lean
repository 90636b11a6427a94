import IpcBench.Common.RoundTrip
import IpcBench.Tcp.Pairing

/-!
# `tcp` is a measured exchange

Requests and replies arrive in pieces, and a busy socket is asked again and again. An
observer of the requests sent, the timestamps taken, the timestamps received and the samples
recorded sees nothing of this.
-/

namespace IpcBench.Tcp

open Lib

/-- What an observer sees of a step. -/
def event (_ : State) (a : Action) (t : State) : Option (Event UInt64) :=
  match a with
  | .clientSend => some .ask
  | .clientRecv _ => if t.client = .bench then some (.receive t.bench.singleStart) else none
  | .clientBenchmark now => some (.sample now)
  | .clientLeave => some .leave
  | .serverStamp now => some (.stamp now)
  | .serverRecv _ | .serverSend | .requestArrives _ | .replyArrives _ => none

/-- What the client is doing. -/
def doing : ClientPc → Doing
  | .send => .resting
  | .receive _ => .waiting
  | .bench => .holding
  | .left => .gone
  | .thrown => .failed

/-- The state of both processes and of the connection stands for a state of the exchange. -/
structure Shows (setup : Setup) (s : State) (x : Exchange UInt64 Benchmarks) : Prop where
  phase : Phase setup s
  agrees : x.Agrees s.bench (doing s.client)
    (Unanswered s.journal.stamps s.journal.received.length)
    (Underway s.journal.stamps s.journal.received.length)

theorem shows_start (setup : Setup) (clientErrno serverErrno : ℤ) (buffer : List UInt8)
    (bench : Benchmarks) :
    Shows setup (start clientErrno serverErrno buffer bench) ⟨.resting, bench⟩ :=
  ⟨phase_start setup clientErrno serverErrno buffer bench, rfl, rfl⟩

/-- A client that has only been told to try again receives the timestamp. -/
theorem clientReceive_data {setup : Setup} {results : List RecvResult}
    (h : Retried setup.clientBusy results) (s : State) (timestamp : UInt64) :
    ∃ errno, clientReceive setup s (results ++ [.data (wordBytes timestamp)]) =
      { s with
        client := .bench
        clientErrno := errno
        bench := storeStart s.bench timestamp
        journal := s.journal.receive timestamp } := by
  obtain ⟨errno, heq⟩ := h.receive_data s.clientErrno (wordBytes s.bench.singleStart)
    (wordBytes timestamp) []
  have hbuffer : wordBytes timestamp ++ (wordBytes s.bench.singleStart).drop 8 =
      wordBytes timestamp := by
    rw [List.drop_of_length_le (by simp), List.append_nil]
  rw [length_wordBytes, hbuffer] at heq
  refine ⟨errno, ?_⟩
  simp only [clientReceive, heq, ofWordBytes_wordBytes, storeStart]
  rfl

/-- A server that has only been told to try again receives the request. -/
theorem serverReceive_data {setup : Setup} {results : List RecvResult}
    (h : Retried setup.serverBusy results) (s : State) :
    (serverReceive setup s (results ++ [.data setup.message])).server = .stamp := by
  obtain ⟨errno, heq⟩ := h.receive_data s.serverErrno s.buffer setup.message []
  simp only [serverReceive, Setup.size, heq]
  rfl

/-- The `receive` of the server is no concern of the client. -/
theorem serverReceive_frame (setup : Setup) (s : State) (results : List RecvResult) :
    (serverReceive setup s results).client = s.client ∧
      (serverReceive setup s results).bench = s.bench ∧
      (serverReceive setup s results).journal = s.journal ∧
      (serverReceive setup s results).requests = s.requests := by
  unfold serverReceive
  split
  · exact ⟨rfl, rfl, rfl, rfl⟩
  · split <;> exact ⟨rfl, rfl, rfl, rfl⟩

/-- A step that changes neither what the client is doing nor its accumulator nor what has
been stamped and received shows nothing. -/
theorem Shows.of_frame {setup : Setup} {s t : State} {x : Exchange UInt64 Benchmarks}
    (h : Shows setup s x) (hphase : Phase setup t) (hdoing : doing t.client = doing s.client)
    (hbench : t.bench = s.bench) (hstamps : t.journal.stamps = s.journal.stamps)
    (hreceived : t.journal.received = s.journal.received) : Shows setup t x := by
  refine ⟨hphase, ?_⟩
  rw [hbench, hdoing, hstamps, hreceived]
  exact h.agrees

/-- Every step of `tcp` shows what the exchange does. -/
theorem refines {setup : Setup} (hsize : 1 ≤ setup.size) :
    Refines (step setup) event measured (Shows setup) := by
  intro s a t x h hstep
  have hphase := h.phase.step hsize hstep
  cases a with
  | clientSend =>
    obtain ⟨hclient, rfl⟩ := step_clientSend hstep
    obtain rfl := h.agrees.eq_resting (by rw [hclient]; rfl)
    cases h.phase with
    | resting _ _ _ _ _ hjournal =>
      exact ⟨⟨.asked, s.bench⟩, rfl, hphase, rfl, rfl, hjournal.stamps_count⟩
    | received hbench => simp [hclient] at hbench
    | requested hwaits | arrived hwaits | woken hwaits | stamped _ hwaits | replied _ hwaits =>
      exact absurd hwaits (not_clientWaits (by simp [hclient]))
  | clientRecv again =>
    obtain ⟨results, hclient, hcase⟩ := step_clientRecv hstep
    have hretried := h.phase.clientRetried hclient
    have hdoing : doing s.client = .waiting := by
      rw [hclient]
      rfl
    rcases hcase with ⟨hbusy, rfl⟩ | ⟨bytes, replies, htake, rfl⟩
    · have hnone := (hretried.retry hbusy).receive_eq_none 8 s.clientErrno
        (wordBytes s.bench.singleStart)
      rw [clientReceive, hnone] at hphase ⊢
      exact ⟨x, rfl, h.of_frame hphase hdoing.symm rfl rfl rfl⟩
    · have hcontent : s.replies.content ≠ [] := by
        intro hnil
        rw [ByteStream.take_of_content_nil hnil (by decide)] at htake
        cases htake
      obtain ⟨timestamp, _, _, hreplies, _, hjournal⟩ := h.phase.of_replies hcontent
      obtain ⟨rfl, _⟩ := ByteStream.take_message hreplies (by simpa using htake)
      obtain ⟨errno, heq⟩ := clientReceive_data hretried { s with replies := replies } timestamp
      rw [heq] at hphase ⊢
      obtain rfl := h.agrees.eq_stamped hdoing
        (fun hopen => hopen.not_underway hjournal.underway.1)
        fun _ hother => hother.inj hjournal.underway.1
      refine ⟨⟨.received timestamp, storeStart s.bench timestamp⟩, ?_, hphase, rfl, rfl⟩
      simp [event, run, measured, Exchange.next, storeStart]
  | clientBenchmark now =>
    obtain ⟨hclient, rfl⟩ := step_clientBenchmark hstep
    obtain ⟨value, rfl⟩ := h.agrees.eq_received (by rw [hclient]; rfl)
    exact ⟨⟨.resting, benchmark s.bench now⟩, rfl, hphase, rfl, rfl⟩
  | clientLeave =>
    obtain ⟨hclient, rfl⟩ := step_clientLeave hstep
    obtain rfl := h.agrees.eq_resting (by rw [hclient]; rfl)
    exact ⟨⟨.left, s.bench⟩, rfl, hphase, rfl, rfl⟩
  | serverRecv again =>
    obtain ⟨results, _, hcase⟩ := step_serverRecv hstep
    refine ⟨x, rfl, ?_⟩
    rcases hcase with ⟨_, rfl⟩ | ⟨bytes, requests, _, rfl⟩
    · obtain ⟨hclient, hbench, hjournal, _⟩ := serverReceive_frame setup s
        (results ++ [.error eagain])
      exact h.of_frame hphase (by rw [hclient]) hbench (by rw [hjournal]) (by rw [hjournal])
    · obtain ⟨hclient, hbench, hjournal, _⟩ := serverReceive_frame setup
        { s with requests := requests } (results ++ [.data bytes])
      exact h.of_frame hphase (by rw [hclient]) hbench (by rw [hjournal]) (by rw [hjournal])
  | serverStamp now =>
    obtain ⟨hserver, rfl⟩ := step_serverStamp hstep
    cases h.phase with
    | woken hclient _ _ _ _ hjournal =>
      obtain ⟨results, hpc, _⟩ := hclient
      have hdoing : doing s.client = .waiting := by
        rw [hpc]
        rfl
      have hopen : Unanswered s.journal.stamps s.journal.received.length := hjournal.stamps_count
      obtain rfl := h.agrees.eq_asked hdoing fun _ => hopen.not_underway
      exact ⟨⟨.stamped now, s.bench⟩, rfl, hphase, rfl, hdoing, hopen.stamp now _⟩
    | stamped _ _ hsend => simp [hserver] at hsend
    | resting _ hwaits | requested _ hwaits | arrived _ hwaits | replied _ _ hwaits
    | received _ hwaits => exact absurd hwaits (not_serverWaits (by simp [hserver]))
  | serverSend =>
    obtain ⟨timestamp, _, rfl⟩ := step_serverSend hstep
    exact ⟨x, rfl, h.of_frame hphase rfl rfl rfl rfl⟩
  | requestArrives n =>
    simp only [step, Option.map_eq_some_iff] at hstep
    obtain ⟨requests, _, rfl⟩ := hstep
    exact ⟨x, rfl, h.of_frame hphase rfl rfl rfl rfl⟩
  | replyArrives n =>
    simp only [step, Option.map_eq_some_iff] at hstep
    obtain ⟨replies, _, rfl⟩ := hstep
    exact ⟨x, rfl, h.of_frame hphase rfl rfl rfl rfl⟩

section Answers

variable {setup : Setup} {s : State} {timestamp : UInt64} {bench : Benchmarks}

/-- A request on its way to the server, or there. -/
structure Requested (setup : Setup) (bench : Benchmarks) (s : State) : Prop where
  phase : Phase setup s
  waiting : doing s.client = .waiting
  unanswered : Unanswered s.journal.stamps s.journal.received.length
  bench : s.bench = bench

/-- What is missing until the server takes its timestamp. -/
def stepsToStamp (s : State) : ℕ :=
  s.requests.inTransit.length + if s.server = .stamp then 0 else 1

/-- A server that has received the request takes a timestamp. -/
theorem reaches_stamp_of_woken (h : Requested setup bench s) (hserver : s.server = .stamp)
    (now : UInt64) :
    ∃ t, Reaches (step setup) event s [.stamp now] t ∧
      Shows setup t ⟨.stamped now, bench⟩ := by
  have hstamp : step setup s (.serverStamp now) = some _ := if_pos hserver
  refine ⟨_, .visible hstamp rfl, h.phase.serverStamp hstamp, h.bench.symm, h.waiting, ?_⟩
  exact h.unanswered.stamp now _

/-- The rest of the request arrives. -/
theorem Requested.arrive (h : Requested setup bench s) (hsize : 1 ≤ setup.size)
    (hserver : s.server ≠ .stamp) (htransit : s.requests.inTransit ≠ []) :
    ∃ a t, step setup s a = some t ∧ event s a t = none ∧ Requested setup bench t ∧
      stepsToStamp t < stepsToStamp s := by
  obtain ⟨requests, harrive, hempty⟩ := ByteStream.arrive_rest htransit
  have hstep : step setup s (.requestArrives s.requests.inTransit.length) =
      some { s with
        requests := requests
        journal := { s.journal with asked := requests.delivered / setup.size } } := by
    rw [step, harrive, Option.map_some]
  refine ⟨_, _, hstep, rfl, ⟨h.phase.step hsize hstep, h.waiting, h.unanswered, h.bench⟩, ?_⟩
  have hpos := List.length_pos_of_ne_nil htransit
  simp only [stepsToStamp, hempty, List.length_nil, if_neg hserver]
  omega

/-- The server receives the request that has arrived. -/
theorem Requested.receive (h : Requested setup bench s) (hsize : 1 ≤ setup.size)
    (hserver : ServerWaits setup s) (hrequests : s.requests.content = setup.message)
    (htransit : s.requests.inTransit = []) :
    ∃ a t, step setup s a = some t ∧ event s a t = none ∧ Requested setup bench t ∧
      stepsToStamp t < stepsToStamp s := by
  obtain ⟨results, hpc, hretried⟩ := hserver
  obtain ⟨requests, htake, hempty⟩ := ByteStream.take_arrived hrequests htransit
  have hstep : step setup s (.serverRecv false) =
      some (serverReceive setup { s with requests := requests }
        (results ++ [.data setup.message])) := by
    simp [step, hpc, recvYields, Setup.size, htake]
  obtain ⟨hclient, hbench, hjournal, hkept⟩ := serverReceive_frame setup
    { s with requests := requests } (results ++ [.data setup.message])
  have hstamp := serverReceive_data hretried { s with requests := requests }
  refine ⟨_, _, hstep, rfl, ⟨h.phase.step hsize hstep, ?_, ?_, hbench.trans h.bench⟩, ?_⟩
  · rw [hclient]
    exact h.waiting
  · rw [hjournal]
    exact h.unanswered
  · have hnow : stepsToStamp s = 1 := by simp [stepsToStamp, htransit, hpc]
    rw [hnow, stepsToStamp, hkept, hstamp, hempty]
    decide

/-- The server takes its timestamp, or that moment comes nearer. -/
theorem Requested.progress (h : Requested setup bench s) (hsize : 1 ≤ setup.size) (now : UInt64) :
    (∃ t, Reaches (step setup) event s [.stamp now] t ∧ Shows setup t ⟨.stamped now, bench⟩) ∨
      ∃ a t, step setup s a = some t ∧ event s a t = none ∧ Requested setup bench t ∧
        stepsToStamp t < stepsToStamp s := by
  cases h.phase with
  | requested _ hserver hrequests _ hpartly =>
    have htransit : s.requests.inTransit ≠ [] := by
      intro hnil
      rw [ByteStream.content, hnil, List.append_nil] at hrequests
      exact absurd (congrArg List.length hrequests) (Nat.ne_of_lt hpartly)
    refine Or.inr (h.arrive hsize ?_ htransit)
    obtain ⟨results, hpc, _⟩ := hserver
    simp [hpc]
  | arrived _ hserver hrequests _ hwholly =>
    have htransit : s.requests.inTransit = [] := by
      have hlength := congrArg List.length hrequests
      rw [ByteStream.content, List.length_append, hwholly] at hlength
      exact List.eq_nil_of_length_eq_zero (Nat.add_eq_left.mp hlength)
    exact Or.inr (h.receive hsize hserver hrequests htransit)
  | woken _ hserver => exact Or.inl (reaches_stamp_of_woken h hserver now)
  | stamped _ _ _ _ _ _ hjournal | replied _ _ _ _ _ _ hjournal =>
    exact absurd hjournal.underway.1 h.unanswered.not_underway
  | resting hclient =>
    have hwaiting := h.waiting
    rcases hclient with hclient | hclient <;> simp [hclient, doing] at hwaiting
  | received hclient =>
    have hwaiting := h.waiting
    simp [hclient, doing] at hwaiting

/-- A timestamp on its way from the server to the client. -/
structure Replying (setup : Setup) (timestamp : UInt64) (bench : Benchmarks) (s : State) :
    Prop where
  phase : Phase setup s
  waiting : doing s.client = .waiting
  underway : Underway s.journal.stamps s.journal.received.length timestamp
  bench : s.bench = bench

/-- What is missing until the client can receive the timestamp. -/
def stepsToReceive (s : State) : ℕ :=
  match s.server with
  | .send _ => 9
  | .receive _ | .stamp | .thrown => s.replies.inTransit.length

/-- The server sends its timestamp. -/
theorem Replying.send (h : Replying setup timestamp bench s) (hsize : 1 ≤ setup.size)
    (hserver : s.server = .send timestamp) (hreplies : s.replies.content = []) :
    ∃ a t, step setup s a = some t ∧ event s a t = none ∧ Replying setup timestamp bench t ∧
      stepsToReceive t < stepsToReceive s := by
  have hstep : step setup s .serverSend =
      some { s with
        replies := s.replies.send (wordBytes timestamp)
        server := .receive [] } := by
    simp [step, hserver, Tcp.send]
  refine ⟨_, _, hstep, rfl, ⟨h.phase.step hsize hstep, h.waiting, h.underway, h.bench⟩, ?_⟩
  have hnil : s.replies.inTransit = [] := (List.append_eq_nil_iff.mp hreplies).2
  simp [stepsToReceive, hserver, ByteStream.send, hnil]

/-- The rest of the timestamp arrives. -/
theorem Replying.arrive (h : Replying setup timestamp bench s) (hsize : 1 ≤ setup.size)
    (hserver : ServerWaits setup s) (htransit : s.replies.inTransit ≠ []) :
    ∃ a t, step setup s a = some t ∧ event s a t = none ∧ Replying setup timestamp bench t ∧
      stepsToReceive t < stepsToReceive s := by
  obtain ⟨results, hpc, _⟩ := hserver
  obtain ⟨replies, harrive, hempty⟩ := ByteStream.arrive_rest htransit
  have hstep : step setup s (.replyArrives s.replies.inTransit.length) =
      some { s with replies := replies } := by
    rw [step, harrive, Option.map_some]
  refine ⟨_, _, hstep, rfl, ⟨h.phase.step hsize hstep, h.waiting, h.underway, h.bench⟩, ?_⟩
  have hpos := List.length_pos_of_ne_nil htransit
  simpa [stepsToReceive, hpc, hempty] using hpos

/-- The client receives the timestamp that has arrived. -/
theorem Replying.receive (h : Replying setup timestamp bench s) (hsize : 1 ≤ setup.size)
    (hclient : ClientWaits setup s) (hreplies : s.replies.content = wordBytes timestamp)
    (htransit : s.replies.inTransit = []) :
    ∃ t, Reaches (step setup) event s [.receive timestamp] t ∧
      Shows setup t ⟨.received timestamp, storeStart bench timestamp⟩ := by
  obtain ⟨results, hpc, hretried⟩ := hclient
  obtain ⟨replies, htake, _⟩ := ByteStream.take_arrived hreplies htransit
  rw [length_wordBytes] at htake
  obtain ⟨errno, heq⟩ := clientReceive_data hretried { s with replies := replies } timestamp
  have hstep : step setup s (.clientRecv false) =
      some (clientReceive setup { s with replies := replies }
        (results ++ [.data (wordBytes timestamp)])) := by
    simp [step, hpc, recvYields, htake]
  rw [heq] at hstep
  refine ⟨_, .visible hstep rfl, h.phase.step hsize hstep, ?_, rfl⟩
  rw [h.bench]

/-- The client receives the timestamp, or that moment comes nearer. -/
theorem Replying.progress (h : Replying setup timestamp bench s) (hsize : 1 ≤ setup.size) :
    (∃ t, Reaches (step setup) event s [.receive timestamp] t ∧
        Shows setup t ⟨.received timestamp, storeStart bench timestamp⟩) ∨
      ∃ a t, step setup s a = some t ∧ event s a t = none ∧ Replying setup timestamp bench t ∧
        stepsToReceive t < stepsToReceive s := by
  cases h.phase with
  | stamped taken _ hserver _ hreplies _ hjournal =>
    obtain rfl := Underway.inj hjournal.underway.1 h.underway
    exact Or.inr (h.send hsize hserver hreplies)
  | replied taken hclient hserver _ hreplies _ hjournal =>
    obtain rfl := Underway.inj hjournal.underway.1 h.underway
    by_cases htransit : s.replies.inTransit = []
    · exact Or.inl (h.receive hsize hclient hreplies htransit)
    · exact Or.inr (h.arrive hsize hserver htransit)
  | requested _ _ _ _ _ _ hjournal | arrived _ _ _ _ _ _ hjournal | woken _ _ _ _ _ hjournal =>
    have hopen : Unanswered s.journal.stamps s.journal.received.length := hjournal.stamps_count
    exact absurd h.underway hopen.not_underway
  | resting hclient =>
    have hwaiting := h.waiting
    rcases hclient with hclient | hclient <;> simp [hclient, doing] at hwaiting
  | received hclient =>
    have hwaiting := h.waiting
    simp [hclient, doing] at hwaiting

end Answers

/-- Whatever happens in the exchange can happen in `tcp`. -/
theorem realizes {setup : Setup} (hsize : 1 ≤ setup.size) :
    Realizes (step setup) event measured (Shows setup) := by
  apply Exchange.realizes_of
  · rintro s _ ⟨hphase, rfl, hdoing⟩
    have hclient : s.client = .send := by cases hpc : s.client <;> simp_all [doing]
    have hsend : step setup s .clientSend = some _ := if_pos hclient
    have hjournal : s.journal.At .resting := by
      cases hphase with
      | resting _ _ _ _ _ hjournal => exact hjournal
      | received hbench => simp [hclient] at hbench
      | requested hwaits | arrived hwaits | woken hwaits | stamped _ hwaits | replied _ hwaits =>
        exact absurd hwaits (not_clientWaits (by simp [hclient]))
    refine ⟨_, .visible hsend rfl, hphase.clientSend hsize hsend, rfl, ?_, hjournal.stamps_count⟩
    obtain ⟨_, heq⟩ := step_clientSend hsend
    rw [heq]
    rfl
  · rintro s _ ⟨hphase, rfl, hdoing⟩
    have hclient : s.client = .send := by cases hpc : s.client <;> simp_all [doing]
    have hleave : step setup s .clientLeave = some _ := if_pos hclient
    exact ⟨_, .visible hleave rfl, hphase.clientLeave hleave, rfl, rfl⟩
  · rintro s _ now ⟨hphase, rfl, hdoing, hopen⟩
    exact Reaches.of_nearer (Requested setup s.bench) _ stepsToStamp
      (fun t h => h.progress hsize now) ⟨hphase, hdoing, hopen, rfl⟩
  · rintro s _ timestamp ⟨hphase, rfl, hdoing, hunderway⟩
    exact Reaches.of_nearer (Replying setup timestamp s.bench) _ stepsToReceive
      (fun t h => h.progress hsize) ⟨hphase, hdoing, hunderway, rfl⟩
  · rintro s _ value now ⟨hphase, rfl, hdoing⟩
    have hclient : s.client = .bench := by cases hpc : s.client <;> simp_all [doing]
    have hbench : step setup s (.clientBenchmark now) = some _ := if_pos hclient
    exact ⟨_, .visible hbench rfl, hphase.clientBenchmark hbench, rfl, rfl⟩

end IpcBench.Tcp
