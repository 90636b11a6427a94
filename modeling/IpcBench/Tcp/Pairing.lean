import IpcBench.Tcp.Exchange

/-!
# Requests and replies of `tcp` stay paired

The two streams have no frames and their messages differ in length, so what keeps the two
sides in step is that each stream contains either nothing or one whole message. A round
passes through seven phases; in each of them the contents of both streams, both processes
and the number of bytes that have arrived at the server are known.
-/

namespace IpcBench.Tcp

open Lib

/-- The client is in its `receive` and has only been told to try again. -/
def ClientWaits (setup : Setup) (s : State) : Prop :=
  ∃ results, s.client = .receive results ∧ Retried setup.clientBusy results

/-- The server is in its `receive` and has only been told to try again. -/
def ServerWaits (setup : Setup) (s : State) : Prop :=
  ∃ results, s.server = .receive results ∧ Retried setup.serverBusy results

/-- The bytes of `rounds` requests have arrived, and `more` bytes of the next one. -/
def Delivered (setup : Setup) (requests : ByteStream UInt8) (rounds more : ℕ) : Prop :=
  requests.delivered = rounds * setup.size + more

/-- So many requests have wholly arrived. -/
theorem Delivered.div {setup : Setup} {requests : ByteStream UInt8} {rounds more : ℕ}
    (h : Delivered setup requests rounds more) (hmore : more < setup.size) :
    requests.delivered / setup.size = rounds := by
  rw [h, Nat.add_comm, Nat.add_mul_div_right more rounds (Nat.zero_lt_of_lt hmore),
    Nat.div_eq_of_lt hmore, Nat.zero_add]

theorem not_clientWaits {setup : Setup} {s : State} (h : ∀ results, s.client ≠ .receive results) :
    ¬ ClientWaits setup s := fun ⟨results, hclient, _⟩ => h results hclient

theorem not_serverWaits {setup : Setup} {s : State} (h : ∀ results, s.server ≠ .receive results) :
    ¬ ServerWaits setup s := fun ⟨results, hserver, _⟩ => h results hserver

/-- Where the round stands. -/
inductive Phase (setup : Setup) (s : State) : Prop where
  | resting (hclient : s.client = .send ∨ s.client = .left) (hserver : ServerWaits setup s)
      (hrequests : s.requests.content = []) (hreplies : s.replies.content = [])
      (hdelivered : Delivered setup s.requests s.journal.received.length 0)
      (hjournal : s.journal.At .resting)
  | requested (hclient : ClientWaits setup s) (hserver : ServerWaits setup s)
      (hrequests : s.requests.content = setup.message) (hreplies : s.replies.content = [])
      (hpartly : s.requests.arrived.length < setup.size)
      (hdelivered : Delivered setup s.requests s.journal.received.length s.requests.arrived.length)
      (hjournal : s.journal.At .resting)
  | arrived (hclient : ClientWaits setup s) (hserver : ServerWaits setup s)
      (hrequests : s.requests.content = setup.message) (hreplies : s.replies.content = [])
      (hwholly : s.requests.arrived.length = setup.size)
      (hdelivered : Delivered setup s.requests (s.journal.received.length + 1) 0)
      (hjournal : s.journal.At .asked)
  | woken (hclient : ClientWaits setup s) (hserver : s.server = .stamp)
      (hrequests : s.requests.content = []) (hreplies : s.replies.content = [])
      (hdelivered : Delivered setup s.requests (s.journal.received.length + 1) 0)
      (hjournal : s.journal.At .asked)
  | stamped (timestamp : UInt64) (hclient : ClientWaits setup s)
      (hserver : s.server = .send timestamp)
      (hrequests : s.requests.content = []) (hreplies : s.replies.content = [])
      (hdelivered : Delivered setup s.requests (s.journal.received.length + 1) 0)
      (hjournal : s.journal.At (.stamped timestamp))
  | replied (timestamp : UInt64) (hclient : ClientWaits setup s) (hserver : ServerWaits setup s)
      (hrequests : s.requests.content = []) (hreplies : s.replies.content = wordBytes timestamp)
      (hdelivered : Delivered setup s.requests (s.journal.received.length + 1) 0)
      (hjournal : s.journal.At (.stamped timestamp))
  | received (hclient : s.client = .bench) (hserver : ServerWaits setup s)
      (hrequests : s.requests.content = []) (hreplies : s.replies.content = [])
      (hdelivered : Delivered setup s.requests s.journal.received.length 0)
      (hjournal : s.journal.At (.received s.bench.singleStart))

/-- The first round has not begun. -/
theorem phase_start (setup : Setup) (clientErrno serverErrno : ℤ) (buffer : List UInt8)
    (bench : Benchmarks) : Phase setup (start clientErrno serverErrno buffer bench) :=
  .resting (Or.inl rfl) ⟨[], rfl, retried_nil _⟩ rfl rfl (by simp [Delivered, start,
    ByteStream.empty, Journal.empty]) Journal.at_empty

namespace Phase

variable {setup : Setup} {s t : State}

/-- The client sends a request into empty streams. -/
theorem clientSend (h : Phase setup s) (hsize : 1 ≤ setup.size)
    (hstep : step setup s .clientSend = some t) : Phase setup t := by
  obtain ⟨hclient, rfl⟩ := step_clientSend hstep
  have hwaits : ClientWaits setup
      { s with requests := s.requests.send setup.message, client := .receive [] } :=
    ⟨[], rfl, retried_nil _⟩
  cases h with
  | resting _ hserver hrequests hreplies hdelivered hjournal =>
    have hnone : s.requests.arrived = [] := (List.append_eq_nil_iff.mp hrequests).1
    refine .requested hwaits hserver ?_ hreplies ?_ ?_ hjournal
    · rw [ByteStream.content_send, hrequests, List.nil_append]
    · rw [ByteStream.arrived_send, hnone]
      exact hsize
    · rw [ByteStream.arrived_send, hnone]
      exact hdelivered
  | received hbench => simp [hclient] at hbench
  | requested hwaits | arrived hwaits | woken hwaits | stamped _ hwaits | replied _ hwaits =>
    exact absurd hwaits (not_clientWaits (by simp [hclient]))

/-- Another attempt of the client changes nothing else. -/
theorem clientAgain (h : Phase setup s) (hold : ClientWaits setup s) {results : List RecvResult}
    (hretried : Retried setup.clientBusy results) :
    Phase setup { s with client := .receive results } := by
  have hclient : ClientWaits setup { s with client := .receive results } :=
    ⟨results, rfl, hretried⟩
  cases h with
  | requested _ hserver hrequests hreplies hpartly hdelivered hjournal =>
    exact .requested hclient hserver hrequests hreplies hpartly hdelivered hjournal
  | arrived _ hserver hrequests hreplies hwholly hdelivered hjournal =>
    exact .arrived hclient hserver hrequests hreplies hwholly hdelivered hjournal
  | woken _ hserver hrequests hreplies hdelivered hjournal =>
    exact .woken hclient hserver hrequests hreplies hdelivered hjournal
  | stamped timestamp _ hserver hrequests hreplies hdelivered hjournal =>
    exact .stamped timestamp hclient hserver hrequests hreplies hdelivered hjournal
  | replied timestamp _ hserver hrequests hreplies hdelivered hjournal =>
    exact .replied timestamp hclient hserver hrequests hreplies hdelivered hjournal
  | resting hidle => exact absurd hold (not_clientWaits (by rcases hidle with h | h <;> simp [h]))
  | received hbench => exact absurd hold (not_clientWaits (by simp [hbench]))

/-- Another attempt of the server changes nothing else. -/
theorem serverAgain (h : Phase setup s) (hold : ServerWaits setup s) {results : List RecvResult}
    (hretried : Retried setup.serverBusy results) :
    Phase setup { s with server := .receive results } := by
  have hserver : ServerWaits setup { s with server := .receive results } :=
    ⟨results, rfl, hretried⟩
  cases h with
  | resting hclient _ hrequests hreplies hdelivered hjournal =>
    exact .resting hclient hserver hrequests hreplies hdelivered hjournal
  | requested hclient _ hrequests hreplies hpartly hdelivered hjournal =>
    exact .requested hclient hserver hrequests hreplies hpartly hdelivered hjournal
  | arrived hclient _ hrequests hreplies hwholly hdelivered hjournal =>
    exact .arrived hclient hserver hrequests hreplies hwholly hdelivered hjournal
  | replied timestamp hclient _ hrequests hreplies hdelivered hjournal =>
    exact .replied timestamp hclient hserver hrequests hreplies hdelivered hjournal
  | received hclient _ hrequests hreplies hdelivered hjournal =>
    exact .received hclient hserver hrequests hreplies hdelivered hjournal
  | woken _ hstamp => exact absurd hold (not_serverWaits (by simp [hstamp]))
  | stamped _ _ hsend => exact absurd hold (not_serverWaits (by simp [hsend]))

/-- The only reply there can be is that of the current round. -/
theorem of_replies (h : Phase setup s) (hcontent : s.replies.content ≠ []) :
    ∃ timestamp, ServerWaits setup s ∧ s.requests.content = [] ∧
      s.replies.content = wordBytes timestamp ∧
      Delivered setup s.requests (s.journal.received.length + 1) 0 ∧
      s.journal.At (.stamped timestamp) := by
  cases h with
  | replied timestamp _ hserver hrequests hreplies hdelivered hjournal =>
    exact ⟨timestamp, hserver, hrequests, hreplies, hdelivered, hjournal⟩
  | resting _ _ _ hnil | requested _ _ _ hnil | arrived _ _ _ hnil | woken _ _ _ hnil
  | stamped _ _ _ _ hnil | received _ _ _ hnil => exact absurd hnil hcontent

/-- A request of which all bytes have arrived is that of the current round. -/
theorem of_requests (h : Phase setup s) (hcontent : s.requests.content ≠ [])
    (hwholly : setup.size ≤ s.requests.arrived.length) :
    ClientWaits setup s ∧ s.requests.content = setup.message ∧ s.replies.content = [] ∧
      Delivered setup s.requests (s.journal.received.length + 1) 0 ∧ s.journal.At .asked := by
  cases h with
  | arrived hclient _ hrequests hreplies _ hdelivered hjournal =>
    exact ⟨hclient, hrequests, hreplies, hdelivered, hjournal⟩
  | requested _ _ _ _ hpartly => exact absurd hwholly (Nat.not_le_of_lt hpartly)
  | resting _ _ hnil | woken _ _ hnil | stamped _ _ _ hnil | replied _ _ _ hnil
  | received _ _ hnil => exact absurd hnil hcontent

/-- A client in its `receive` has only been told to try again. -/
theorem clientRetried (h : Phase setup s) {results : List RecvResult}
    (hclient : s.client = .receive results) : Retried setup.clientBusy results := by
  cases h with
  | requested hwaits | arrived hwaits | woken hwaits | stamped _ hwaits | replied _ hwaits =>
    obtain ⟨results', hpc, hretried⟩ := hwaits
    obtain rfl := ClientPc.receive.inj (hclient.symm.trans hpc)
    exact hretried
  | resting hidle => simp [hclient] at hidle
  | received hbench => simp [hclient] at hbench

/-- A server in its `receive` has only been told to try again. -/
theorem serverRetried (h : Phase setup s) {results : List RecvResult}
    (hserver : s.server = .receive results) : Retried setup.serverBusy results := by
  cases h with
  | resting _ hwaits | requested _ hwaits | arrived _ hwaits | replied _ _ hwaits
  | received _ hwaits =>
    obtain ⟨results', hpc, hretried⟩ := hwaits
    obtain rfl := ServerPc.receive.inj (hserver.symm.trans hpc)
    exact hretried
  | woken _ hstamp => simp [hserver] at hstamp
  | stamped _ _ hsend => simp [hserver] at hsend

/-- The client tries again, or receives the timestamp that is in the stream. -/
theorem clientRecv {again : Bool} (h : Phase setup s)
    (hstep : step setup s (.clientRecv again) = some t) : Phase setup t := by
  obtain ⟨results, hclient, hcase⟩ := step_clientRecv hstep
  have hretried := h.clientRetried hclient
  rcases hcase with ⟨hbusy, rfl⟩ | ⟨bytes, replies, htake, rfl⟩
  · have hagain := hretried.retry hbusy
    rw [clientReceive, hagain.receive_eq_none]
    exact h.clientAgain ⟨results, hclient, hretried⟩ hagain
  · have hcontent : s.replies.content ≠ [] := by
      intro hnil
      rw [ByteStream.take_of_content_nil hnil (by decide)] at htake
      cases htake
    obtain ⟨timestamp, hserver, hrequests, hreplies, hdelivered, hjournal⟩ :=
      h.of_replies hcontent
    obtain ⟨rfl, hempty, _, _⟩ := ByteStream.take_message hreplies (by simpa using htake)
    obtain ⟨errno, heq⟩ := hretried.receive_data s.clientErrno (wordBytes s.bench.singleStart)
      (wordBytes timestamp) []
    have hbuffer : wordBytes timestamp ++ (wordBytes s.bench.singleStart).drop 8 =
        wordBytes timestamp := by
      rw [List.drop_of_length_le (by simp), List.append_nil]
    rw [length_wordBytes, hbuffer] at heq
    simp only [clientReceive, heq, ofWordBytes_wordBytes]
    refine .received rfl hserver hrequests hempty ?_ hjournal.receive
    change Delivered setup s.requests (s.journal.received ++ [timestamp]).length 0
    rw [List.length_append, List.length_singleton]
    exact hdelivered

/-- The client records its sample. -/
theorem clientBenchmark {now : UInt64} (h : Phase setup s)
    (hstep : step setup s (.clientBenchmark now) = some t) : Phase setup t := by
  obtain ⟨hclient, rfl⟩ := step_clientBenchmark hstep
  cases h with
  | received _ hserver hrequests hreplies hdelivered hjournal =>
    exact .resting (Or.inl rfl) hserver hrequests hreplies hdelivered (hjournal.sample now)
  | resting hidle => simp [hclient] at hidle
  | requested hwaits | arrived hwaits | woken hwaits | stamped _ hwaits | replied _ hwaits =>
    exact absurd hwaits (not_clientWaits (by simp [hclient]))

/-- The client leaves its loop. -/
theorem clientLeave (h : Phase setup s) (hstep : step setup s .clientLeave = some t) :
    Phase setup t := by
  obtain ⟨hclient, rfl⟩ := step_clientLeave hstep
  cases h with
  | resting _ hserver hrequests hreplies hdelivered hjournal =>
    exact .resting (Or.inr rfl) hserver hrequests hreplies hdelivered hjournal
  | received hbench => simp [hclient] at hbench
  | requested hwaits | arrived hwaits | woken hwaits | stamped _ hwaits | replied _ hwaits =>
    exact absurd hwaits (not_clientWaits (by simp [hclient]))

/-- The server tries again, or receives the request that has arrived. -/
theorem serverRecv {again : Bool} (h : Phase setup s) (hsize : 1 ≤ setup.size)
    (hstep : step setup s (.serverRecv again) = some t) : Phase setup t := by
  obtain ⟨results, hserver, hcase⟩ := step_serverRecv hstep
  have hretried := h.serverRetried hserver
  rcases hcase with ⟨hbusy, rfl⟩ | ⟨bytes, requests, htake, rfl⟩
  · have hagain := hretried.retry hbusy
    rw [serverReceive, hagain.receive_eq_none]
    exact h.serverAgain ⟨results, hserver, hretried⟩ hagain
  · have hcontent : s.requests.content ≠ [] := by
      intro hnil
      rw [ByteStream.take_of_content_nil hnil hsize] at htake
      cases htake
    obtain ⟨_, _, hwholly, _⟩ := ByteStream.take_eq_some htake
    obtain ⟨hclient, hrequests, hreplies, hdelivered, hjournal⟩ :=
      h.of_requests hcontent hwholly
    obtain ⟨rfl, hempty, _, hkept⟩ := ByteStream.take_message hrequests htake
    obtain ⟨errno, heq⟩ := hretried.receive_data s.serverErrno s.buffer setup.message []
    simp only [serverReceive, Setup.size, heq]
    exact .woken hclient rfl hempty hreplies (hkept.trans hdelivered) hjournal

/-- The server takes its timestamp. -/
theorem serverStamp {now : UInt64} (h : Phase setup s)
    (hstep : step setup s (.serverStamp now) = some t) : Phase setup t := by
  obtain ⟨hserver, rfl⟩ := step_serverStamp hstep
  cases h with
  | woken hclient _ hrequests hreplies hdelivered hjournal =>
    exact .stamped now hclient rfl hrequests hreplies hdelivered (hjournal.stamp now)
  | stamped _ _ hsend => simp [hserver] at hsend
  | resting _ hwaits | requested _ hwaits | arrived _ hwaits | replied _ _ hwaits
  | received _ hwaits => exact absurd hwaits (not_serverWaits (by simp [hserver]))

/-- The server sends its timestamp into empty streams. -/
theorem serverSend (h : Phase setup s) (hstep : step setup s .serverSend = some t) :
    Phase setup t := by
  obtain ⟨timestamp, hserver, rfl⟩ := step_serverSend hstep
  cases h with
  | stamped timestamp' hclient hsend hrequests hreplies hdelivered hjournal =>
    obtain rfl := ServerPc.send.inj (hserver.symm.trans hsend)
    refine .replied timestamp hclient ⟨[], rfl, retried_nil _⟩ hrequests ?_ hdelivered hjournal
    rw [ByteStream.content_send, hreplies, List.nil_append]
  | woken _ hstamp => simp [hserver] at hstamp
  | resting _ hwaits | requested _ hwaits | arrived _ hwaits | replied _ _ hwaits
  | received _ hwaits => exact absurd hwaits (not_serverWaits (by simp [hserver]))

/-- More of the request arrives; with its last byte the server has been asked. -/
theorem requestArrives {n : ℕ} (h : Phase setup s) (hsize : 1 ≤ setup.size)
    (hstep : step setup s (.requestArrives n) = some t) : Phase setup t := by
  simp only [step, Option.map_eq_some_iff] at hstep
  obtain ⟨requests, harrive, rfl⟩ := hstep
  have hmissing : s.requests.arrived.length < s.requests.content.length := by
    by_contra hall
    rw [ByteStream.arrive_of_all_arrived (Nat.le_of_not_lt hall)] at harrive
    cases harrive
  obtain ⟨hcontent, _, hlength, hnow⟩ := ByteStream.arrive_eq_some harrive
  cases h with
  | requested hclient hserver hrequests hreplies hpartly hdelivered hjournal =>
    have hcount : s.journal.asked = s.journal.received.length := hjournal.asked_count
    have hnew : Delivered setup requests s.journal.received.length requests.arrived.length := by
      rw [Delivered, hnow, hlength, hdelivered, Nat.add_assoc]
    have hbound := requests.arrived_le_content
    rw [hcontent, hrequests] at hbound
    rcases Nat.lt_or_eq_of_le hbound with hmore | hall
    · rw [hnew.div hmore, ← hcount]
      exact .requested hclient hserver (hcontent.trans hrequests) hreplies hmore hnew hjournal
    · have hnext : Delivered setup requests (s.journal.received.length + 1) 0 := by
        rw [Delivered, hnew, hall, Nat.succ_mul]
        rfl
      rw [hnext.div hsize, ← hcount]
      exact .arrived hclient hserver (hcontent.trans hrequests) hreplies hall hnext hjournal.ask
  | arrived _ _ hrequests _ hwholly =>
    rw [hrequests, hwholly] at hmissing
    exact absurd hmissing (Nat.lt_irrefl _)
  | resting _ _ hnil | woken _ _ hnil | stamped _ _ _ hnil | replied _ _ _ hnil
  | received _ _ hnil =>
    rw [hnil] at hmissing
    exact absurd hmissing (Nat.not_lt_zero _)

/-- More of the reply arrives. -/
theorem replyArrives {n : ℕ} (h : Phase setup s)
    (hstep : step setup s (.replyArrives n) = some t) : Phase setup t := by
  simp only [step, Option.map_eq_some_iff] at hstep
  obtain ⟨replies, harrive, rfl⟩ := hstep
  obtain ⟨hcontent, _⟩ := ByteStream.arrive_eq_some harrive
  cases h with
  | resting hclient hserver hrequests hreplies hdelivered hjournal =>
    exact .resting hclient hserver hrequests (hcontent.trans hreplies) hdelivered hjournal
  | requested hclient hserver hrequests hreplies hpartly hdelivered hjournal =>
    exact .requested hclient hserver hrequests (hcontent.trans hreplies) hpartly hdelivered
      hjournal
  | arrived hclient hserver hrequests hreplies hwholly hdelivered hjournal =>
    exact .arrived hclient hserver hrequests (hcontent.trans hreplies) hwholly hdelivered hjournal
  | woken hclient hserver hrequests hreplies hdelivered hjournal =>
    exact .woken hclient hserver hrequests (hcontent.trans hreplies) hdelivered hjournal
  | stamped timestamp hclient hserver hrequests hreplies hdelivered hjournal =>
    exact .stamped timestamp hclient hserver hrequests (hcontent.trans hreplies) hdelivered
      hjournal
  | replied timestamp hclient hserver hrequests hreplies hdelivered hjournal =>
    exact .replied timestamp hclient hserver hrequests (hcontent.trans hreplies) hdelivered
      hjournal
  | received hclient hserver hrequests hreplies hdelivered hjournal =>
    exact .received hclient hserver hrequests (hcontent.trans hreplies) hdelivered hjournal

/-- Every step leads to a phase again. -/
theorem step {a : Action} (h : Phase setup s) (hsize : 1 ≤ setup.size)
    (hstep : Tcp.step setup s a = some t) : Phase setup t := by
  cases a with
  | clientSend => exact h.clientSend hsize hstep
  | clientRecv again => exact h.clientRecv hstep
  | clientBenchmark now => exact h.clientBenchmark hstep
  | clientLeave => exact h.clientLeave hstep
  | serverRecv again => exact h.serverRecv hsize hstep
  | serverStamp now => exact h.serverStamp hstep
  | serverSend => exact h.serverSend hstep
  | requestArrives n => exact h.requestArrives hsize hstep
  | replyArrives n => exact h.replyArrives hstep

/-- In no phase has a process thrown. -/
theorem not_thrown (h : Phase setup s) : s.client ≠ .thrown ∧ s.server ≠ .thrown := by
  constructor
  · intro hthrown
    cases h with
    | resting hidle => simp [hthrown] at hidle
    | received hbench => simp [hthrown] at hbench
    | requested hwaits | arrived hwaits | woken hwaits | stamped _ hwaits | replied _ hwaits =>
      exact absurd hwaits (not_clientWaits (by simp [hthrown]))
  · intro hthrown
    cases h with
    | woken _ hstamp => simp [hthrown] at hstamp
    | stamped _ _ hsend => simp [hthrown] at hsend
    | resting _ hwaits | requested _ hwaits | arrived _ hwaits | replied _ _ hwaits
    | received _ hwaits => exact absurd hwaits (not_serverWaits (by simp [hthrown]))

/-- What is in flight is nothing, one request, or one reply. -/
theorem in_flight (h : Phase setup s) :
    (s.requests.content = [] ∧ s.replies.content = []) ∨
      (s.requests.content = setup.message ∧ s.replies.content = []) ∨
      (s.requests.content = [] ∧ ∃ timestamp, s.replies.content = wordBytes timestamp) := by
  cases h with
  | requested _ _ hrequests hreplies | arrived _ _ hrequests hreplies =>
    exact Or.inr (Or.inl ⟨hrequests, hreplies⟩)
  | replied timestamp _ _ hrequests hreplies =>
    exact Or.inr (Or.inr ⟨hrequests, timestamp, hreplies⟩)
  | resting _ _ hrequests hreplies | woken _ _ hrequests hreplies
  | stamped _ _ _ hrequests hreplies | received _ _ hrequests hreplies =>
    exact Or.inl ⟨hrequests, hreplies⟩

/-- In every phase the answers match the requests. -/
theorem paired (h : Phase setup s) : s.journal.Paired := by
  cases h with
  | resting _ _ _ _ _ hjournal | requested _ _ _ _ _ _ hjournal | arrived _ _ _ _ _ _ hjournal
  | woken _ _ _ _ _ hjournal | stamped _ _ _ _ _ _ hjournal | replied _ _ _ _ _ _ hjournal
  | received _ _ _ _ _ hjournal => exact hjournal.toPaired

end Phase

/-- `tcp`, for every message of at least one byte, blocking or busy sockets, every
interleaving and any number of rounds: neither process throws; nothing, one request or one
reply is in flight; the `k`-th value the client receives is the server's `k`-th timestamp,
taken when `k` requests had wholly arrived; and if the clock does not go back, no sample
wraps. -/
theorem tcp_pairing (setup : Setup) (clientErrno serverErrno : ℤ) (buffer : List UInt8)
    (bench : Benchmarks) (actions : List Action) (s : State) (hsize : 1 ≤ setup.size)
    (hrun : run (step setup) (start clientErrno serverErrno buffer bench) actions = some s) :
    (s.client ≠ .thrown ∧ s.server ≠ .thrown) ∧
      ((s.requests.content = [] ∧ s.replies.content = []) ∨
        (s.requests.content = setup.message ∧ s.replies.content = []) ∨
        (s.requests.content = [] ∧ ∃ timestamp, s.replies.content = wordBytes timestamp)) ∧
      (∀ (k : ℕ) value, s.journal.received[k]? = some value →
        s.journal.stamps[k]? = some (value, k + 1)) ∧
      (s.journal.readings.Pairwise (· ≤ ·) → ∀ sample ∈ s.journal.samples,
        sample.1 ≤ sample.2 ∧
          (sample.2 - sample.1).toNat = sample.2.toNat - sample.1.toNat) := by
  have hphase := run_invariant (Phase setup) (fun h hstep => h.step hsize hstep)
    (phase_start setup clientErrno serverErrno buffer bench) hrun
  refine ⟨hphase.not_thrown, hphase.in_flight, fun k value => hphase.paired.stamp_of_received, ?_⟩
  intro hclock sample hsample
  exact no_wrap_of_readings hclock (hphase.paired.sampled sample hsample)

/-- One round with messages of three bytes over busy sockets; request and reply arrive in
two pieces each. -/
def piecewise : List Action :=
  [.serverRecv true, .clientSend, .clientRecv true, .requestArrives 2, .serverRecv true,
    .requestArrives 1, .serverRecv false, .serverStamp 700, .serverSend, .replyArrives 5,
    .clientRecv true, .replyArrives 3, .clientRecv false, .clientBenchmark 900]

/-- The timestamp of this round is the value received. -/
theorem tcp_pairing_piecewise :
    ∃ s, run (step ⟨[1, 2, 3], true, true⟩)
        (start 0 0 [0, 0, 0] ⟨0, 0, 50, 0, 0, 0, 0⟩) piecewise = some s ∧
      s.journal.received = [700] ∧ s.journal.stamps[0]? = some (700, 1) := by
  have hrun : run (step ⟨[1, 2, 3], true, true⟩)
      (start 0 0 [0, 0, 0] ⟨0, 0, 50, 0, 0, 0, 0⟩) piecewise =
    some ⟨⟨[], [], 3⟩, ⟨[], [], 8⟩, .send, .receive [], 11, 11, [1, 2, 3],
      ⟨0, 700, 50, 200, 200, 0, 1⟩, ⟨1, [(700, 1)], [700], [(700, 900)], [700, 900]⟩⟩ := by
    decide +kernel
  refine ⟨_, hrun, rfl, ?_⟩
  exact (tcp_pairing _ 0 0 [0, 0, 0] _ piecewise _ (by decide) hrun).2.2.1 0 700 rfl

end IpcBench.Tcp
