import IpcBench.Domain.Exchange
import IpcBench.Tcp.Refinement

/-!
# `domain` answers every request, or one

With messages of at most eight bytes `domain` is the measured exchange, as `tcp` is. With
longer messages its server throws behind the first timestamp. To the client that looks like a
server of `tcp` that is never scheduled again, until the connection is closed and the next
request or the next answer ends the client too.
-/

namespace IpcBench.Domain

open Lib

/-- What an observer sees of a step. A request that ends the client is not sent. -/
def event (s : State) (a : Action) (t : State) : Option (Lib.Event UInt64) :=
  match a with
  | .link .clientSend => if t.link.client = .thrown then none else some .ask
  | .link a => Tcp.event s.link a t.link
  | .serverExit => none

/-- A step as in `tcp` shows what it shows there. -/
theorem event_link {setup : Tcp.Setup} {s : State} {b : Tcp.Action} {link : Tcp.State}
    (htcp : Tcp.step setup s.link b = some link) :
    event s (.link b) { s with link := link } = Tcp.event s.link b link := by
  cases b with
  | clientSend =>
    obtain ⟨_, rfl⟩ := Tcp.step_clientSend htcp
    rfl
  | _ => rfl

/-- The connection with a server that is waiting in the place of one that has thrown. -/
def mend (l : Tcp.State) : Tcp.State :=
  { l with server := if l.server = .thrown then .receive [] else l.server }

theorem mend_eq {l : Tcp.State} (h : l.server ≠ .thrown) : mend l = l := by
  rw [mend, if_neg h]

/-- The state of both processes and of the connection stands for a state of the exchange:
the mended connection does, or both processes have ended. -/
inductive Shows (setup : Tcp.Setup) (s : State) (x : Exchange UInt64 Benchmarks) : Prop where
  | running (hshows : Tcp.Shows setup (mend s.link) x)
      (hclosed : s.closed = true → s.link.server = .thrown)
  | ended (hclient : s.link.client = .thrown) (hserver : s.link.server = .thrown)
      (htotal : x.total = s.link.bench)

theorem shows_start (setup : Tcp.Setup) (clientErrno serverErrno : ℤ) (buffer : List UInt8)
    (bench : Benchmarks) :
    Shows setup (start clientErrno serverErrno buffer bench) ⟨.resting, bench⟩ :=
  .running (Tcp.shows_start setup clientErrno serverErrno buffer bench) (by simp [start])

theorem Shows.total_eq {setup : Tcp.Setup} {s : State} {x : Exchange UInt64 Benchmarks}
    (h : Shows setup s x) : x.total = s.link.bench := by
  cases h with
  | running hshows => exact hshows.agrees.total_eq
  | ended _ _ htotal => exact htotal

section Link

variable {setup : Tcp.Setup} {l l' : Tcp.State}

/-- The `receive` of the client is no concern of the server. -/
theorem clientReceive_frame (setup : Tcp.Setup) (l : Tcp.State) (results : List RecvResult) :
    (Tcp.clientReceive setup l results).server = l.server ∧
      (Tcp.clientReceive setup l results).journal.stamps = l.journal.stamps ∧
      Tcp.clientReceive setup (mend l) results = mend (Tcp.clientReceive setup l results) := by
  simp only [Tcp.clientReceive, mend]
  split
  · exact ⟨rfl, rfl, rfl⟩
  · split <;> exact ⟨rfl, rfl, rfl⟩

/-- Which steps do not concern the server. -/
def Apart : Tcp.Action → Prop
  | .clientSend | .clientRecv _ | .clientBenchmark _ | .clientLeave => True
  | .requestArrives _ | .replyArrives _ => True
  | .serverRecv _ | .serverStamp _ | .serverSend => False

/-- Such a step leaves the server and its timestamps alone, shows no timestamp, and is
possible in the mended connection too. -/
theorem step_of_apart {b : Tcp.Action} (hapart : Apart b) (hstep : Tcp.step setup l b = some l') :
    l'.server = l.server ∧ l'.journal.stamps = l.journal.stamps ∧
      (∀ now, Tcp.event l b l' ≠ some (.stamp now)) ∧
      Tcp.step setup (mend l) b = some (mend l') := by
  cases b with
  | clientSend =>
    obtain ⟨hclient, rfl⟩ := Tcp.step_clientSend hstep
    have hsent : (setup.message.length : ℤ) ≠ -1 := by omega
    refine ⟨rfl, rfl, by simp [Tcp.event], ?_⟩
    simp [Tcp.step, mend, hclient, Tcp.send, hsent]
  | clientRecv again =>
    cases hclient : l.client with
    | receive results =>
      simp only [Tcp.step, hclient, Option.map_eq_some_iff] at hstep
      obtain ⟨yielded, hyields, rfl⟩ := hstep
      obtain ⟨hserver, hstamps, hmend⟩ := clientReceive_frame setup
        { l with replies := yielded.2 } (results ++ [yielded.1])
      refine ⟨hserver, hstamps, ?_, ?_⟩
      · simp only [Tcp.event]
        split <;> simp
      · simp only [hclient] at hmend
        rw [← hmend]
        simp only [Tcp.step, mend, hclient, hyields, Option.map_some]
    | _ => simp [Tcp.step, hclient] at hstep
  | clientBenchmark now =>
    obtain ⟨hclient, rfl⟩ := Tcp.step_clientBenchmark hstep
    exact ⟨rfl, rfl, by simp [Tcp.event], by simp [Tcp.step, mend, hclient]⟩
  | clientLeave =>
    obtain ⟨hclient, rfl⟩ := Tcp.step_clientLeave hstep
    exact ⟨rfl, rfl, by simp [Tcp.event], by simp [Tcp.step, mend, hclient]⟩
  | requestArrives n =>
    simp only [Tcp.step, Option.map_eq_some_iff] at hstep
    obtain ⟨requests, harrive, rfl⟩ := hstep
    exact ⟨rfl, rfl, by simp [Tcp.event], by simp [Tcp.step, mend, harrive]⟩
  | replyArrives n =>
    simp only [Tcp.step, Option.map_eq_some_iff] at hstep
    obtain ⟨replies, harrive, rfl⟩ := hstep
    exact ⟨rfl, rfl, by simp [Tcp.event], by simp [Tcp.step, mend, harrive]⟩
  | serverRecv | serverStamp | serverSend => exact hapart.elim

/-- The other steps, up to the `send`: the server receives, or takes a timestamp. -/
theorem step_of_not_apart {b : Tcp.Action} (hserves : ¬ Apart b) (hsend : b ≠ .serverSend)
    (hstep : Tcp.step setup l b = some l') :
    (∃ again results, b = .serverRecv again ∧ l.server = .receive results ∧
      l'.journal.stamps = l.journal.stamps ∧ ∀ timestamp, l'.server ≠ .send timestamp) ∨
    ∃ now, b = .serverStamp now ∧ l.server = .stamp ∧ l'.server = .send now ∧
      l'.journal.stamps.length = l.journal.stamps.length + 1 := by
  cases b with
  | serverRecv again =>
    obtain ⟨results, hserver, hcase⟩ := Tcp.step_serverRecv hstep
    have hnot : ∀ (l : Tcp.State) (results : List RecvResult) (timestamp : UInt64),
        (Tcp.serverReceive setup l results).server ≠ .send timestamp := by
      intro l results timestamp
      unfold Tcp.serverReceive
      split
      · simp
      · split <;> simp
    refine Or.inl ⟨again, results, rfl, hserver, ?_⟩
    rcases hcase with ⟨_, rfl⟩ | ⟨bytes, requests, _, rfl⟩
    · exact ⟨by rw [(Tcp.serverReceive_frame _ _ _).2.2.1], hnot _ _⟩
    · exact ⟨by rw [(Tcp.serverReceive_frame _ _ _).2.2.1], hnot _ _⟩
  | serverStamp now =>
    obtain ⟨hserver, rfl⟩ := Tcp.step_serverStamp hstep
    exact Or.inr ⟨now, rfl, hserver, rfl, by simp [Journal.stamp]⟩
  | serverSend => exact absurd rfl hsend
  | _ => exact absurd trivial hserves

end Link

section Steps

variable {setup : Tcp.Setup} {s t : State} {x : Exchange UInt64 Benchmarks}

/-- A step that the mended connection takes as well shows what the exchange does. -/
theorem shows_of_tcp (hsize : 1 ≤ setup.size) {b : Tcp.Action} {link : Tcp.State}
    (hshows : Tcp.Shows setup (mend s.link) x)
    (hstep : Tcp.step setup (mend s.link) b = some (mend link))
    (hevent : Tcp.event s.link b link = Tcp.event (mend s.link) b (mend link))
    (hclosed : s.closed = true → link.server = .thrown) :
    ∃ q, run measured x (Tcp.event s.link b link).toList = some q ∧
      Shows setup { s with link := link } q := by
  obtain ⟨q, hrun, hnext⟩ := Tcp.refines hsize _ _ _ _ hshows hstep
  rw [hevent]
  exact ⟨q, hrun, .running hnext hclosed⟩

/-- A client whose answer does not come any more fails. -/
theorem clientReceive_reset {results : List RecvResult}
    (hretried : Retried setup.clientBusy results) (l : Tcp.State) :
    Tcp.clientReceive setup l (results ++ [.error econnreset]) = { l with client := .thrown } := by
  have hother : econnreset ≠ eagain := by decide
  obtain ⟨r, hreceive, hcode⟩ := hretried.receive_error hother 8 l.clientErrno
    (wordBytes l.bench.singleStart)
  rw [Tcp.clientReceive, hreceive]
  exact if_pos hcode

/-- When the server has gone and no answer is there, the request of a waiting client has been
left unread. -/
theorem requests_unread (hsize : 1 ≤ setup.size) {results : List RecvResult}
    (h : Tcp.Phase setup (mend s.link)) (hclient : s.link.client = .receive results)
    (hserver : s.link.server = .thrown) (hreplies : s.link.replies.content = []) :
    s.link.requests.content ≠ [] := by
  have hmended : (mend s.link).server = .receive [] := by rw [mend, if_pos hserver]
  have hmessage : setup.message ≠ [] := List.length_pos_iff.mp hsize
  cases h with
  | requested _ _ hrequests | arrived _ _ hrequests =>
    intro hnil
    exact hmessage (hrequests.symm.trans hnil)
  | replied timestamp _ _ _ hanswer =>
    have hlength := congrArg List.length (hanswer.symm.trans hreplies)
    simp at hlength
  | woken _ hstamp => simp [hmended] at hstamp
  | stamped _ _ hsend => simp [hmended] at hsend
  | resting hidle => rcases hidle with hidle | hidle <;> simp [mend, hclient] at hidle
  | received hbench => simp [mend, hclient] at hbench

/-- When both processes have ended nothing is shown any more. -/
theorem Shows.of_over {a : Action} (hclient : s.link.client = .thrown)
    (hserver : s.link.server = .thrown) (htotal : x.total = s.link.bench)
    (hstep : step setup s a = some t) : event s a t = none ∧ Shows setup t x := by
  cases a with
  | serverExit =>
    simp only [step, Option.ite_none_right_eq_some, Option.some.injEq] at hstep
    obtain ⟨_, rfl⟩ := hstep
    exact ⟨rfl, .ended hclient hserver htotal⟩
  | link b =>
    cases b with
    | requestArrives n | replyArrives n =>
      simp only [step, Tcp.step, Option.map_eq_some_iff] at hstep
      obtain ⟨_, ⟨stream, _, rfl⟩, rfl⟩ := hstep
      exact ⟨rfl, .ended hclient hserver htotal⟩
    | _ => simp [step, Tcp.step, hclient, hserver] at hstep

/-- Every step of `domain` shows what the exchange does. -/
theorem refines (hsize : 1 ≤ setup.size) : Refines (step setup) event measured (Shows setup) := by
  intro s a t x h hstep
  cases h with
  | ended hclient hserver htotal =>
    obtain ⟨hsilent, hover⟩ := Shows.of_over hclient hserver htotal hstep
    rw [hsilent]
    exact ⟨x, rfl, hover⟩
  | running hshows hclosed =>
    rcases step_cases hstep with ⟨rfl, hserver, rfl⟩ | ⟨rfl, hgone, rfl⟩ |
      ⟨again, results, rfl, hclient, hgone, hreplies, rfl⟩ | ⟨timestamp, rfl, hserver, rfl⟩ |
      ⟨b, link, rfl, hsend, htcp, rfl⟩
    · exact ⟨x, rfl, .running hshows fun _ => hserver⟩
    · exact ⟨x, rfl, .ended rfl (hclosed hgone) hshows.agrees.total_eq⟩
    · have hserver := hclosed hgone
      have hretried := hshows.phase.clientRetried hclient
      rw [if_neg (requests_unread hsize hshows.phase hclient hserver hreplies),
        clientReceive_reset hretried]
      exact ⟨x, rfl, .ended rfl hserver hshows.agrees.total_eq⟩
    · -- mended, a server that throws behind its `send` is one that goes on
      have halive : s.link.server ≠ .thrown := by simp [hserver]
      refine shows_of_tcp (b := .serverSend) hsize hshows ?_ rfl
        fun h => absurd (hclosed h) halive
      simp only [mend, Tcp.step, hserver, Tcp.send]
      split <;> simp_all
    · rw [event_link htcp]
      by_cases hapart : Apart b
      · obtain ⟨hserver, _, _, hmended⟩ := step_of_apart hapart htcp
        refine shows_of_tcp hsize hshows hmended ?_ fun h => hserver.trans (hclosed h)
        cases b <;> rfl
      · have halive : s.link.server ≠ .thrown := by
          rcases step_of_not_apart hapart hsend htcp with ⟨_, results, _, hserver, _⟩ |
            ⟨_, _, hserver, _⟩ <;> simp [hserver]
        have hphase := hshows.phase
        rw [mend_eq halive] at hphase
        have hnext := (hphase.step hsize htcp).not_thrown.2
        refine shows_of_tcp hsize hshows ?_ ?_ fun h => absurd (hclosed h) halive
        · rw [mend_eq halive, mend_eq hnext, htcp]
        · rw [mend_eq halive, mend_eq hnext]

end Steps

section Stamps

variable {setup : Tcp.Setup} {s t : State}

/-- A server of long messages takes one timestamp and throws. -/
def Once (s : State) : Prop :=
  match s.link.server with
  | .receive _ | .stamp => s.link.journal.stamps.length = 0
  | .send _ => s.link.journal.stamps.length = 1
  | .thrown => s.link.journal.stamps.length ≤ 1

/-- A step that changes neither the server nor the timestamps. -/
theorem Once.of_frame (h : Once s) (hserver : t.link.server = s.link.server)
    (hstamps : t.link.journal.stamps = s.link.journal.stamps) : Once t := by
  unfold Once at h ⊢
  rwa [hserver, hstamps]

/-- A server that has not taken a timestamp and is not about to send one. -/
theorem Once.of_none (hnone : s.link.journal.stamps.length = 0)
    (hserver : ∀ timestamp, s.link.server ≠ .send timestamp) : Once s := by
  unfold Once
  split
  · exact hnone
  · exact hnone
  · next hsend => exact absurd hsend (hserver _)
  · omega

/-- With messages of more than eight bytes every step of `domain` keeps it so. -/
theorem Once.step (hsize : 8 < setup.size) {a : Action} (h : Once s)
    (hstep : Domain.step setup s a = some t) : Once t := by
  rcases step_cases hstep with ⟨rfl, _, rfl⟩ | ⟨rfl, _, rfl⟩ |
    ⟨again, results, rfl, _, _, _, rfl⟩ | ⟨timestamp, rfl, hserver, rfl⟩ |
    ⟨b, link, rfl, hsend, htcp, rfl⟩
  · exact h
  · exact h.of_frame rfl rfl
  · obtain ⟨hserver, hstamps, _⟩ := clientReceive_frame setup s.link
      (results ++ [if s.link.requests.content = [] then .data [] else .error econnreset])
    exact h.of_frame hserver hstamps
  · -- the eight bytes of the timestamp are fewer than the size
    simp only [Once, hserver] at h
    simp [Once, hsize, h]
  · by_cases hapart : Apart b
    · obtain ⟨hserver, hstamps, _⟩ := step_of_apart hapart htcp
      exact h.of_frame hserver hstamps
    · rcases step_of_not_apart hapart hsend htcp with ⟨_, _, _, hserver, hstamps, hnot⟩ |
        ⟨_, _, hserver, hnext, hstamps⟩
      · simp only [Once, hserver] at h
        refine .of_none ?_ hnot
        rw [hstamps]
        exact h
      · simp only [Once, hserver] at h
        simp [Once, hnext, hstamps, h]

end Stamps

section Round

variable {setup : Tcp.Setup} {s : State} {bench : Benchmarks}

/-- The client is at the head of its loop, and the connection is open. -/
structure Resting (bench : Benchmarks) (s : State) : Prop where
  client : s.link.client = .send
  opened : s.closed = false
  bench : s.link.bench = bench

/-- The state after a request. -/
def asked (setup : Tcp.Setup) (s : State) : State :=
  { s with
    link := { s.link with
      requests := s.link.requests.send setup.message
      client := .receive [] } }

/-- A client at the head of its loop sends a request. -/
theorem reaches_ask (setup : Tcp.Setup) (h : Resting bench s) :
    Reaches (step setup) event s [.ask] (asked setup s) := by
  have hsent : (setup.message.length : ℤ) ≠ -1 := by omega
  refine .visible (a := .link .clientSend) ?_ ?_
  · simp [step, Tcp.step, Tcp.send, h.client, h.opened, hsent, asked]
  · simp [event, asked]

/-- The request of a waiting client is in the stream, and nothing else. -/
structure Asked (setup : Tcp.Setup) (bench : Benchmarks) (s : State) : Prop where
  client : s.link.client = .receive []
  server : s.link.server = .receive []
  requests : s.link.requests = ByteStream.empty.send setup.message
  replies : s.link.replies = .empty
  bench : s.link.bench = bench

/-- The server has a timestamp for a waiting client. -/
structure Stamped (timestamp : UInt64) (bench : Benchmarks) (s : State) : Prop where
  client : s.link.client = .receive []
  server : s.link.server = .send timestamp
  replies : s.link.replies = .empty
  opened : s.closed = false
  bench : s.link.bench = bench

/-- The request arrives, is received and gets its timestamp. -/
theorem reaches_stamp (hsize : 1 ≤ setup.size) (h : Asked setup bench s) (hopen : s.closed = false)
    (now : UInt64) :
    ∃ t, Reaches (step setup) event s [.stamp now] t ∧ Stamped now bench t := by
  obtain ⟨hclient, hserver, hrequests, hreplies, hbench⟩ := h
  have hpos : 0 < setup.message.length := hsize
  -- the whole request arrives at once
  have harrive : step setup s (.link (.requestArrives setup.size)) = some { s with
      link := { s.link with
        requests := ⟨[], setup.message, setup.size⟩
        journal := { s.link.journal with asked := setup.size / setup.size } } } := by
    simp [step, Tcp.step, hrequests, ByteStream.arrive, ByteStream.send, ByteStream.empty,
      Tcp.Setup.size, hpos]
  -- and is received at once
  obtain ⟨errno, heq⟩ := (retried_nil setup.serverBusy).receive_data s.link.serverErrno
    s.link.buffer setup.message []
  rw [List.nil_append] at heq
  have hreceive : step setup { s with
      link := { s.link with
        requests := ⟨[], setup.message, setup.size⟩
        journal := { s.link.journal with asked := setup.size / setup.size } } }
      (.link (.serverRecv false)) = some { s with
      link := { s.link with
        requests := ⟨[], [], setup.size⟩
        server := .stamp
        serverErrno := errno
        buffer := setup.message ++ s.link.buffer.drop setup.message.length
        journal := { s.link.journal with asked := setup.size / setup.size } } } := by
    simp [step, Tcp.step, hserver, Tcp.recvYields, ByteStream.take, Tcp.Setup.size,
      Tcp.serverReceive, heq]
  have hstamp : step setup { s with
      link := { s.link with
        requests := ⟨[], [], setup.size⟩
        server := .stamp
        serverErrno := errno
        buffer := setup.message ++ s.link.buffer.drop setup.message.length
        journal := { s.link.journal with asked := setup.size / setup.size } } }
      (.link (.serverStamp now)) = some _ := rfl
  exact ⟨_, .silent harrive rfl (.silent hreceive rfl (.visible hstamp rfl)), hclient, rfl,
    hreplies, hopen, hbench⟩

/-- The timestamp is sent, arrives and is received, whether or not the server goes on. -/
theorem reaches_receive (setup : Tcp.Setup) {timestamp : UInt64} (h : Stamped timestamp bench s) :
    ∃ t, Reaches (step setup) event s [.receive timestamp] t ∧ t.link.client = .bench ∧
      t.closed = false ∧ t.link.bench = storeStart bench timestamp := by
  obtain ⟨hclient, hserver, hreplies, hopen, hbench⟩ := h
  have htake : (wordBytes timestamp).take 8 = wordBytes timestamp :=
    List.take_of_length_le (by simp)
  have hdrop : (wordBytes timestamp).drop 8 = [] := List.drop_of_length_le (by simp)
  have hsend : ∃ server, step setup s (.link .serverSend) = some { s with
      link := { s.link with replies := ⟨wordBytes timestamp, [], 0⟩, server := server } } := by
    refine ⟨if (8 : ℤ) < setup.size then .thrown else .receive [], ?_⟩
    simp [step, hserver, Tcp.send, hreplies, ByteStream.send, ByteStream.empty]
  obtain ⟨server, hsend⟩ := hsend
  have harrive : step setup { s with
      link := { s.link with replies := ⟨wordBytes timestamp, [], 0⟩, server := server } }
      (.link (.replyArrives 8)) = some { s with
      link := { s.link with replies := ⟨[], wordBytes timestamp, 8⟩, server := server } } := by
    simp [step, Tcp.step, ByteStream.arrive, htake, hdrop]
  obtain ⟨errno, heq⟩ := Tcp.clientReceive_data (retried_nil setup.clientBusy)
    { s.link with replies := ⟨[], [], 8⟩, server := server } timestamp
  rw [List.nil_append] at heq
  have hreceive : step setup { s with
      link := { s.link with replies := ⟨[], wordBytes timestamp, 8⟩, server := server } }
      (.link (.clientRecv false)) = some { s with
      link := { s.link with
        replies := ⟨[], [], 8⟩
        server := server
        client := .bench
        clientErrno := errno
        bench := storeStart s.link.bench timestamp
        journal := s.link.journal.receive timestamp } } := by
    simpa [step, hclient, hopen, clientRecvYields, Tcp.recvYields, ByteStream.take, htake,
      hdrop] using heq
  refine ⟨_, .silent hsend rfl (.silent harrive rfl (.visible hreceive ?_)), rfl, hopen, ?_⟩
  · simp [event, Tcp.event, storeStart]
  · rw [hbench]

end Round

end IpcBench.Domain
