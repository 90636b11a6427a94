import IpcBench.Common.RoundTrip
import IpcBench.Guard.Pairing

/-!
# `shm` and `mmap` are measured exchanges

The two sides poll a guard byte and copy eight bytes one after the other. If the guard does
not start with a stale token of the client, an observer of the questions, the timestamps
taken, the timestamps received and the samples recorded sees none of the copies and none of
the turns in the waiting loops.
-/

namespace IpcBench.Guard

open Lib

/-- What an observer sees of a step. The client has received a timestamp with its last byte. -/
def event (_ : State) (a : Action) (t : State) : Option (Event UInt64) :=
  match a with
  | .clientNotify => some .ask
  | .clientCopy => if t.client = .bench then some (.receive t.bench.singleStart) else none
  | .clientBenchmark now => some (.sample now)
  | .clientLeave => some .leave
  | .serverStamp now => some (.stamp now)
  | .clientWait | .serverWait | .serverCopy | .serverNotify => none

/-- What the client is doing. -/
def doing : ClientPc → Doing
  | .notify => .resting
  | .wait | .copy _ => .waiting
  | .bench => .holding
  | .left => .gone

/-- The region and the two sides stand for a state of the exchange. -/
structure Shows (tokens : Tokens) (s : State) (x : Exchange UInt64 Benchmarks) : Prop where
  inv : Inv tokens s
  paired : Paired tokens s
  agrees : x.Agrees s.bench (doing s.client) (Unanswered s.stamps s.received.length)
    (Underway s.stamps s.received.length)

/-- Before the loops the exchange rests, if the guard does not hold the client's token. -/
theorem shows_start (tokens : Tokens) {guard : UInt8} {payload : List UInt8} (bench : Benchmarks)
    (hpayload : payload.length = 8) (hguard : guard ≠ tokens.serverWait) :
    Shows tokens (start guard payload bench) ⟨.resting, bench⟩ :=
  ⟨inv_start tokens guard bench hpayload, paired_start tokens payload bench hguard, rfl, rfl⟩

/-- A step that changes neither what the client is doing nor its accumulator nor what has
been stamped and received shows nothing. -/
theorem Shows.of_frame {tokens : Tokens} {s t : State} {x : Exchange UInt64 Benchmarks}
    (h : Shows tokens s x) (hinv : Inv tokens t) (hpaired : Paired tokens t)
    (hdoing : doing t.client = doing s.client) (hbench : t.bench = s.bench)
    (hstamps : t.stamps = s.stamps) (hreceived : t.received = s.received) :
    Shows tokens t x := by
  refine ⟨hinv, hpaired, ?_⟩
  rw [hbench, hdoing, hstamps, hreceived]
  exact h.agrees

/-- With the eighth byte the client has the timestamp that was on its way. -/
theorem underway_of_copied {tokens : Tokens} {s : State} {copied : List UInt8} {b : UInt8}
    (hinv : Inv tokens s) (hpaired : Paired tokens s) (hmatched : tokens.Matched)
    (hclient : s.client = .copy copied) (hb : s.payload[copied.length]? = some b)
    (hfull : ¬ (copied ++ [b]).length < 8) :
    Underway s.stamps s.received.length (ofWordBytes (copied ++ [b])) := by
  obtain ⟨stamp, hlast, hvalue⟩ := hinv.copied_full hclient hb hfull
  have hanswer := (hinv.copying copied hclient).1
  cases hpaired.turn with
  | answered _ _ _ _ hstamps =>
    rw [List.getLast?_eq_getElem?, hstamps, Nat.add_sub_cancel] at hlast
    rw [Underway, hlast, hvalue, ofWordBytes_wordBytes]
    rfl
  | asked _ _ hguard | answering _ _ hguard =>
    exact absurd (hguard.symm.trans hanswer) hmatched.ne
  | idle hidle => simp [hclient] at hidle

/-- Every step of `shm` and `mmap` shows what the exchange does. -/
theorem refines {tokens : Tokens} (hmatched : tokens.Matched) :
    Refines (step tokens) event measured (Shows tokens) := by
  intro s a t x h hstep
  have hinv := h.inv.step hmatched hstep
  have hpaired := h.paired.step h.inv hmatched hstep
  cases a with
  | clientNotify =>
    obtain ⟨hclient, rfl⟩ := step_clientNotify hstep
    obtain rfl := h.agrees.eq_resting (by rw [hclient]; rfl)
    cases h.paired.turn with
    | idle _ _ _ _ hstamps => exact ⟨⟨.asked, s.bench⟩, rfl, hinv, hpaired, rfl, rfl, hstamps⟩
    | _ => simp_all
  | clientWait =>
    obtain ⟨hclient, ⟨_, rfl⟩ | ⟨_, rfl⟩⟩ := step_clientWait hstep
    · exact ⟨x, rfl, h.of_frame hinv hpaired (by rw [hclient]; rfl) rfl rfl rfl⟩
    · exact ⟨x, rfl, h⟩
  | clientCopy =>
    obtain ⟨copied, b, hclient, hb, rfl⟩ := step_clientCopy hstep
    have hdoing : doing s.client = .waiting := by
      rw [hclient]
      rfl
    by_cases hmore : (copied ++ [b]).length < 8
    · rw [copyIn, if_pos hmore] at hinv hpaired ⊢
      exact ⟨x, rfl, h.of_frame hinv hpaired hdoing.symm rfl rfl rfl⟩
    · have hunderway := underway_of_copied h.inv h.paired hmatched hclient hb hmore
      obtain rfl := h.agrees.eq_stamped hdoing (fun hopen => hopen.not_underway hunderway)
        fun _ hother => hother.inj hunderway
      rw [copyIn, if_neg hmore] at hinv hpaired ⊢
      refine ⟨⟨.received (ofWordBytes (copied ++ [b])),
        storeStart s.bench (ofWordBytes (copied ++ [b]))⟩, ?_, hinv, hpaired, rfl, rfl⟩
      simp [event, run, measured, Exchange.next]
  | clientBenchmark now =>
    obtain ⟨hclient, rfl⟩ := step_clientBenchmark hstep
    obtain ⟨value, rfl⟩ := h.agrees.eq_received (by rw [hclient]; rfl)
    exact ⟨⟨.resting, benchmark s.bench now⟩, rfl, hinv, hpaired, rfl, rfl⟩
  | clientLeave =>
    obtain ⟨hclient, rfl⟩ := step_clientLeave hstep
    obtain rfl := h.agrees.eq_resting (by rw [hclient]; rfl)
    exact ⟨⟨.left, s.bench⟩, rfl, hinv, hpaired, rfl, rfl⟩
  | serverWait =>
    obtain ⟨_, ⟨_, rfl⟩ | ⟨_, rfl⟩⟩ := step_serverWait hstep
    · exact ⟨x, rfl, h.of_frame hinv hpaired rfl rfl rfl rfl⟩
    · exact ⟨x, rfl, h⟩
  | serverStamp now =>
    obtain ⟨hserver, rfl⟩ := step_serverStamp hstep
    cases h.paired.turn with
    | asked hclient _ _ _ hstamps =>
      have hdoing : doing s.client = .waiting := by
        rw [hclient]
        rfl
      have hopen : Unanswered s.stamps s.received.length := hstamps
      obtain rfl := h.agrees.eq_asked hdoing fun _ => hopen.not_underway
      exact ⟨⟨.stamped now, s.bench⟩, rfl, hinv, hpaired, rfl, hdoing, hopen.stamp now _⟩
    | _ => simp_all
  | serverCopy =>
    obtain ⟨timestamp, done, b, _, _, rfl⟩ := step_serverCopy hstep
    exact ⟨x, rfl, h.of_frame hinv hpaired rfl rfl rfl rfl⟩
  | serverNotify =>
    obtain ⟨_, rfl⟩ := step_serverNotify hstep
    exact ⟨x, rfl, h.of_frame hinv hpaired rfl rfl rfl rfl⟩

section Answers

variable {tokens : Tokens} {s : State} {timestamp : UInt64} {bench : Benchmarks}

/-- A server that has seen the question takes a timestamp. -/
theorem reaches_stamp_of_seen (hmatched : tokens.Matched) (hinv : Inv tokens s)
    (hpaired : Paired tokens s) (hdoing : doing s.client = .waiting) (hserver : s.server = .stamp)
    (hopen : Unanswered s.stamps s.received.length) (now : UInt64) :
    ∃ t, Reaches (step tokens) event s [.stamp now] t ∧
      Shows tokens t ⟨.stamped now, s.bench⟩ := by
  have hstamp : step tokens s (.serverStamp now) = some _ := if_pos hserver
  exact ⟨_, .visible hstamp rfl, hinv.step hmatched hstamp, hpaired.step hinv hmatched hstamp, rfl,
    hdoing, hopen.stamp now _⟩

/-- The timestamp for an open question is taken. -/
theorem reaches_stamp (hmatched : tokens.Matched) (hinv : Inv tokens s)
    (hpaired : Paired tokens s) (hdoing : doing s.client = .waiting)
    (hopen : Unanswered s.stamps s.received.length) (now : UInt64) :
    ∃ t, Reaches (step tokens) event s [.stamp now] t ∧
      Shows tokens t ⟨.stamped now, s.bench⟩ := by
  cases hpaired.turn with
  | asked _ hserver hguard =>
    rcases hserver with hserver | hserver
    · have hwait : step tokens s .serverWait = some { s with server := .stamp } := by
        rw [step, if_pos hserver, if_pos hguard]
      obtain ⟨t, hreaches, hend⟩ := reaches_stamp_of_seen hmatched (hinv.step hmatched hwait)
        (hpaired.step hinv hmatched hwait) hdoing rfl hopen now
      exact ⟨t, .silent hwait rfl hreaches, hend⟩
    · exact reaches_stamp_of_seen hmatched hinv hpaired hdoing hserver hopen now
  | answering _ _ _ _ hstamps | answered _ _ _ _ hstamps =>
    rw [Unanswered, hstamps] at hopen
    exact absurd hopen (Nat.succ_ne_self _)
  | idle hclient =>
    rcases hclient with hclient | hclient | hclient <;> simp [hclient, doing] at hdoing

/-- A timestamp on its way from the server to the client. -/
structure Answering (tokens : Tokens) (timestamp : UInt64) (bench : Benchmarks) (s : State) :
    Prop where
  inv : Inv tokens s
  paired : Paired tokens s
  waiting : doing s.client = .waiting
  underway : Underway s.stamps s.received.length timestamp
  bench : s.bench = bench

/-- What is missing until the client has the last byte. -/
def stepsToReceive (s : State) : ℕ :=
  match s.server, s.client with
  | .copy _ done, _ => 18 - done
  | .notify, _ => 10
  | _, .copy copied => 8 - copied.length
  | _, _ => 9

/-- A silent step that leaves the client's part of the record alone. -/
theorem Answering.step_silent (hmatched : tokens.Matched) (h : Answering tokens timestamp bench s)
    {a : Action} {t : State} (hstep : step tokens s a = some t)
    (hdoing : doing t.client = .waiting) (hstamps : t.stamps = s.stamps)
    (hreceived : t.received = s.received) (hbench : t.bench = s.bench) :
    Answering tokens timestamp bench t := by
  refine ⟨h.inv.step hmatched hstep, h.paired.step h.inv hmatched hstep, hdoing, ?_,
    hbench.trans h.bench⟩
  rw [hstamps, hreceived]
  exact h.underway

/-- The server copies the next byte. -/
theorem Answering.serverCopy (hmatched : tokens.Matched) (h : Answering tokens timestamp bench s)
    {taken : UInt64} {done : ℕ} (hserver : s.server = .copy taken done) :
    ∃ a t, step tokens s a = some t ∧ event s a t = none ∧ Answering tokens timestamp bench t ∧
      stepsToReceive t < stepsToReceive s := by
  obtain ⟨hless, _⟩ := h.inv.writing taken done hserver
  have hlength := length_wordBytes taken
  obtain ⟨b, hb⟩ : ∃ b, (wordBytes taken)[done]? = some b :=
    ⟨_, List.getElem?_eq_getElem (by omega)⟩
  have hstep : step tokens s .serverCopy = some (copyOut s taken done b) := by
    simp only [step, hserver, hb, Option.map_some]
  refine ⟨_, _, hstep, rfl, h.step_silent hmatched hstep h.waiting rfl rfl rfl, ?_⟩
  by_cases hmore : done + 1 < 8
  · have hnext : (copyOut s taken done b).server = .copy taken (done + 1) := if_pos hmore
    simp only [stepsToReceive, hnext, hserver]
    omega
  · have hnext : (copyOut s taken done b).server = .notify := if_neg hmore
    simp only [stepsToReceive, hnext, hserver]
    omega

/-- The client copies the next byte; with the eighth it has the timestamp. -/
theorem Answering.clientCopy (hmatched : tokens.Matched) (h : Answering tokens timestamp bench s)
    {copied : List UInt8} (hserver : s.server = .wait) (hclient : s.client = .copy copied) :
    (∃ t, Reaches (step tokens) event s [.receive timestamp] t ∧
        Shows tokens t ⟨.received timestamp, storeStart bench timestamp⟩) ∨
      ∃ a t, step tokens s a = some t ∧ event s a t = none ∧
        Answering tokens timestamp bench t ∧ stepsToReceive t < stepsToReceive s := by
  obtain ⟨_, _, hless, _⟩ := h.inv.copying copied hclient
  have hlength := h.inv.payload_length
  obtain ⟨b, hb⟩ : ∃ b, s.payload[copied.length]? = some b :=
    ⟨_, List.getElem?_eq_getElem (by omega)⟩
  have hstep : step tokens s .clientCopy = some (copyIn s (copied ++ [b])) := by
    simp only [step, hclient, hb, Option.map_some]
  by_cases hmore : (copied ++ [b]).length < 8
  · rw [copyIn, if_pos hmore] at hstep
    refine Or.inr ⟨_, _, hstep, rfl, h.step_silent hmatched hstep rfl rfl rfl rfl, ?_⟩
    simp only [stepsToReceive, hserver, hclient, List.length_append, List.length_singleton]
    omega
  · have hvalue := (underway_of_copied h.inv h.paired hmatched hclient hb hmore).inj h.underway
    have hinv := h.inv.step hmatched hstep
    have hpaired := h.paired.step h.inv hmatched hstep
    rw [copyIn, if_neg hmore, hvalue] at hstep hinv hpaired
    refine Or.inl ⟨_, .visible hstep rfl, hinv, hpaired, ?_, rfl⟩
    rw [h.bench]
    rfl

/-- The client has the timestamp, or that moment comes nearer. -/
theorem Answering.progress (hmatched : tokens.Matched) (h : Answering tokens timestamp bench s) :
    (∃ t, Reaches (step tokens) event s [.receive timestamp] t ∧
        Shows tokens t ⟨.received timestamp, storeStart bench timestamp⟩) ∨
      ∃ a t, step tokens s a = some t ∧ event s a t = none ∧
        Answering tokens timestamp bench t ∧ stepsToReceive t < stepsToReceive s := by
  cases h.paired.turn with
  | answering hclient hserver =>
    rcases hserver with hserver | ⟨taken, done, hserver⟩
    · have hnotify : step tokens s .serverNotify =
          some { s with guard := tokens.serverNotify, server := .wait } := if_pos hserver
      refine Or.inr ⟨_, _, hnotify, rfl, h.step_silent hmatched hnotify h.waiting rfl rfl rfl, ?_⟩
      simp [stepsToReceive, hserver, hclient]
    · exact Or.inr (h.serverCopy hmatched hserver)
  | answered hclient hserver hguard =>
    rcases hclient with hclient | ⟨copied, hclient⟩
    · have hwait : step tokens s .clientWait = some { s with client := .copy [] } := by
        rw [step, if_pos hclient, if_pos hguard]
      refine Or.inr ⟨_, _, hwait, rfl, h.step_silent hmatched hwait rfl rfl rfl rfl, ?_⟩
      simp [stepsToReceive, hserver, hclient]
    · exact h.clientCopy hmatched hserver hclient
  | asked _ _ _ _ hstamps =>
    have hopen : Unanswered s.stamps s.received.length := hstamps
    exact absurd h.underway hopen.not_underway
  | idle hclient =>
    have hwaiting := h.waiting
    rcases hclient with hclient | hclient | hclient <;> simp [hclient, doing] at hwaiting

end Answers

/-- Whatever happens in the exchange can happen in `shm` and `mmap`. -/
theorem realizes {tokens : Tokens} (hmatched : tokens.Matched) :
    Realizes (step tokens) event measured (Shows tokens) := by
  apply Exchange.realizes_of
  · rintro s _ ⟨hinv, hpaired, rfl, hdoing⟩
    have hclient : s.client = .notify := by cases hpc : s.client <;> simp_all [doing]
    have hnotify : step tokens s .clientNotify = some _ := if_pos hclient
    have hopen : Unanswered s.stamps s.received.length := by
      cases hpaired.turn with
      | idle _ _ _ _ hstamps => exact hstamps
      | _ => simp_all
    exact ⟨_, .visible hnotify rfl, hinv.step hmatched hnotify,
      hpaired.step hinv hmatched hnotify, rfl, rfl, hopen⟩
  · rintro s _ ⟨hinv, hpaired, rfl, hdoing⟩
    have hclient : s.client = .notify := by cases hpc : s.client <;> simp_all [doing]
    have hleave : step tokens s .clientLeave = some _ := if_pos hclient
    exact ⟨_, .visible hleave rfl, hinv.step hmatched hleave, hpaired.step hinv hmatched hleave,
      rfl, rfl⟩
  · rintro s _ now ⟨hinv, hpaired, rfl, hdoing, hopen⟩
    exact reaches_stamp hmatched hinv hpaired hdoing hopen now
  · rintro s _ timestamp ⟨hinv, hpaired, rfl, hdoing, hunderway⟩
    exact Reaches.of_nearer (Answering tokens timestamp s.bench) _ stepsToReceive
      (fun t h => h.progress hmatched) ⟨hinv, hpaired, hdoing, hunderway, rfl⟩
  · rintro s _ value now ⟨hinv, hpaired, rfl, hdoing⟩
    have hclient : s.client = .bench := by cases hpc : s.client <;> simp_all [doing]
    have hbench : step tokens s (.clientBenchmark now) = some _ := if_pos hclient
    exact ⟨_, .visible hbench rfl, hinv.step hmatched hbench, hpaired.step hinv hmatched hbench,
      rfl, rfl⟩

/-- `shm` and `mmap`, from a region whose guard does not hold the letter `s`: in their runs
the client asks, the server takes timestamps and the client receives them and records its
samples in exactly the sequences, and with exactly the results, of the exchange in which
nothing is transported. -/
theorem guard_shows_measured_exchange (tokens : Tokens) (guard : UInt8) (payload : List UInt8)
    (bench bench' : Benchmarks) (events : List (Event UInt64)) (hmem : tokens ∈ [shm, mmap])
    (hpayload : payload.length = 8) (hguard : guard ≠ 's'.toUInt8) :
    (∃ s, Reaches (step tokens) event (start guard payload bench) events s ∧ s.bench = bench') ↔
      ∃ stage, run measured ⟨.resting, bench⟩ events = some ⟨stage, bench'⟩ := by
  have hmatched := matched_of_mem hmem
  have hfresh : guard ≠ tokens.serverWait := by
    simp only [List.mem_cons, List.not_mem_nil, or_false] at hmem
    rcases hmem with rfl | rfl <;> exact hguard
  have hstart := shows_start tokens bench hpayload hfresh
  refine Exchange.reaches_iff_run (refines hmatched) (realizes hmatched) ?_ hstart hstart
  rintro t y (hshows | hshows)
  · exact hshows.agrees.total_eq
  · exact hshows.agrees.total_eq

/-- Over a region that an earlier run has left behind, some run of `shm` shows a round and
the next question. -/
theorem guard_shows_measured_exchange_round :
    ∃ s, Reaches (step shm) event
        (start 'c'.toUInt8 (List.replicate 8 0) ⟨0, 0, 50, 0, 0, 0, 0⟩)
        [.ask, .stamp 700, .receive 700, .sample 900, .ask] s ∧
      s.bench = ⟨0, 700, 50, 200, 200, 0, 1⟩ :=
  (guard_shows_measured_exchange shm _ _ _ _ _ (by decide) (by decide) (by decide)).mpr
    ⟨.asked, by decide⟩

end IpcBench.Guard
