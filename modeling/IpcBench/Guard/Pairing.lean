import IpcBench.Guard.Exclusion

/-!
# The rounds of the guard-byte protocol match

If the guard does not start with a stale token of the client, the `k`-th value the
client copies is the `k`-th timestamp, taken after the client has asked for the
`k`-th time. A stale token makes the server answer a question nobody asked, and
only the statements of `Exclusion` remain.
-/

namespace IpcBench.Guard

open Lib

/-- Where the two sides stand in the round after those whose values the client has
received, when the guard has not started with the client's token. -/
inductive Turn (tokens : Tokens) (s : State) : Prop where
  | idle (hclient : s.client = .notify ∨ s.client = .bench ∨ s.client = .left)
      (hserver : s.server = .wait) (hguard : s.guard ≠ tokens.serverWait)
      (hasked : s.asked = s.received.length) (hstamps : s.stamps.length = s.received.length)
  | asked (hclient : s.client = .wait) (hserver : s.server = .wait ∨ s.server = .stamp)
      (hguard : s.guard = tokens.serverWait) (hasked : s.asked = s.received.length + 1)
      (hstamps : s.stamps.length = s.received.length)
  | answering (hclient : s.client = .wait)
      (hserver : s.server = .notify ∨ ∃ timestamp done, s.server = .copy timestamp done)
      (hguard : s.guard = tokens.serverWait) (hasked : s.asked = s.received.length + 1)
      (hstamps : s.stamps.length = s.received.length + 1)
  | answered (hclient : s.client = .wait ∨ ∃ copied, s.client = .copy copied)
      (hserver : s.server = .wait) (hguard : s.guard = tokens.clientWait)
      (hasked : s.asked = s.received.length + 1)
      (hstamps : s.stamps.length = s.received.length + 1)

/-- The rounds match: the `k`-th value is the `k`-th timestamp, and that was taken
after exactly `k` questions. -/
structure Paired (tokens : Tokens) (s : State) : Prop where
  received_eq : s.received = (s.stamps.take s.received.length).map fun stamp => wordBytes stamp.1
  asked_eq : ∀ (k : ℕ) stamp, s.stamps[k]? = some stamp → stamp.2 = k + 1
  turn : Turn tokens s

/-- The rounds match before the loops if the guard does not hold the client's token. -/
theorem paired_start (tokens : Tokens) {guard : UInt8} (payload : List UInt8) (bench : Benchmarks)
    (hguard : guard ≠ tokens.serverWait) : Paired tokens (start guard payload bench) :=
  ⟨rfl, by simp [start], .idle (Or.inl rfl) rfl hguard rfl rfl⟩

namespace Paired

variable {tokens : Tokens} {s t : State}

/-- The client asks. -/
theorem clientNotify (h : Paired tokens s) (hmatched : tokens.Matched)
    (hstep : step tokens s .clientNotify = some t) : Paired tokens t := by
  obtain ⟨hclient, rfl⟩ := step_clientNotify hstep
  refine { h with turn := ?_ }
  cases h.turn with
  | idle _ hserver _ hasked hstamps =>
    exact .asked rfl (Or.inl hserver) hmatched.ask (by simp [hasked]) hstamps
  | _ => simp_all

/-- The client looks at the guard and finds the answer only in an answered round. -/
theorem clientWait (h : Paired tokens s) (hmatched : tokens.Matched)
    (hstep : step tokens s .clientWait = some t) : Paired tokens t := by
  obtain ⟨hclient, ⟨hanswer, rfl⟩ | ⟨_, rfl⟩⟩ := step_clientWait hstep
  · refine { h with turn := ?_ }
    cases h.turn with
    | answered _ hserver hguard hasked hstamps =>
      exact .answered (Or.inr ⟨[], rfl⟩) hserver hguard hasked hstamps
    | asked _ _ hguard | answering _ _ hguard =>
      exact absurd (hguard.symm.trans hanswer) hmatched.ne
    | idle hidle => simp [hclient] at hidle
  · exact h

/-- One more byte for the client; with the eighth the round is received. -/
theorem clientCopy (h : Paired tokens s) (hinv : Inv tokens s) (hmatched : tokens.Matched)
    (hstep : step tokens s .clientCopy = some t) : Paired tokens t := by
  obtain ⟨copied, b, hclient, hb, rfl⟩ := step_clientCopy hstep
  have hanswer := (hinv.copying copied hclient).1
  unfold copyIn
  cases h.turn with
  | answered _ hserver hguard hasked hstamps =>
    by_cases hmore : (copied ++ [b]).length < 8
    · rw [if_pos hmore]
      exact { h with turn := .answered (Or.inr ⟨_, rfl⟩) hserver hguard hasked hstamps }
    · rw [if_neg hmore]
      obtain ⟨stamp, hlast, hvalue⟩ := hinv.copied_full hclient hb hmore
      rw [List.getLast?_eq_getElem?, hstamps, Nat.add_sub_cancel] at hlast
      refine ⟨?_, h.asked_eq, .idle (Or.inr (Or.inl rfl)) hserver ?_ ?_ ?_⟩
      · change s.received ++ [copied ++ [b]] = _
        rw [List.length_append, List.length_singleton, List.take_add_one, hlast,
          Option.toList_some, List.map_append, List.map_singleton, ← h.received_eq, hvalue]
      · exact fun hask => hmatched.ne (hask.symm.trans hguard)
      · rw [List.length_append, List.length_singleton]
        exact hasked
      · rw [List.length_append, List.length_singleton]
        exact hstamps
  | asked _ _ hguard | answering _ _ hguard =>
    exact absurd (hguard.symm.trans hanswer) hmatched.ne
  | idle hidle => simp [hclient] at hidle

/-- The client subtracts. -/
theorem clientBenchmark {now : UInt64} (h : Paired tokens s)
    (hstep : step tokens s (.clientBenchmark now) = some t) : Paired tokens t := by
  obtain ⟨hclient, rfl⟩ := step_clientBenchmark hstep
  refine { h with turn := ?_ }
  cases h.turn with
  | idle _ hserver hguard hasked hstamps => exact .idle (Or.inl rfl) hserver hguard hasked hstamps
  | _ => simp_all

/-- The client leaves its loop. -/
theorem clientLeave (h : Paired tokens s) (hstep : step tokens s .clientLeave = some t) :
    Paired tokens t := by
  obtain ⟨hclient, rfl⟩ := step_clientLeave hstep
  refine { h with turn := ?_ }
  cases h.turn with
  | idle _ hserver hguard hasked hstamps =>
    exact .idle (Or.inr (Or.inr rfl)) hserver hguard hasked hstamps
  | _ => simp_all

/-- The server looks at the guard and finds a question only in an open round. -/
theorem serverWait (h : Paired tokens s) (hmatched : tokens.Matched)
    (hstep : step tokens s .serverWait = some t) : Paired tokens t := by
  obtain ⟨hserver, ⟨hask, rfl⟩ | ⟨_, rfl⟩⟩ := step_serverWait hstep
  · refine { h with turn := ?_ }
    cases h.turn with
    | asked hclient _ hguard hasked hstamps =>
      exact .asked hclient (Or.inr rfl) hguard hasked hstamps
    | idle _ _ hguard => exact absurd hask hguard
    | answered _ _ hguard => exact absurd (hask.symm.trans hguard) hmatched.ne
    | answering _ hbusy => simp [hserver] at hbusy
  · exact h

/-- The server takes the timestamp of the round. -/
theorem serverStamp {now : UInt64} (h : Paired tokens s)
    (hstep : step tokens s (.serverStamp now) = some t) : Paired tokens t := by
  obtain ⟨hserver, rfl⟩ := step_serverStamp hstep
  cases h.turn with
  | asked hclient _ hguard hasked hstamps =>
    refine ⟨?_, ?_, .answering hclient (Or.inr ⟨now, 0, rfl⟩) hguard hasked ?_⟩
    · rw [List.take_append_of_le_length (Nat.le_of_eq hstamps.symm)]
      exact h.received_eq
    · intro k stamp hk
      rcases Nat.lt_or_ge k s.stamps.length with hold | hnew
      · rw [List.getElem?_append_left hold] at hk
        exact h.asked_eq k stamp hk
      · have hlast : k = s.stamps.length := by
          have hlt := List.getElem?_eq_some_iff.mp hk |>.1
          rw [List.length_append, List.length_singleton] at hlt
          omega
        rw [hlast, List.getElem?_concat_length, Option.some.injEq] at hk
        rw [← hk, hlast, hasked, hstamps]
    · rw [List.length_append, List.length_singleton, hstamps]
  | _ => simp_all

/-- One more byte from the server. -/
theorem serverCopy (h : Paired tokens s) (hstep : step tokens s .serverCopy = some t) :
    Paired tokens t := by
  obtain ⟨timestamp, done, b, hserver, _, rfl⟩ := step_serverCopy hstep
  refine { h with turn := ?_ }
  cases h.turn with
  | answering hclient _ hguard hasked hstamps =>
    refine .answering hclient ?_ hguard hasked hstamps
    simp only [copyOut]
    split
    · exact Or.inr ⟨timestamp, done + 1, rfl⟩
    · exact Or.inl rfl
  | _ => simp_all

/-- The server answers. -/
theorem serverNotify (h : Paired tokens s) (hmatched : tokens.Matched)
    (hstep : step tokens s .serverNotify = some t) : Paired tokens t := by
  obtain ⟨hserver, rfl⟩ := step_serverNotify hstep
  refine { h with turn := ?_ }
  cases h.turn with
  | answering hclient _ _ hasked hstamps =>
    exact .answered (Or.inl hclient) rfl hmatched.answer hasked hstamps
  | _ => simp_all

/-- Every step of either side keeps the rounds matched. -/
theorem step {a : Action} (h : Paired tokens s) (hinv : Inv tokens s) (hmatched : tokens.Matched)
    (hstep : Guard.step tokens s a = some t) : Paired tokens t := by
  cases a with
  | clientNotify => exact h.clientNotify hmatched hstep
  | clientWait => exact h.clientWait hmatched hstep
  | clientCopy => exact h.clientCopy hinv hmatched hstep
  | clientBenchmark now => exact h.clientBenchmark hstep
  | clientLeave => exact h.clientLeave hstep
  | serverWait => exact h.serverWait hmatched hstep
  | serverStamp now => exact h.serverStamp hstep
  | serverCopy => exact h.serverCopy hstep
  | serverNotify => exact h.serverNotify hmatched hstep

end Paired

/-- The guard-byte hand-off of `shm` and `mmap`. After every run, in every
interleaving and from every content of the region: the server does not write while
the client copies, and every value the client has copied is one whole timestamp. If
the guard did not start as the letter `s`, the `k`-th value is the `k`-th timestamp,
taken after the client's `k`-th question. If the clock never went back, no
subtraction of `benchmark` has wrapped. -/
theorem guard_handoff (tokens : Tokens) (guard : UInt8) (payload : List UInt8)
    (bench : Benchmarks) (actions : List Action) (s : State) (hmem : tokens ∈ [shm, mmap])
    (hpayload : payload.length = 8)
    (hrun : run (step tokens) (start guard payload bench) actions = some s) :
    (∀ copied, s.client = .copy copied → step tokens s .serverCopy = none) ∧
      (∀ value ∈ s.received, ∃ stamp ∈ s.stamps, value = wordBytes stamp.1) ∧
      (guard ≠ 's'.toUInt8 → ∀ (k : ℕ) value, s.received[k]? = some value →
        ∃ timestamp asked, s.stamps[k]? = some (timestamp, asked) ∧
          value = wordBytes timestamp ∧ k + 1 ≤ asked) ∧
      (s.readings.Pairwise (· ≤ ·) → ∀ sample ∈ s.samples, sample.1 ≤ sample.2 ∧
        (sample.2 - sample.1).toNat = sample.2.toNat - sample.1.toNat) := by
  have hmatched := matched_of_mem hmem
  have hinv := run_invariant (Inv tokens) (fun h hstep => h.step hmatched hstep)
    (inv_start tokens guard bench hpayload) hrun
  refine ⟨?_, hinv.untorn, ?_, ?_⟩
  · intro copied hclient
    simp [step, hinv.server_waits hmatched hclient]
  · intro hguard k value hvalue
    have hfresh : guard ≠ tokens.serverWait := by
      simp only [List.mem_cons, List.not_mem_nil, or_false] at hmem
      rcases hmem with rfl | rfl <;> exact hguard
    have hboth := run_invariant (fun s => Inv tokens s ∧ Paired tokens s)
      (fun h hstep => ⟨h.1.step hmatched hstep, h.2.step h.1 hmatched hstep⟩)
      ⟨inv_start tokens guard bench hpayload, paired_start tokens payload bench hfresh⟩ hrun
    rw [hboth.2.received_eq, List.getElem?_map, Option.map_eq_some_iff] at hvalue
    obtain ⟨⟨timestamp, asked⟩, hstamp, rfl⟩ := hvalue
    rw [List.getElem?_take, Option.ite_none_right_eq_some] at hstamp
    have hasked : asked = k + 1 := hboth.2.asked_eq k _ hstamp.2
    exact ⟨timestamp, asked, hstamp.2, rfl, Nat.le_of_eq hasked.symm⟩
  · intro hclock sample hsample
    exact no_wrap_of_readings hclock (hinv.sampled sample hsample)

/-- One round of `shm` over a region that an earlier run has left behind. -/
def firstRound : List Action :=
  [.clientNotify, .serverWait, .serverStamp 700] ++ List.replicate 8 .serverCopy ++
    [.clientWait, .serverNotify, .clientWait] ++ List.replicate 8 .clientCopy ++
    [.clientBenchmark 900]

/-- The first value is the first timestamp. -/
theorem guard_handoff_first_round :
    ∃ s, run (step shm) (start 'c'.toUInt8 (List.replicate 8 0) ⟨0, 700, 50, 0, 0, 0, 0⟩)
        firstRound = some s ∧ s.received = [wordBytes 700] ∧
      ∃ timestamp asked, s.stamps[0]? = some (timestamp, asked) ∧
        wordBytes 700 = wordBytes timestamp ∧ 1 ≤ asked := by
  have hrun : run (step shm)
      (start 'c'.toUInt8 (List.replicate 8 0) ⟨0, 700, 50, 0, 0, 0, 0⟩) firstRound =
    some ⟨'c'.toUInt8, wordBytes 700, .notify, .wait, ⟨0, 700, 50, 200, 200, 0, 1⟩, 1, [(700, 1)],
      [wordBytes 700], [(700, 900)], [700, 900]⟩ := by decide +kernel
  refine ⟨_, hrun, rfl, ?_⟩
  exact (guard_handoff shm 'c'.toUInt8 (List.replicate 8 0) _ firstRound _ (by decide) rfl
    hrun).2.2.1 (by decide) 0 (wordBytes 700) rfl

end IpcBench.Guard
