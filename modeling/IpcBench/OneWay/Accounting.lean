import IpcBench.OneWay.Clients
import Mathlib.Algebra.Order.BigOperators.Group.List
import Mathlib.Algebra.Order.Ring.Int
import Mathlib.Algebra.Order.Ring.Nat

/-!
# When the counter matches the timestamps

`evaluate` divides by `bench.count`, and the `assert` before it looks at another counter.
Eight of the nine clients count every round, `uintr-pro` counts none, and a loop that is left
at its first sample has counted nothing at all. A round is counted whatever it has read: `pipe`
also counts when its `fread` has completed no item, `eventfd-uni` when the counter has added up
several timestamps, and a busy socket when `recv` has dropped a part of one, after which the
eight bytes of every round belong to two of them.
-/

namespace IpcBench.OneWay

open Lib

/-- Whether a round that goes through gets a whole word, and one that is not a sum. -/
def Client.delivers : (client : Client) → client.Round → Bool
  | .pipe, r => StreamRound.bytes r = 8
  | .eventfdUni, r => EventfdRound.written r = 1
  | .shm, _ | .mmap, _ | .mq, _ | .fifo, _ | .tcp _, _ | .domain _, _ | .uintrPro, _ => true

/-- The bytes that calls of `recv` take before the one that gets all eight. -/
def dropped (recvs : List Arrival) : ℕ :=
  ((recvs.takeWhile fun a => a.taken < 8).map Arrival.taken).sum

/-- The bytes a round that goes through takes besides whole words. -/
def Client.excess : (client : Client) → client.Round → ℕ
  | .pipe, r => StreamRound.bytes r % 8
  | .tcp true, r | .domain true, r => dropped (SocketRound.recvs r)
  | .shm, _ | .mmap, _ | .mq, _ | .fifo, _ | .tcp false, _ | .domain false, _ | .eventfdUni, _
  | .uintrPro, _ => 0

/-- A round brings a timestamp: it gets a whole word, and so far the bytes taken besides are
none, or those of whole timestamps. -/
def Client.Brings (client : Client) (before : List client.Round) (r : client.Round) : Prop :=
  client.delivers r = true ∧ 8 ∣ ((before ++ [r]).map client.excess).sum

instance decidableBrings (client : Client) (before : List client.Round) (r : client.Round) :
    Decidable (client.Brings before r) :=
  inferInstanceAs (Decidable (_ ∧ _))

/-- How many rounds do not bring one. -/
def lostRounds (client : Client) : List client.Round → List client.Round → ℕ
  | _, [] => 0
  | before, r :: rounds =>
      (if client.Brings before r then 0 else 1) + lostRounds client (before ++ [r]) rounds

/-- There are rounds, fewer than an `int` can count, and each of them brings a timestamp. -/
structure InStep (client : Client) (rounds : List client.Round) : Prop where
  entered : rounds ≠ []
  few : rounds.length < 2 ^ 31
  brings : ∀ before r after, rounds = before ++ r :: after → client.Brings before r

/-- So many rounds bring nothing that the counter has come round, and is right again. -/
structure ComeRound (client : Client) (rounds : List client.Round) : Prop where
  many : 2 ^ 32 ≤ lostRounds client [] rounds
  turns : 2 ^ 32 ∣ lostRounds client [] rounds
  some : lostRounds client [] rounds < rounds.length
  few : rounds.length - lostRounds client [] rounds < 2 ^ 31

section Bytes

variable {stamps : ℕ → UInt64} {p : ℕ}

@[simp] theorem length_handedOver (stamps : ℕ → UInt64) (p n : ℕ) :
    (handedOver stamps p n).length = n := by
  simp [handedOver]

/-- Eight bytes from the place where a timestamp begins are that timestamp. -/
theorem handedOver_eq (hplace : 8 ∣ p) :
    handedOver stamps p 8 = wordBytes (stamps (p / 8)) := by
  obtain ⟨k, rfl⟩ := hplace
  apply List.ext_getElem
  · simp
  · intro i hi hword
    rw [length_handedOver] at hi
    have hdiv : (8 * k + i) / 8 = k := by omega
    have hmod : (8 * k + i) % 8 = i := by omega
    simp [handedOver, hdiv, hmod, hi]

theorem neg_one_lt_eight : (-1 : ℤ) < ((8 : ℕ) : ℤ) := by decide

/-- What a call of `recv` for eight bytes does. -/
theorem recv_handedOver (stamps : ℕ → UInt64) (p n : ℕ) (errno : ℤ) (buffer : List UInt8) :
    recv 8 errno buffer (.data (handedOver stamps p (min n 8))) =
      (((min n 8 : ℕ) : ℤ), errno, handedOver stamps p (min n 8) ++ buffer.drop (min n 8)) := by
  have hall : (handedOver stamps p (min n 8)).take 8 = handedOver stamps p (min n 8) :=
    List.take_of_length_le (by simp)
  rw [recv, hall, length_handedOver]

@[simp] theorem length_recvResults (stamps : ℕ → UInt64) (p : ℕ) (recvs : List Arrival) :
    (recvResults stamps p recvs).length = recvs.length := by
  induction recvs generalizing p with
  | nil => rfl
  | cons a recvs ih => cases a <;> simp [recvResults, ih]

/-- What `receive` has made of the stream when it returns without an error. -/
structure Filled (stamps : ℕ → UInt64) (p : ℕ) (recvs : List Arrival) (result : ReceiveResult) :
    Prop where
  rest_le : result.rest.length ≤ recvs.length
  taken_eq : ((recvs.take (recvs.length - result.rest.length)).map Arrival.taken).sum =
    dropped recvs + 8
  buffer_eq : result.buffer = handedOver stamps (p + dropped recvs) 8

/-- The first `recv` gets all eight bytes. -/
theorem filled_of_all {bytes : ℕ} {recvs : List Arrival} {errno : ℤ} {buffer : List UInt8}
    (hall : min bytes 8 = 8) (hbuffer : buffer.length = 8) :
    Filled stamps p (.data bytes :: recvs)
      ⟨0, errno, handedOver stamps p (min bytes 8) ++ buffer.drop (min bytes 8),
        recvResults stamps (p + min bytes 8) recvs⟩ := by
  have hnone : dropped (.data bytes :: recvs) = 0 := by
    simp [dropped, Arrival.taken, hall]
  refine ⟨by simp, ?_, ?_⟩
  · simp [hnone, Arrival.taken, hall]
  · dsimp only
    rw [hnone, hall, Nat.add_zero, ← hbuffer, List.drop_length, List.append_nil]

/-- One more `recv` before, which has not got all eight. -/
theorem Filled.cons {a : Arrival} {recvs : List Arrival} {result : ReceiveResult}
    (h : Filled stamps (p + a.taken) recvs result) (hshort : a.taken < 8) :
    Filled stamps p (a :: recvs) result := by
  have hmore : dropped (a :: recvs) = a.taken + dropped recvs := by
    simp [dropped, hshort]
  have hrest := h.rest_le
  have htake : (a :: recvs).take ((a :: recvs).length - result.rest.length) =
      a :: recvs.take (recvs.length - result.rest.length) := by
    rw [List.length_cons, Nat.succ_sub hrest, List.take_succ_cons]
  refine ⟨hrest.trans (by simp), ?_, ?_⟩
  · rw [htake, List.map_cons, List.sum_cons, h.taken_eq, hmore]
    omega
  · rw [h.buffer_eq, hmore, Nat.add_assoc]

/-- The busy loop ends with the first `recv` that gets all eight bytes; what those before it
have got is lost. -/
theorem receiveBusy_filled {recvs : List Arrival} {errno : ℤ} {buffer : List UInt8}
    {result : ReceiveResult} (hbuffer : buffer.length = 8)
    (hreceive : receiveBusy 8 errno buffer (recvResults stamps p recvs) = some result)
    (hcode : result.code ≠ -1) : Filled stamps p recvs result := by
  induction recvs generalizing p errno buffer with
  | nil => cases hreceive
  | cons a recvs ih =>
    cases a with
    | data bytes =>
      simp only [recvResults, receiveBusy, recv_handedOver] at hreceive
      by_cases hall : min bytes 8 = 8
      · rw [if_neg (by simp [hall]), Option.some.injEq] at hreceive
        subst hreceive
        exact filled_of_all hall hbuffer
      · have hshort : min bytes 8 < 8 := by omega
        rw [if_pos (by exact_mod_cast hshort)] at hreceive
        split_ifs at hreceive with herrno
        · obtain rfl := Option.some.inj hreceive
          exact absurd rfl hcode
        · refine Filled.cons (ih ?_ hreceive) hshort
          rw [List.length_append, length_handedOver, List.length_drop, hbuffer]
          omega
    | error code =>
      simp only [recvResults, receiveBusy, recv, neg_one_lt_eight, if_true] at hreceive
      by_cases hagain : code = eagain
      · simp only [hagain, ne_eq, not_true_eq_false, if_false] at hreceive
        exact Filled.cons (ih hbuffer hreceive) (by simp [Arrival.taken])
      · simp only [ne_eq, hagain, not_false_eq_true, if_true, Option.some.injEq] at hreceive
        subst hreceive
        exact absurd rfl hcode

/-- A blocking socket has nothing to lose: with fewer bytes `receive` fails. -/
theorem receive_blocking_filled {recvs : List Arrival} {errno : ℤ} {buffer : List UInt8}
    {result : ReceiveResult} (hbuffer : buffer.length = 8)
    (hreceive : receive 8 false errno buffer (recvResults stamps p recvs) = some result)
    (hcode : result.code ≠ -1) : Filled stamps p recvs result ∧ dropped recvs = 0 := by
  cases recvs with
  | nil => cases hreceive
  | cons a recvs =>
    cases a with
    | data bytes =>
      simp only [receive, recvResults, recv_handedOver, Bool.false_eq_true, if_false] at hreceive
      by_cases hall : min bytes 8 = 8
      · rw [if_neg (by simp [hall]), Option.some.injEq] at hreceive
        subst hreceive
        exact ⟨filled_of_all hall hbuffer, by simp [dropped, Arrival.taken, hall]⟩
      · rw [if_pos (by omega)] at hreceive
        obtain rfl := Option.some.inj hreceive
        exact absurd rfl hcode
    | error code =>
      simp only [receive, recvResults, recv, neg_one_lt_eight, Bool.false_eq_true, if_false,
        if_true] at hreceive
      obtain rfl := Option.some.inj hreceive
      exact absurd rfl hcode

/-- In either mode. -/
theorem receive_filled {busyWaiting : Bool} {recvs : List Arrival} {errno : ℤ}
    {buffer : List UInt8} {result : ReceiveResult} (hbuffer : buffer.length = 8)
    (hreceive : receive 8 busyWaiting errno buffer (recvResults stamps p recvs) = some result)
    (hcode : result.code ≠ -1) :
    Filled stamps p recvs result ∧ (busyWaiting = false → dropped recvs = 0) := by
  cases busyWaiting with
  | true => exact ⟨receiveBusy_filled hbuffer hreceive hcode, by simp⟩
  | false =>
    obtain ⟨hfilled, hnone⟩ := receive_blocking_filled hbuffer hreceive hcode
    exact ⟨hfilled, fun _ => hnone⟩

end Bytes

section Rounds

variable {stamps : ℕ → UInt64} {s t : Account}

/-- Eight bytes that end where a timestamp ends are a timestamp. -/
theorem ofWordBytes_handedOver {p : ℕ} (hword : 8 ∣ p + 8) :
    ∃ k, ofWordBytes (handedOver stamps p 8) = stamps k := by
  refine ⟨p / 8, ?_⟩
  rw [handedOver_eq (by omega), ofWordBytes_wordBytes]

/-- The test of `fifo` lets through whole items only. -/
theorem StreamRound.bytes_eq {r : StreamRound} (h : r.items ≠ 0) : r.bytes = 8 := by
  by_contra hne
  have hle := r.bytes_le
  have hzero : r.bytes / 8 = 0 := by omega
  exact h (by rw [StreamRound.items, hzero]; rfl)

/-- A whole item that ends where a timestamp ends is a timestamp. -/
theorem fread_whole {r : StreamRound} (hbytes : r.bytes = 8) (hword : 8 ∣ s.taken + r.bytes) :
    ∃ k, (s.fread stamps r).bench.singleStart = stamps k := by
  rw [hbytes] at hword
  obtain ⟨k, hk⟩ : ∃ k, ofWordBytes (handedOver stamps s.taken 8) = stamps k :=
    ofWordBytes_handedOver hword
  refine ⟨k, ?_⟩
  rw [Account.fread, Account.read, hbytes, List.drop_of_length_le (by simp), List.append_nil, hk]

/-- A round over a socket reads the eight bytes after the dropped ones. -/
theorem socketRound_eq {busyWaiting : Bool} {r : SocketRound}
    (h : socketRound busyWaiting stamps s r = some t) :
    t = (s.read (dropped r.recvs + 8) true
        (ofWordBytes (handedOver stamps (s.taken + dropped r.recvs) 8))).record r.now ∧
      (busyWaiting = false → dropped r.recvs = 0) := by
  unfold socketRound at h
  split_ifs at h with hsend
  split at h
  · cases h
  · rename_i result hreceive
    split_ifs at h with hcode
    obtain ⟨hfilled, hblocking⟩ := receive_filled (length_wordBytes _) hreceive hcode
    simp only [hfilled.taken_eq, hfilled.buffer_eq, Option.some.injEq] at h
    exact ⟨h.symm, hblocking⟩

/-- What a round of a client other than `uintr-pro` does: it takes some bytes, whole words and
its excess, into `single_start`, and is recorded. If it gets a whole word, and not a sum, and
this ends where a timestamp ends, then it is a timestamp. -/
theorem body_eq {client : Client} (hclient : client ≠ .uintrPro) {r : client.Round}
    (h : body stamps client s r = some t) :
    ∃ n value now, t = (s.read n (client.delivers r) value).record now ∧
      n % 8 = client.excess r % 8 ∧
      (client.delivers r = true → 8 ∣ s.taken + n → ∃ k, value = stamps k) := by
  cases client with
  | shm | mmap =>
    refine ⟨8, _, _, (Option.some.inj h).symm, ?_, fun _ => ofWordBytes_handedOver⟩
    rw [Client.excess]
  | mq =>
    simp only [body, mqRound] at h
    split_ifs at h
    refine ⟨8, _, _, (Option.some.inj h).symm, ?_, fun _ => ofWordBytes_handedOver⟩
    rw [Client.excess]
  | fifo =>
    simp only [body, fifoMsgWait] at h
    split_ifs at h with hitems
    have hbytes := StreamRound.bytes_eq hitems
    have hdelivers : decide (StreamRound.bytes r = 8) = Client.fifo.delivers r := by
      simp [hbytes, Client.delivers]
    rw [← hdelivers]
    refine ⟨_, _, _, (Option.some.inj h).symm, ?_, fun _ => fread_whole hbytes⟩
    rw [hbytes, Client.excess]
  | pipe =>
    simp only [body, pipeRound] at h
    split_ifs at h
    refine ⟨_, _, _, (Option.some.inj h).symm, ?_, fun hdelivers => ?_⟩
    · exact (Nat.mod_mod _ _).symm
    · exact fread_whole (of_decide_eq_true hdelivers)
  | tcp busyWaiting | domain busyWaiting =>
    obtain ⟨ht, hblocking⟩ := socketRound_eq h
    refine ⟨_, _, _, ht, ?_, fun _ hword => ?_⟩
    · cases busyWaiting with
      | true => rw [Nat.add_mod_right, Client.excess]
      | false => rw [hblocking rfl, Client.excess]
    · rw [← Nat.add_assoc] at hword
      exact ofWordBytes_handedOver hword
  | eventfdUni =>
    simp only [body, eventfdUniRound] at h
    split_ifs at h
    refine ⟨_, _, _, (Option.some.inj h).symm, by simp [Client.excess], fun hdelivers _ => ?_⟩
    have hone : EventfdRound.written r = 1 := of_decide_eq_true hdelivers
    exact ⟨s.taken / 8, by simp [hone]⟩
  | uintrPro => exact absurd rfl hclient

/-- Every client but `uintr-pro` counts each of its rounds, and what a round takes besides
whole words decides whether the words are timestamps. -/
theorem body_counts {client : Client} (hclient : client ≠ .uintrPro) {r : client.Round}
    (h : body stamps client s r = some t) :
    t.bench.count = s.bench.count + 1 ∧ t.taken % 8 = (s.taken + client.excess r) % 8 ∧
      t.timestamps = s.timestamps + if client.delivers r = true ∧ 8 ∣ t.taken then 1 else 0 := by
  obtain ⟨n, value, now, rfl, hplace, _⟩ := body_eq hclient h
  refine ⟨benchmark_count _ _, ?_, rfl⟩
  change (s.taken + n) % 8 = _
  omega

/-- What a client other than `uintr-pro` counts as a timestamp read is one of the server's,
and not only eight bytes. -/
theorem singleStart_is_timestamp {client : Client} (hclient : client ≠ .uintrPro)
    {r : client.Round} (h : body stamps client s r = some t)
    (hmore : s.timestamps < t.timestamps) : ∃ k, t.bench.singleStart = stamps k := by
  obtain ⟨n, value, now, rfl, _, hvalue⟩ := body_eq hclient h
  have hcounted : client.delivers r = true ∧ 8 ∣ s.taken + n := by
    by_contra hother
    simp [Account.record, Account.read, hother] at hmore
  obtain ⟨k, hk⟩ := hvalue hcounted.1 hcounted.2
  exact ⟨k, by rw [Account.record, benchmark_singleStart, Account.read, hk]⟩

end Rounds

section Runs

variable {stamps : ℕ → UInt64} {client : Client}

/-- A whole run of a client other than `uintr-pro`, after the rounds in `before`. -/
theorem foldlM_counts (hclient : client ≠ .uintrPro) (before : List client.Round)
    {rounds : List client.Round} {s t : Account} (h : rounds.foldlM (body stamps client) s = some t)
    (htaken : s.taken % 8 = (before.map client.excess).sum % 8) :
    t.bench.count = s.bench.count + Int32.ofNat rounds.length ∧
      t.timestamps + lostRounds client before rounds = s.timestamps + rounds.length := by
  induction rounds generalizing s before with
  | nil =>
    obtain rfl : s = t := by simpa using h
    simp [lostRounds]
  | cons r rounds ih =>
    rw [List.foldlM_cons] at h
    obtain ⟨u, hround, hrest⟩ := Option.bind_eq_some_iff.mp h
    obtain ⟨hcount, htaken', htimestamps⟩ := body_counts hclient hround
    have hsum : ((before ++ [r]).map client.excess).sum =
        (before.map client.excess).sum + client.excess r := by
      simp
    have hplace : u.taken % 8 = ((before ++ [r]).map client.excess).sum % 8 := by omega
    obtain ⟨hcount', hlost⟩ := ih (before ++ [r]) hrest hplace
    constructor
    · rw [hcount', hcount, List.length_cons, Nat.add_comm, Int32.ofNat_add, Int32.add_assoc]
      rfl
    · have hbrings : (client.delivers r = true ∧ 8 ∣ u.taken) ↔ client.Brings before r := by
        rw [Client.Brings, Nat.dvd_iff_mod_eq_zero, hplace, ← Nat.dvd_iff_mod_eq_zero]
      rw [if_congr hbrings rfl rfl] at htimestamps
      rw [lostRounds, List.length_cons]
      split_ifs at htimestamps ⊢ <;> omega

/-- No round is lost exactly when each of them brings a timestamp. -/
theorem lostRounds_eq_zero_iff (before rounds : List client.Round) :
    lostRounds client before rounds = 0 ↔
      ∀ done r after, rounds = done ++ r :: after → client.Brings (before ++ done) r := by
  induction rounds generalizing before with
  | nil => simp [lostRounds]
  | cons r rounds ih =>
    rw [lostRounds, Nat.add_eq_zero_iff, ih (before ++ [r])]
    constructor
    · rintro ⟨hfirst, hrest⟩ done q after hsplit
      cases done with
      | nil =>
        obtain ⟨rfl, rfl⟩ := List.cons.inj hsplit
        rw [List.append_nil]
        by_contra hmissed
        simp [hmissed] at hfirst
      | cons d done =>
        obtain ⟨rfl, rfl⟩ := List.cons.inj hsplit
        have hlater := hrest done q after rfl
        rwa [List.append_assoc] at hlater
    · intro hall
      refine ⟨if_pos (by simpa using hall [] r rounds rfl), fun done q after hsplit => ?_⟩
      rw [List.append_assoc]
      exact hall (r :: done) q after (by rw [hsplit]; rfl)

/-- The handler runs of `uintr-pro` leave the counter alone. -/
theorem iterate_handlerRun_count (n : ℕ) (s : Account) :
    ((handlerRun stamps)^[n] s).bench.count = s.bench.count := by
  induction n generalizing s with
  | zero => rfl
  | succ n ih =>
    rw [Function.iterate_succ_apply, ih, handlerRun, Account.read]

/-- A whole run of `uintr-pro`. -/
theorem foldlM_uintrPro_count {rounds : List Client.uintrPro.Round} {s t : Account}
    (h : rounds.foldlM (body stamps .uintrPro) s = some t) : t.bench.count = s.bench.count := by
  induction rounds generalizing s with
  | nil =>
    obtain rfl : s = t := by simpa using h
    rfl
  | cons r rounds ih =>
    rw [List.foldlM_cons] at h
    obtain ⟨u, hround, hrest⟩ := Option.bind_eq_some_iff.mp h
    obtain rfl := Option.some.inj hround
    exact (ih hrest).trans (iterate_handlerRun_count r s)

end Runs

/-- The `int` counter after `k` increments is the number of those rounds that are not lost,
and positive, exactly when the lost ones are turns of the counter. -/
theorem toInt_ofNat_eq_iff {k lost d : ℕ} (hsum : d + lost = k) :
    ((Int32.ofNat k).toInt = d ∧ 1 ≤ (Int32.ofNat k).toInt) ↔
      1 ≤ d ∧ d < 2 ^ 31 ∧ 2 ^ 32 ∣ lost := by
  rw [Int32.toInt_ofNat', Int.bmod_def, show Int32.size = 2 ^ 32 from rfl]
  split <;> omega

/-- The rounds are in step or the counter has come round exactly when the lost rounds are turns
of the counter. -/
theorem inStep_or_comeRound_iff {client : Client} {rounds : List client.Round} {d : ℕ}
    (hsum : d + lostRounds client [] rounds = rounds.length) :
    (1 ≤ d ∧ d < 2 ^ 31 ∧ 2 ^ 32 ∣ lostRounds client [] rounds) ↔
      InStep client rounds ∨ ComeRound client rounds := by
  constructor
  · rintro ⟨hpos, hfew, hturns⟩
    rcases Nat.eq_zero_or_pos (lostRounds client [] rounds) with hnone | hlost
    · refine Or.inl ⟨?_, by omega, ?_⟩
      · rintro rfl
        simp at hsum
        omega
      · simpa using (lostRounds_eq_zero_iff [] rounds).mp hnone
    · exact Or.inr ⟨Nat.le_of_dvd hlost hturns, hturns, by omega, by omega⟩
  · rintro (hstep | hround)
    · have hnone : lostRounds client [] rounds = 0 :=
        (lostRounds_eq_zero_iff [] rounds).mpr (by simpa using hstep.brings)
      have hpos := List.length_pos_of_ne_nil hstep.entered
      have hfew := hstep.few
      exact ⟨by omega, by omega, by simp [hnone]⟩
    · have hsome := hround.some
      have hfew := hround.few
      exact ⟨by omega, by omega, hround.turns⟩

/-- When `evaluate` is reached, `bench.count` is at least one and equals the number of
timestamps of the server that have been read into `bench.single_start` exactly when the
client is not `uintr-pro` and its rounds are in step: the first sample is inside the window,
there are fewer than `2 ^ 31` rounds, every `fread` of `pipe` has got its item, every `read`
of `eventfd-uni` a single timestamp, and the calls of `recv` on a busy socket have never left
it inside a timestamp. The only other way is a counter that has come round. -/
theorem evaluate_counts_iff (client : Client) (stamps : ℕ → UInt64) (bench : Benchmarks)
    (now : UInt64) (start : Timeval) (inputs : List (Timeval × client.Round)) (cnt : ℕ)
    (t : Account) (hrun : clientRun client stamps bench now start inputs = .left cnt t) :
    (t.bench.count.toInt = t.timestamps ∧ 1 ≤ t.bench.count.toInt) ↔
      client ≠ .uintrPro ∧ (InStep client (openRounds start inputs) ∨
        ComeRound client (openRounds start inputs)) := by
  obtain ⟨_, hfold⟩ := measuringLoop_left hrun
  by_cases hclient : client = .uintrPro
  · subst hclient
    have hcount := foldlM_uintrPro_count hfold
    rw [setupBenchmarks_count] at hcount
    simp [hcount]
  · obtain ⟨hcount, hlost⟩ := foldlM_counts hclient [] hfold rfl
    rw [setupBenchmarks_count, Int32.zero_add] at hcount
    rw [Nat.zero_add] at hlost
    rw [hcount, toInt_ofNat_eq_iff hlost, inStep_or_comeRound_iff hlost]
    exact (and_iff_right hclient).symm

/-- A busy socket whose first `recv` finds nothing, and which then gets two timestamps. -/
def twoRounds : List (Timeval × (Client.tcp true).Round) :=
  [(⟨0, 10⟩, (⟨4096, 0, [.error 11, .data 8], 7⟩ : SocketRound)),
    (⟨0, 20⟩, (⟨4096, 11, [.data 8], 9⟩ : SocketRound)),
    (⟨0, 100001⟩, (⟨0, 0, [], 0⟩ : SocketRound))]

theorem evaluate_counts_iff_two_rounds :
    ∃ cnt t, clientRun (.tcp true) (fun k => UInt64.ofNat (k + 5)) ⟨9, 9, 9, 9, 9, 9, 9⟩ 1 ⟨0, 0⟩
        twoRounds = .left cnt t ∧
      t.bench.count.toInt = t.timestamps ∧ 1 ≤ t.bench.count.toInt := by
  have hrun : clientRun (.tcp true) (fun k => UInt64.ofNat (k + 5)) ⟨9, 9, 9, 9, 9, 9, 9⟩ 1 ⟨0, 0⟩
    twoRounds = .left 2 ⟨⟨1, 6, 2, 3, 5, 0, 2⟩, 16, 2⟩ := rfl
  have hlost : lostRounds (.tcp true) [] (openRounds ⟨0, 0⟩ twoRounds) = 0 := by decide
  have hstep : InStep (.tcp true) (openRounds ⟨0, 0⟩ twoRounds) :=
    ⟨by simp [openRounds, twoRounds, windowClosed], by decide,
      by simpa using (lostRounds_eq_zero_iff [] _).mp hlost⟩
  exact ⟨2, _, hrun, (evaluate_counts_iff _ _ _ _ _ _ _ _ hrun).mpr ⟨by decide, Or.inl hstep⟩⟩

/-- The server writes 5 and 7 before `eventfd-uni` reads. -/
def mergedRead : List (Timeval × Client.eventfdUni.Round) :=
  [(⟨0, 10⟩, (⟨8, 2, by decide, 20⟩ : EventfdRound)),
    (⟨0, 100001⟩, (⟨8, 1, by decide, 0⟩ : EventfdRound))]

/-- A request of sixteen bytes, to which a server with messages of eight bytes answers twice.
The first `recv` finds nothing, the second one three bytes of a timestamp, and the third one
eight bytes. -/
def droppedBytes : List (Timeval × (Client.tcp true).Round) :=
  [(⟨0, 10⟩, (⟨16, 0, [.error 11, .data 3, .data 8], 20⟩ : SocketRound)),
    (⟨0, 100001⟩, (⟨0, 0, [], 0⟩ : SocketRound))]

/-- `uintr-pro` reaches `evaluate` with nothing counted, and so does `shm` when its first
sample closes the window; `eventfd-uni` and a busy `tcp` reach it with a count of one and no
timestamp read. -/
theorem evaluate_counts_nothing :
    (∃ cnt t, clientRun .uintrPro (fun _ => 5) ⟨9, 9, 9, 9, 9, 9, 9⟩ 1 ⟨0, 0⟩
        [(⟨0, 10⟩, (0 : ℕ)), (⟨0, 100001⟩, (0 : ℕ))] = .left cnt t ∧ t.bench.count = 0 ∧
      ¬ (t.bench.count.toInt = t.timestamps ∧ 1 ≤ t.bench.count.toInt)) ∧
    (∃ cnt t, clientRun .shm (fun _ => 5) ⟨9, 9, 9, 9, 9, 9, 9⟩ 1 ⟨0, 0⟩
        [(⟨0, 100001⟩, (⟨0⟩ : CopyRound))] = .left cnt t ∧ t.bench.count = 0 ∧
      ¬ (t.bench.count.toInt = t.timestamps ∧ 1 ≤ t.bench.count.toInt)) ∧
    (∃ cnt t, clientRun .eventfdUni (fun k => if k = 0 then 5 else 7) ⟨9, 9, 9, 9, 9, 9, 9⟩ 1 ⟨0, 0⟩
        mergedRead = .left cnt t ∧ t.bench.singleStart = 12 ∧ t.bench.count = 1 ∧
      t.timestamps = 0 ∧ ¬ (t.bench.count.toInt = t.timestamps ∧ 1 ≤ t.bench.count.toInt)) ∧
    ∃ cnt t, clientRun (.tcp true) (fun _ => 5) ⟨9, 9, 9, 9, 9, 9, 9⟩ 1 ⟨0, 0⟩
        droppedBytes = .left cnt t ∧ t.bench.count = 1 ∧ t.timestamps = 0 ∧
      ¬ (t.bench.count.toInt = t.timestamps ∧ 1 ≤ t.bench.count.toInt) :=
  ⟨⟨1, ⟨⟨1, 9, 2147483647, 0, 0, 0, 0⟩, 0, 0⟩, rfl, rfl, by decide⟩,
    ⟨0, ⟨⟨1, 9, 2147483647, 0, 0, 0, 0⟩, 0, 0⟩, rfl, rfl, by decide⟩,
    ⟨1, ⟨⟨1, 12, 8, 8, 8, 0, 1⟩, 16, 0⟩, rfl, rfl, rfl, rfl, by decide⟩,
    ⟨1, ⟨⟨1, 5497558138880, 2147483647, 18446738576151412756, 18446738576151412756, 0, 1⟩, 11, 0⟩,
      rfl, rfl, rfl, by decide⟩⟩

end IpcBench.OneWay
