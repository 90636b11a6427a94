import IpcBench.Common.Sockets

/-!
# What `receive` makes of a stream

A stream may arrive in pieces of any length, and on a busy socket a call of `recv` may fail
with `EAGAIN` any number of times in between. `receive` does not put pieces together: every
`recv` asks for the whole size and writes to the start of the buffer. It looks at `errno`
after every `recv` that returns too little, although only a failed one sets it.
-/

namespace IpcBench

/-- The pieces in which the results of `recv` deliver a stream. -/
def pieces : List RecvResult → List (List UInt8)
  | [] => []
  | .data bytes :: results => bytes :: pieces results
  | .error _ :: results => pieces results

/-- The stream that the results of `recv` deliver. -/
def delivered (results : List RecvResult) : List UInt8 := (pieces results).flatten

/-- A way in which `recv` may split a stream: with at least one byte in a piece and not more
than it was asked for, and on a busy socket with `EAGAIN` any number of times. -/
structure Splits (size : ℕ) (busyWaiting : Bool) (results : List RecvResult) : Prop where
  piece : ∀ bytes ∈ pieces results, 1 ≤ bytes.length ∧ bytes.length ≤ size
  error : ∀ errno, .error errno ∈ results → busyWaiting = true ∧ errno = eagain

@[simp] theorem pieces_append (first second : List RecvResult) :
    pieces (first ++ second) = pieces first ++ pieces second := by
  induction first with
  | nil => rfl
  | cons result first ih => cases result <;> simp [pieces, ih]

@[simp] theorem delivered_append (first second : List RecvResult) :
    delivered (first ++ second) = delivered first ++ delivered second := by
  simp [delivered]

theorem delivered_data (bytes : List UInt8) (results : List RecvResult) :
    delivered (.data bytes :: results) = bytes ++ delivered results := rfl

/-- The first piece is preceded by errors only. -/
theorem exists_of_pieces_eq_cons {results : List RecvResult} {piece : List UInt8}
    {others : List (List UInt8)} (h : pieces results = piece :: others) :
    ∃ before later, results = before ++ .data piece :: later ∧ pieces before = [] ∧
      pieces later = others := by
  induction results with
  | nil => simp [pieces] at h
  | cons result results ih =>
    cases result with
    | data bytes =>
      obtain ⟨rfl, rfl⟩ := List.cons.inj h
      exact ⟨[], results, rfl, rfl, rfl⟩
    | error errno =>
      obtain ⟨before, later, rfl, hbefore, hlater⟩ := ih h
      exact ⟨.error errno :: before, later, rfl, hbefore, hlater⟩

namespace Splits

variable {size : ℕ} {busyWaiting : Bool} {before later : List RecvResult}

/-- What comes after a piece is split in the same way. -/
theorem after {bytes : List UInt8} (h : Splits size busyWaiting (before ++ .data bytes :: later)) :
    Splits size busyWaiting later :=
  ⟨fun bytes hmem => h.piece bytes (by simp [pieces, hmem]),
    fun errno hmem => h.error errno (by simp [hmem])⟩

/-- Without a piece there are only retries. -/
theorem retried (h : Splits size busyWaiting (before ++ later)) (hnone : pieces before = []) :
    Retried busyWaiting before := by
  have hagain : ∀ result ∈ before, result = .error eagain ∧ busyWaiting = true := by
    intro result hmem
    cases result with
    | data bytes =>
      obtain ⟨first, second, rfl⟩ := List.append_of_mem hmem
      simp [pieces] at hnone
    | error errno =>
      obtain ⟨hbusy, rfl⟩ := h.error errno (List.mem_append_left _ hmem)
      exact ⟨rfl, hbusy⟩
  refine ⟨fun result hmem => (hagain result hmem).1, fun hblocking => ?_⟩
  cases before with
  | nil => rfl
  | cons result before =>
    have hbusy := (hagain result List.mem_cons_self).2
    simp [hblocking] at hbusy

/-- If nothing was delivered there was no piece. -/
theorem pieces_eq_nil (h : Splits size busyWaiting (before ++ later))
    (hnone : (delivered before).length = 0) : pieces before = [] := by
  cases hpieces : pieces before with
  | nil => rfl
  | cons piece others =>
    have hpiece := (h.piece piece (by simp [hpieces])).1
    rw [delivered, hpieces, List.flatten_cons, List.length_append] at hnone
    omega

end Splits

/-- A `recv` that does not return too little has returned data. -/
theorem data_of_recv {size : ℕ} {errno : ℤ} {buffer : List UInt8} {result : RecvResult}
    (h : ¬ (recv size errno buffer result).1 < size) :
    ∃ bytes, result = .data bytes ∧ size ≤ bytes.length := by
  cases result with
  | data bytes =>
    simp only [recv, List.length_take] at h
    exact ⟨bytes, rfl, by omega⟩
  | error errno =>
    simp only [recv] at h
    omega

/-- If the busy loop returns 0, its last `recv` has returned all it was asked for. -/
theorem receiveBusy_ok {size : ℕ} {errno : ℤ} {buffer : List UInt8} {results : List RecvResult}
    {r : ReceiveResult} (h : receiveBusy size errno buffer results = some r) (hok : r.code = 0) :
    ∃ before bytes, results = before ++ .data bytes :: r.rest ∧ size ≤ bytes.length := by
  induction results generalizing errno buffer with
  | nil => simp [receiveBusy] at h
  | cons result results ih =>
    simp only [receiveBusy] at h
    split at h
    · split at h
      · obtain rfl := Option.some.inj h
        simp at hok
      · obtain ⟨before, bytes, rfl, hbytes⟩ := ih h
        exact ⟨result :: before, bytes, rfl, hbytes⟩
    · next henough =>
      obtain rfl := Option.some.inj h
      obtain ⟨bytes, rfl, hbytes⟩ := data_of_recv henough
      exact ⟨[], bytes, rfl, hbytes⟩

/-- If `receive` returns 0, its last `recv` has returned all it was asked for. -/
theorem receive_ok {size : ℕ} {busyWaiting : Bool} {errno : ℤ} {buffer : List UInt8}
    {results : List RecvResult} {r : ReceiveResult}
    (h : receive size busyWaiting errno buffer results = some r) (hok : r.code = 0) :
    ∃ before bytes, results = before ++ .data bytes :: r.rest ∧ size ≤ bytes.length := by
  cases busyWaiting with
  | true => exact receiveBusy_ok h hok
  | false =>
    cases results with
    | nil => simp [receive] at h
    | cons result results =>
      simp only [receive, Bool.false_eq_true, if_false] at h
      split at h
      · obtain rfl := Option.some.inj h
        simp at hok
      · next henough =>
        obtain rfl := Option.some.inj h
        obtain ⟨bytes, rfl, hbytes⟩ := data_of_recv henough
        exact ⟨[], bytes, rfl, hbytes⟩

/-- What consecutive calls of `receive` are meant to do: every call returns 0, has taken
exactly the next `size` bytes out of the stream, and leaves them in the buffer. -/
def Reassembles (size : ℕ) (busyWaiting : Bool) :
    ℕ → ℤ → List UInt8 → List RecvResult → Prop
  | 0, _, _, _ => True
  | calls + 1, errno, buffer, results =>
      ∃ r, receive size busyWaiting errno buffer results = some r ∧ r.code = 0 ∧
        r.buffer.take size = (delivered results).take size ∧
        delivered r.rest = (delivered results).drop size ∧
        Reassembles size busyWaiting calls r.errno r.buffer r.rest

/-- A call that takes exactly `size` bytes has found them all in the first piece. -/
theorem first_piece_of_exact {size : ℕ} {busyWaiting : Bool} {before later : List RecvResult}
    {bytes : List UInt8} (hsplits : Splits size busyWaiting (before ++ .data bytes :: later))
    (henough : size ≤ bytes.length)
    (hexact : delivered later = (delivered (before ++ .data bytes :: later)).drop size) :
    pieces before = [] ∧ bytes.length = size := by
  have hbytes : bytes.length ≤ size := (hsplits.piece bytes (by simp [pieces])).2
  have hlength := congrArg List.length hexact
  rw [delivered_append, delivered_data, List.length_drop, List.length_append,
    List.length_append] at hlength
  exact ⟨hsplits.pieces_eq_nil (by omega), Nat.le_antisymm hbytes henough⟩

/-- `receive` over a stream, for every size, blocking or busy, whatever `errno` and the buffer
contain, for any number of consecutive calls and every way in which `recv` splits a stream
that delivers enough for them: the calls return the stream piece by piece if and only if
each of them finds all its bytes in the first piece it is given. -/
theorem reassembles_iff (size : ℕ) (busyWaiting : Bool) (calls : ℕ) (errno : ℤ)
    (buffer : List UInt8) (results : List RecvResult) (hsize : 1 ≤ size)
    (hsplits : Splits size busyWaiting results)
    (henough : calls * size ≤ (delivered results).length) :
    Reassembles size busyWaiting calls errno buffer results ↔
      ∀ piece ∈ (pieces results).take calls, piece.length = size := by
  induction calls generalizing errno buffer results with
  | zero => simp [Reassembles]
  | succ calls ih =>
    rw [Nat.succ_mul] at henough
    constructor
    · rintro ⟨r, hreceive, hok, _, hexact, hnext⟩
      obtain ⟨before, bytes, rfl, hbytes⟩ := receive_ok hreceive hok
      obtain ⟨hnone, hfull⟩ := first_piece_of_exact hsplits hbytes hexact
      have hlength := congrArg List.length hexact
      rw [List.length_drop] at hlength
      have hrest := (ih r.errno r.buffer r.rest hsplits.after (by omega)).mp hnext
      rw [pieces_append, hnone, List.nil_append, pieces, List.take_succ_cons]
      exact List.forall_mem_cons.mpr ⟨hfull, hrest⟩
    · intro hfull
      cases hpieces : pieces results with
      | nil =>
        rw [delivered, hpieces, List.flatten_nil, List.length_nil] at henough
        omega
      | cons piece others =>
        obtain ⟨before, later, rfl, hnone, hlater⟩ := exists_of_pieces_eq_cons hpieces
        rw [hpieces, List.take_succ_cons, ← hlater] at hfull
        obtain ⟨rfl, hothers⟩ := List.forall_mem_cons.mp hfull
        obtain ⟨errno', hreceive⟩ :=
          (hsplits.retried hnone).receive_data errno buffer piece later
        have hdelivered :
            delivered (before ++ .data piece :: later) = piece ++ delivered later := by
          rw [delivered_append, delivered_data, delivered, hnone, List.flatten_nil, List.nil_append]
        rw [hdelivered, List.length_append] at henough
        refine ⟨_, hreceive, rfl, ?_, ?_, ?_⟩
        · rw [hdelivered, List.take_left, List.take_left]
        · rw [hdelivered, List.drop_left]
        · exact (ih errno' _ later hsplits.after (by omega)).mpr hothers

/-- Two calls on a busy socket, each of which finds its two bytes in one piece. -/
theorem reassembles_iff_whole_pieces :
    Reassembles 2 true 2 0 [0, 0] [.error eagain, .data [1, 2], .error eagain, .data [3, 4]] :=
  (reassembles_iff 2 true 2 0 [0, 0] _ (by decide) ⟨by decide, by simp⟩ (by decide)).mpr
    (by decide)

/-- Two bytes that arrive one by one: `receive` gives up after the first. -/
theorem split_message_refused :
    receive 2 false 0 [0, 0] [.data [1], .data [2]] = some ⟨-1, 0, [1, 0], [.data [2]]⟩ ∧
      ¬ Reassembles 2 false 1 0 [0, 0] [.data [1], .data [2]] := by
  have hrefused : receive 2 false 0 [0, 0] [.data [1], .data [2]] =
      some ⟨-1, 0, [1, 0], [.data [2]]⟩ := by decide
  refine ⟨hrefused, ?_⟩
  rintro ⟨r, hreceive, hok, _⟩
  obtain rfl := Option.some.inj (hreceive.symm.trans hrefused)
  exact absurd hok (by decide)

/-- After the results, the peer has closed: `recv` returns 0 as often as it is called, and
leaves `errno` alone. `receive` reports this if it returns -1 after finitely many calls. -/
def ReportsEnd (size : ℕ) (busyWaiting : Bool) (errno : ℤ) (buffer : List UInt8)
    (results : List RecvResult) : Prop :=
  ∃ calls r, receive size busyWaiting errno buffer
    (results ++ List.replicate calls (.data [])) = some r ∧ r.code = -1

/-- A `recv` that returns too little, by an error or by a short read. -/
def TooShort (size : ℕ) : RecvResult → Prop
  | .data bytes => bytes.length < size
  | .error errno => errno = eagain

/-- Once `errno` is `EAGAIN` the busy loop does not end as long as `recv` returns too
little: nothing sets `errno` to another value. -/
theorem receiveBusy_stale {size : ℕ} {results : List RecvResult}
    (hshort : ∀ result ∈ results, TooShort size result) (buffer : List UInt8) :
    receiveBusy size eagain buffer results = none := by
  induction results generalizing buffer with
  | nil => rfl
  | cons result results ih =>
    have hfirst := hshort result List.mem_cons_self
    have hrest := ih fun result hmem => hshort result (List.mem_cons_of_mem _ hmem)
    cases result with
    | data bytes =>
      have hless : bytes.length < size := hfirst
      have htake : bytes.take size = bytes := List.take_of_length_le (Nat.le_of_lt hless)
      simp [receiveBusy, recv, htake, hless, hrest]
    | error errno =>
      obtain rfl : errno = eagain := hfirst
      have hless : (-1 : ℤ) < size := by omega
      simp [receiveBusy, recv, hless, hrest]

/-- Before all bytes have arrived, and after the peer has closed, every `recv` returns too
little. -/
theorem tooShort_of_mem {size : ℕ} {busyWaiting : Bool} {results : List RecvResult}
    (hsplits : Splits size busyWaiting results) (hfew : (delivered results).length < size)
    (calls : ℕ) : ∀ result ∈ results ++ List.replicate calls (.data []), TooShort size result := by
  intro result hmem
  rcases List.mem_append.mp hmem with hbefore | hclosed
  · cases result with
    | data bytes =>
      obtain ⟨before, later, rfl⟩ := List.append_of_mem hbefore
      rw [delivered_append, delivered_data, List.length_append, List.length_append] at hfew
      exact Nat.lt_of_le_of_lt (by omega) hfew
    | error errno => exact (hsplits.error errno hbefore).2
  · obtain rfl := (List.mem_replicate.mp hclosed).2
    exact Nat.zero_lt_of_lt hfew

theorem receive_busy (size : ℕ) (errno : ℤ) (buffer : List UInt8) (results : List RecvResult) :
    receive size true errno buffer results = receiveBusy size errno buffer results := rfl

/-- `receive` returns -1 at once if its first `recv` is a short read, and `errno` is not
`EAGAIN` if the socket is busy. -/
theorem receive_gives_up {size : ℕ} {busyWaiting : Bool} {errno : ℤ} {bytes : List UInt8}
    (hshort : bytes.length < size) (hcond : busyWaiting = false ∨ errno ≠ eagain)
    (buffer : List UInt8) (later : List RecvResult) :
    receive size busyWaiting errno buffer (.data bytes :: later) =
      some ⟨-1, errno, bytes ++ buffer.drop bytes.length, later⟩ := by
  have htake : bytes.take size = bytes := List.take_of_length_le (Nat.le_of_lt hshort)
  cases busyWaiting with
  | false => simp [receive, recv, htake, hshort]
  | true =>
    have herrno : errno ≠ eagain := hcond.resolve_left (by simp)
    simp [receive, receiveBusy, recv, htake, hshort, herrno]

/-- The end of a stream, for every size, blocking or busy, every value of `errno` and every
sequence of short reads and `EAGAIN` results after which the peer has closed before all
bytes have arrived: `receive` reports it if and only if the socket is blocking, or neither
`errno` is `EAGAIN` before the call nor the first `recv` fails with it. -/
theorem reportsEnd_iff (size : ℕ) (busyWaiting : Bool) (errno : ℤ) (buffer : List UInt8)
    (results : List RecvResult) (hsplits : Splits size busyWaiting results)
    (hfew : (delivered results).length < size) :
    ReportsEnd size busyWaiting errno buffer results ↔
      busyWaiting = false ∨ errno ≠ eagain ∧ results.head? ≠ some (.error eagain) := by
  have hshort := tooShort_of_mem hsplits hfew
  constructor
  · rintro ⟨calls, r, hreceive, _⟩
    by_contra hstale
    rw [not_or, Bool.not_eq_false, not_and_or, not_not, not_not] at hstale
    obtain ⟨rfl, herrno | hhead⟩ := hstale
    · -- `errno` is stale from the beginning
      rw [receive_busy, herrno, receiveBusy_stale (hshort calls)] at hreceive
      cases hreceive
    · -- the first `recv` makes it stale
      cases results with
      | nil => cases hhead
      | cons result results =>
        obtain rfl := Option.some.inj hhead
        have hrest : receiveBusy size eagain buffer
            (results ++ List.replicate calls (.data [])) = none :=
          receiveBusy_stale (fun result hmem =>
            hshort calls result (List.mem_cons_of_mem _ hmem)) buffer
        have hless : (-1 : ℤ) < size := by omega
        simp [receive_busy, receiveBusy, recv, hless, hrest] at hreceive
  · intro hcond
    have herrno : busyWaiting = false ∨ errno ≠ eagain := hcond.imp_right And.left
    cases results with
    | nil =>
      have hclosed : ([] : List UInt8).length < size := Nat.zero_lt_of_lt hfew
      exact ⟨1, _, receive_gives_up hclosed herrno buffer [], rfl⟩
    | cons result results =>
      cases result with
      | data bytes =>
        have hfirst := hshort 0 (.data bytes) (by simp)
        exact ⟨0, _, receive_gives_up hfirst herrno buffer _, rfl⟩
      | error errno =>
        -- only a busy socket gives an error, and the condition excludes it
        obtain ⟨hbusy, rfl⟩ := hsplits.error errno List.mem_cons_self
        simp [hbusy] at hcond

/-- A short read on a busy socket whose `errno` is zero. -/
theorem reportsEnd_iff_clear_errno : ReportsEnd 2 true 0 [0, 0] [.data [1]] :=
  (reportsEnd_iff 2 true 0 [0, 0] [.data [1]] ⟨by decide, by simp⟩ (by decide)).mpr
    (Or.inr ⟨by decide, by decide⟩)

/-- One `EAGAIN` before the peer closes: however often `recv` returns 0, the busy loop goes
on. -/
theorem busy_loop_never_returns :
    (∀ calls, receive 1 true 0 [0] (.error eagain :: List.replicate calls (.data [])) = none) ∧
      ¬ ReportsEnd 1 true 0 [0] [.error eagain] := by
  have hnever : ∀ calls,
      receive 1 true 0 [0] (.error eagain :: List.replicate calls (.data [])) = none := by
    intro calls
    have hshort : ∀ result ∈ List.replicate calls (.data []), TooShort 1 result := by
      intro result hmem
      obtain rfl := (List.mem_replicate.mp hmem).2
      exact Nat.one_pos
    simpa [receive_busy, receiveBusy, recv] using receiveBusy_stale hshort [0]
  refine ⟨hnever, ?_⟩
  rintro ⟨calls, r, hreceive, _⟩
  cases (hnever calls).symm.trans hreceive

end IpcBench
