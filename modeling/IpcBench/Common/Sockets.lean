import Mathlib.Data.List.Basic
import Mathlib.Data.Int.Basic

/-!
# `receive` of `common/sockets.c`

A call of `recv` is described by what it yields: bytes of the stream (none of them
when the peer has closed) or an error number. Only an error changes `errno`, and
every call writes at the start of the same buffer.
-/

namespace IpcBench

/-- The error number `EAGAIN`. -/
def eagain : ℤ := 11

/-- What one call of `recv` yields. -/
inductive RecvResult where
  | data (bytes : List UInt8)
  | error (errno : ℤ)
  deriving DecidableEq, Repr

/-- `recv(connection, buffer, size, 0)`: the return value, `errno` and the buffer. -/
def recv (size : ℕ) (errno : ℤ) (buffer : List UInt8) : RecvResult → ℤ × ℤ × List UInt8
  | .data bytes =>
      let bytes := bytes.take size
      (bytes.length, errno, bytes ++ buffer.drop bytes.length)
  | .error errno => (-1, errno, buffer)

/-- What `receive` leaves behind: its return value, `errno`, the buffer, and the
calls of `recv` that are still to come. -/
structure ReceiveResult where
  code : ℤ
  errno : ℤ
  buffer : List UInt8
  rest : List RecvResult
  deriving DecidableEq, Repr

/-- The busy branch of `receive`; `none` as long as it has not returned. -/
def receiveBusy (size : ℕ) : ℤ → List UInt8 → List RecvResult → Option ReceiveResult
  | _, _, [] => none
  | errno, buffer, result :: rest =>
      let (n, errno, buffer) := recv size errno buffer result
      if n < size then
        if errno ≠ eagain then some ⟨-1, errno, buffer, rest⟩
        else receiveBusy size errno buffer rest
      else some ⟨0, errno, buffer, rest⟩

/-- `receive`: one `recv` on a blocking socket, a loop of them on a busy one. -/
def receive (size : ℕ) (busyWaiting : Bool) (errno : ℤ) (buffer : List UInt8)
    (results : List RecvResult) : Option ReceiveResult :=
  if busyWaiting then receiveBusy size errno buffer results
  else
    match results with
    | [] => none
    | result :: rest =>
        let (n, errno, buffer) := recv size errno buffer result
        if n < size then some ⟨-1, errno, buffer, rest⟩ else some ⟨0, errno, buffer, rest⟩

/-- The calls of `recv` that `receive` survives without having received anything: only the
busy loop goes on after `EAGAIN`. -/
structure Retried (busyWaiting : Bool) (results : List RecvResult) : Prop where
  again : ∀ result ∈ results, result = .error eagain
  blocking : busyWaiting = false → results = []

/-- Nothing has been tried yet. -/
theorem retried_nil (busyWaiting : Bool) : Retried busyWaiting [] := ⟨by simp, fun _ => rfl⟩

namespace Retried

variable {busyWaiting : Bool} {results : List RecvResult}

/-- One more `EAGAIN` in the busy loop. -/
theorem retry (h : Retried busyWaiting results) (hbusy : busyWaiting = true) :
    Retried busyWaiting (results ++ [.error eagain]) := by
  refine ⟨fun result hmem => ?_, by simp [hbusy]⟩
  rcases List.mem_append.mp hmem with hold | hnew
  · exact h.again result hold
  · exact List.mem_singleton.mp hnew

/-- However often it is retried, the busy loop has not returned. -/
theorem receiveBusy_eq (hagain : ∀ result ∈ results, result = .error eagain) (size : ℕ)
    (errno : ℤ) (buffer : List UInt8) : receiveBusy size errno buffer results = none := by
  induction results generalizing errno with
  | nil => rfl
  | cons result rest ih =>
    obtain rfl := hagain result List.mem_cons_self
    have hshort : (-1 : ℤ) < size := by omega
    simpa [receiveBusy, recv, hshort] using
      ih (fun result hmem => hagain result (List.mem_cons_of_mem _ hmem)) eagain

/-- As long as it only retries, `receive` has not returned. -/
theorem receive_eq_none (h : Retried busyWaiting results) (size : ℕ) (errno : ℤ)
    (buffer : List UInt8) : receive size busyWaiting errno buffer results = none := by
  cases busyWaiting with
  | true => exact receiveBusy_eq h.again size errno buffer
  | false =>
    obtain rfl := h.blocking rfl
    rfl

/-- The busy loop returns with the first data. -/
theorem receiveBusy_data (hagain : ∀ result ∈ results, result = .error eagain) (errno : ℤ)
    (buffer bytes : List UInt8) (later : List RecvResult) :
    ∃ errno', receiveBusy bytes.length errno buffer (results ++ .data bytes :: later) =
      some ⟨0, errno', bytes ++ buffer.drop bytes.length, later⟩ := by
  induction results generalizing errno with
  | nil => exact ⟨errno, by simp [receiveBusy, recv]⟩
  | cons result rest ih =>
    obtain rfl := hagain result List.mem_cons_self
    have hshort : (-1 : ℤ) < bytes.length := by omega
    obtain ⟨errno', heq⟩ :=
      ih (fun result hmem => hagain result (List.mem_cons_of_mem _ hmem)) eagain
    exact ⟨errno', by simpa [receiveBusy, recv, hshort] using heq⟩

/-- With all the bytes it asks for, `receive` returns them without an error. -/
theorem receive_data (h : Retried busyWaiting results) (errno : ℤ) (buffer bytes : List UInt8)
    (later : List RecvResult) :
    ∃ errno', receive bytes.length busyWaiting errno buffer (results ++ .data bytes :: later) =
      some ⟨0, errno', bytes ++ buffer.drop bytes.length, later⟩ := by
  cases busyWaiting with
  | true => exact receiveBusy_data h.again errno buffer bytes later
  | false =>
    obtain rfl := h.blocking rfl
    exact ⟨errno, by simp [receive, recv]⟩

/-- The busy loop gives up with any error but `EAGAIN`. -/
theorem receiveBusy_error (hagain : ∀ result ∈ results, result = .error eagain) {code : ℤ}
    (hcode : code ≠ eagain) (size : ℕ) (errno : ℤ) (buffer : List UInt8) :
    ∃ r, receiveBusy size errno buffer (results ++ [.error code]) = some r ∧ r.code = -1 := by
  have hshort : (-1 : ℤ) < size := by omega
  induction results generalizing errno with
  | nil => exact ⟨⟨-1, code, buffer, []⟩, by simp [receiveBusy, recv, hshort, hcode], rfl⟩
  | cons result rest ih =>
    obtain rfl := hagain result List.mem_cons_self
    have hrest := ih (fun result hmem => hagain result (List.mem_cons_of_mem _ hmem)) eagain
    simpa [receiveBusy, recv, hshort] using hrest

/-- With such an error `receive` fails. -/
theorem receive_error (h : Retried busyWaiting results) {code : ℤ} (hcode : code ≠ eagain)
    (size : ℕ) (errno : ℤ) (buffer : List UInt8) :
    ∃ r, receive size busyWaiting errno buffer (results ++ [.error code]) = some r ∧
      r.code = -1 := by
  cases busyWaiting with
  | true => exact receiveBusy_error h.again hcode size errno buffer
  | false =>
    obtain rfl := h.blocking rfl
    have hshort : (-1 : ℤ) < size := by omega
    exact ⟨⟨-1, code, buffer, []⟩, by simp [receive, recv, hshort], rfl⟩

end Retried

end IpcBench
