import IpcBench.Lib.LittleEndian
import IpcBench.Common.KfifoConcurrent

/-!
# The timestamp exchange of `uintr-pro`

The server writes a timestamp into the shared fifo, sends a user interrupt and
spins until the fifo is empty; the interrupt handler of the client empties it into
`bench.single_start`. The accesses to the fifo are the steps of `KfifoSteps`; the
model adds the two control flows, the interrupts in flight, and the `data` pointer
that the handler rewrites. Both processes are taken to reach the same data area.
-/

namespace IpcBench.UintrPro

open Lib

/-- `DEFAULT_MESSAGE_SIZE`, the size of the data area that the server allocates. -/
def defaultMessageSize : UInt32 := 4096

/-- The addresses at which `shmat` attaches the segment in the two processes, and
whether the handler may also run without a `_senduipi` before it. -/
structure Config where
  server : UInt64
  client : UInt64
  spurious : Bool
  deriving DecidableEq, Repr

/-- Where the loop of `communicate` in the server stands. -/
inductive ServerPc where
  | stamp
  | inCall
  | notify
  | spin
  deriving DecidableEq, Repr

/-- Where a run of `ui_handler` stands: after the store to `fifo->data`, after
the evaluation of `kfifo_len(fifo)`, inside `__kfifo_out`. -/
inductive HandlerPc where
  | idle
  | entered
  | pointed
  | measured (len : UInt32)
  | outCall
  deriving DecidableEq, Repr

/-- The shared fifo with its half-finished calls, the two control flows and the
interrupts in flight. `stamps` are the timestamps the server has taken; `runs`
records for each finished handler run how many bytes it copied and what it left
in `bench.single_start`. -/
structure State where
  ring : Spsc.State
  server : ServerPc
  handler : HandlerPc
  pending : ℕ
  stamps : List UInt64
  singleStart : List UInt8
  runs : List (ℕ × List UInt8)
  deriving DecidableEq, Repr

/-- The steps of the server, of the handler and of the interrupt hardware. -/
inductive Action where
  | stamp (timestamp : UInt64)
  | serverCopy
  | serverPublish
  | senduipi
  | spin
  | loseInterrupt
  | deliver
  | storeData
  | measure
  | handlerBegin
  | handlerCopy
  | handlerPublish
  deriving DecidableEq, Repr

/-- `main` of the server up to `communicate`: `fifo` is the start of the segment
and the data area lies behind the struct. -/
def initFifo (cfg : Config) (fifo₀ : Kfifo) : Kfifo :=
  (kfifoInit fifo₀ (cfg.server + sizeofKfifo) defaultMessageSize 1).2

/-- The state in which the server enters its loop. -/
def start (cfg : Config) (fifo₀ : Kfifo) (area singleStart : List UInt8) : State :=
  ⟨Spsc.start (initFifo cfg fifo₀) area, .stamp, .idle, 0, [], singleStart, []⟩

/-- The store `fifo->data = shared_memory + sizeof(struct __kfifo)`. -/
def setData (ring : Spsc.State) (data : UInt64) : Spsc.State :=
  { ring with fifo := { ring.fifo with data := data } }

/-- The bytes that a consumer inside a call has copied. -/
def copiedBytes : Spsc.Consumer → List UInt8
  | .idle => []
  | .copying _ copied => copied

/-- One step of the exchange. -/
def step (cfg : Config) (s : State) : Action → Option State
  | .stamp timestamp =>
      if s.server = .stamp then
        (Spsc.step s.ring (.inBegin (wordBytes timestamp) 8)).map fun ring =>
          { s with ring := ring, server := .inCall, stamps := s.stamps ++ [timestamp] }
      else none
  | .serverCopy =>
      if s.server = .inCall then
        (Spsc.step s.ring .inCopy).map fun ring => { s with ring := ring }
      else none
  | .serverPublish =>
      if s.server = .inCall then
        (Spsc.step s.ring .inPublish).map fun ring => { s with ring := ring, server := .notify }
      else none
  | .senduipi =>
      if s.server = .notify then
        some { s with server := .spin, pending := s.pending + 1 }
      else none
  | .spin =>
      if s.server = .spin then
        some (if kfifoLen s.ring.fifo = 0 then { s with server := .stamp } else s)
      else none
  | .loseInterrupt =>
      if 0 < s.pending then some { s with pending := s.pending - 1 } else none
  | .deliver =>
      if s.handler = .idle ∧ (0 < s.pending ∨ cfg.spurious = true) then
        some { s with pending := s.pending - 1, handler := .entered }
      else none
  | .storeData =>
      if s.handler = .entered then
        some { s with ring := setData s.ring (cfg.client + sizeofKfifo), handler := .pointed }
      else none
  | .measure =>
      if s.handler = .pointed then
        some { s with handler := .measured (kfifoLen s.ring.fifo) }
      else none
  | .handlerBegin =>
      match s.handler with
      | .measured len =>
          (Spsc.step s.ring (.outBegin len)).map fun ring =>
            { s with ring := ring, handler := .outCall }
      | _ => none
  | .handlerCopy =>
      if s.handler = .outCall then
        (Spsc.step s.ring .outCopy).map fun ring =>
          { s with
            ring := ring
            singleStart := fillBuffer (copiedBytes ring.consumer) s.singleStart }
      else none
  | .handlerPublish =>
      if s.handler = .outCall then
        (Spsc.step s.ring .outPublish).map fun ring =>
          { s with
            ring := ring
            handler := .idle
            runs := s.runs ++ [((copiedBytes s.ring.consumer).length, s.singleStart)] }
      else none

section Inversion

variable {cfg : Config} {s t : State}

/-- What `stamp` does. -/
theorem step_stamp {timestamp : UInt64} (h : step cfg s (.stamp timestamp) = some t) :
    s.server = .stamp ∧ ∃ ring, Spsc.step s.ring (.inBegin (wordBytes timestamp) 8) = some ring ∧
      t = { s with ring := ring, server := .inCall, stamps := s.stamps ++ [timestamp] } := by
  simpa [step, eq_comm] using h

/-- What `serverCopy` does. -/
theorem step_serverCopy (h : step cfg s .serverCopy = some t) :
    s.server = .inCall ∧ ∃ ring, Spsc.step s.ring .inCopy = some ring ∧
      t = { s with ring := ring } := by
  simpa [step, eq_comm] using h

/-- What `serverPublish` does. -/
theorem step_serverPublish (h : step cfg s .serverPublish = some t) :
    s.server = .inCall ∧ ∃ ring, Spsc.step s.ring .inPublish = some ring ∧
      t = { s with ring := ring, server := .notify } := by
  simpa [step, eq_comm] using h

/-- What `senduipi` does. -/
theorem step_senduipi (h : step cfg s .senduipi = some t) :
    s.server = .notify ∧ t = { s with server := .spin, pending := s.pending + 1 } := by
  simp only [step, Option.ite_none_right_eq_some, Option.some.injEq] at h
  exact ⟨h.1, h.2.symm⟩

/-- What `spin` does. -/
theorem step_spin (h : step cfg s .spin = some t) :
    s.server = .spin ∧ (kfifoLen s.ring.fifo = 0 ∧ t = { s with server := .stamp } ∨
      kfifoLen s.ring.fifo ≠ 0 ∧ t = s) := by
  simp only [step, Option.ite_none_right_eq_some, Option.some.injEq] at h
  obtain ⟨hserver, rfl⟩ := h
  by_cases hempty : kfifoLen s.ring.fifo = 0
  · exact ⟨hserver, Or.inl ⟨hempty, if_pos hempty⟩⟩
  · exact ⟨hserver, Or.inr ⟨hempty, if_neg hempty⟩⟩

/-- What `loseInterrupt` does. -/
theorem step_loseInterrupt (h : step cfg s .loseInterrupt = some t) :
    0 < s.pending ∧ t = { s with pending := s.pending - 1 } := by
  simp only [step, Option.ite_none_right_eq_some, Option.some.injEq] at h
  exact ⟨h.1, h.2.symm⟩

/-- What `deliver` does. -/
theorem step_deliver (h : step cfg s .deliver = some t) :
    (s.handler = .idle ∧ (0 < s.pending ∨ cfg.spurious = true)) ∧
      t = { s with pending := s.pending - 1, handler := .entered } := by
  simp only [step, Option.ite_none_right_eq_some, Option.some.injEq] at h
  exact ⟨h.1, h.2.symm⟩

/-- What `storeData` does. -/
theorem step_storeData (h : step cfg s .storeData = some t) :
    s.handler = .entered ∧
      t = { s with ring := setData s.ring (cfg.client + sizeofKfifo), handler := .pointed } := by
  simp only [step, Option.ite_none_right_eq_some, Option.some.injEq] at h
  exact ⟨h.1, h.2.symm⟩

/-- What `measure` does. -/
theorem step_measure (h : step cfg s .measure = some t) :
    s.handler = .pointed ∧ t = { s with handler := .measured (kfifoLen s.ring.fifo) } := by
  simp only [step, Option.ite_none_right_eq_some, Option.some.injEq] at h
  exact ⟨h.1, h.2.symm⟩

/-- What `handlerBegin` does. -/
theorem step_handlerBegin (h : step cfg s .handlerBegin = some t) :
    ∃ len ring, s.handler = .measured len ∧ Spsc.step s.ring (.outBegin len) = some ring ∧
      t = { s with ring := ring, handler := .outCall } := by
  cases hhandler : s.handler with
  | measured len =>
    simp only [step, hhandler, Option.map_eq_some_iff] at h
    obtain ⟨ring, hring, ht⟩ := h
    exact ⟨len, ring, rfl, hring, ht.symm⟩
  | _ => simp [step, hhandler] at h

/-- What `handlerCopy` does. -/
theorem step_handlerCopy (h : step cfg s .handlerCopy = some t) :
    s.handler = .outCall ∧ ∃ ring, Spsc.step s.ring .outCopy = some ring ∧
      t = { s with
        ring := ring
        singleStart := fillBuffer (copiedBytes ring.consumer) s.singleStart } := by
  simpa [step, eq_comm] using h

/-- What `handlerPublish` does. -/
theorem step_handlerPublish (h : step cfg s .handlerPublish = some t) :
    s.handler = .outCall ∧ ∃ ring, Spsc.step s.ring .outPublish = some ring ∧
      t = { s with
        ring := ring
        handler := .idle
        runs := s.runs ++ [((copiedBytes s.ring.consumer).length, s.singleStart)] } := by
  simpa [step, eq_comm] using h

end Inversion

end IpcBench.UintrPro
