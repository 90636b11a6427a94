import IpcBench.Lib.LittleEndian
import IpcBench.Common.Benchmarks
import IpcBench.Common.MeasuringLoop
import IpcBench.Common.Sockets

/-!
# The rounds of the nine one-way clients

Every client fills the body of the measuring loop in its own way. The server hands over its
timestamps, eight bytes each, one after the other; what a round gets from outside is how much
of this the transport lets through and what the system calls return. A round is `none` when
the client gives up or does not come back, so that `evaluate` is not reached.

Besides the benchmark record the account keeps how many bytes of the timestamps have been
taken, and how often a round has read the eight bytes of one timestamp, and of no other, into
`bench.single_start`.
-/

namespace IpcBench.OneWay

open Lib

/-- The one-way clients. -/
inductive Client where
  | shm
  | mmap
  | mq
  | fifo
  | pipe
  | tcp (busyWaiting : Bool)
  | domain (busyWaiting : Bool)
  | eventfdUni
  | uintrPro
  deriving DecidableEq, Repr

/-- What the server hands over: `n` bytes of its timestamps from place `p` on. Its `k`-th
timestamp stands at the places `8 * k` to `8 * k + 7`. -/
def handedOver (stamps : ℕ → UInt64) (p n : ℕ) : List UInt8 :=
  (List.range' p n).map fun place => (wordBytes (stamps (place / 8))).getD (place % 8) 0

/-- The benchmark record, the bytes taken from the server, and the number of its timestamps
read into `single_start`. -/
structure Account where
  bench : Benchmarks
  taken : ℕ
  timestamps : ℕ
  deriving DecidableEq, Repr

namespace Account

/-- The next `n` bytes are taken, and `single_start` becomes `value`. If the last eight of
these bytes fill it, they are a timestamp exactly when they end where one ends. -/
def read (s : Account) (n : ℕ) (filled : Bool) (value : UInt64) : Account where
  bench := { s.bench with singleStart := value }
  taken := s.taken + n
  timestamps := s.timestamps + if filled = true ∧ 8 ∣ s.taken + n then 1 else 0

/-- A call of `benchmark`. -/
def record (s : Account) (now : UInt64) : Account := { s with bench := benchmark s.bench now }

end Account

/-- A round over shared memory: the reading of `now`. -/
structure CopyRound where
  now : UInt64

/-- `msg_wait` of `shm` and `mmap`. The guard lets it pass when the next timestamp stands in
the area. -/
def msgWaitCopy (stamps : ℕ → UInt64) (s : Account) (r : CopyRound) : Option Account :=
  some ((s.read 8 true (ofWordBytes (handedOver stamps s.taken 8))).record r.now)

/-- A round of `mq`: the return values of `msgsnd` and `msgrcv`. -/
structure MqRound where
  msgsnd : ℤ
  msgrcv : ℤ
  now : UInt64

/-- The body of the loop of `mq`. A message of the server is a timestamp. -/
def mqRound (stamps : ℕ → UInt64) (s : Account) (r : MqRound) : Option Account :=
  if r.msgsnd = -1 then none
  else if r.msgrcv < 8 then none
  else some ((s.read 8 true (ofWordBytes (handedOver stamps s.taken 8))).record r.now)

/-- A round over a `FILE` stream: how many bytes `fread` gets for its one item of eight. -/
structure StreamRound where
  bytes : ℕ
  bytes_le : bytes ≤ 8
  now : UInt64

/-- What `fread` returns: the number of items it has completed. -/
def StreamRound.items (r : StreamRound) : UInt64 := UInt64.ofNat (r.bytes / 8)

/-- `fread(&bench.single_start, 8, 1, stream)`: what there is of an item is written over the
start of it. -/
def Account.fread (stamps : ℕ → UInt64) (s : Account) (r : StreamRound) : Account :=
  s.read r.bytes (r.bytes = 8) (ofWordBytes
    (handedOver stamps s.taken r.bytes ++ (wordBytes s.bench.singleStart).drop r.bytes))

/-- `msg_wait` of `fifo`: nothing read is an error. -/
def fifoMsgWait (stamps : ℕ → UInt64) (s : Account) (r : StreamRound) : Option Account :=
  if r.items = 0 then none else some ((s.fread stamps r).record r.now)

/-- The body of the loop of `pipe`: the result of `fread`, a `size_t`, is compared
with `-1`. -/
def pipeRound (stamps : ℕ → UInt64) (s : Account) (r : StreamRound) : Option Account :=
  if r.items = -1 then none else some ((s.fread stamps r).record r.now)

/-- What a call of `recv` finds: a number of bytes that have arrived, or an error. -/
inductive Arrival where
  | data (bytes : ℕ)
  | error (errno : ℤ)
  deriving DecidableEq, Repr

/-- How many bytes a `recv` of eight takes. -/
def Arrival.taken : Arrival → ℕ
  | .data bytes => min bytes 8
  | .error _ => 0

/-- The results of calls of `recv`, from the stream at place `p` on. -/
def recvResults (stamps : ℕ → UInt64) : ℕ → List Arrival → List RecvResult
  | _, [] => []
  | p, .data bytes :: rest =>
      .data (handedOver stamps p (min bytes 8)) :: recvResults stamps (p + min bytes 8) rest
  | p, .error errno :: rest => .error errno :: recvResults stamps p rest

/-- A round over a socket: the return value of `send`, `errno` after it, and the
calls of `recv`. -/
structure SocketRound where
  send : ℤ
  errno : ℤ
  recvs : List Arrival
  now : UInt64

/-- The body of the loops of `tcp` and `domain`. Every `recv` writes at the start of
`single_start`; when `receive` returns without an error the last one has filled it. -/
def socketRound (busyWaiting : Bool) (stamps : ℕ → UInt64) (s : Account) (r : SocketRound) :
    Option Account :=
  if r.send = -1 then none
  else
    match receive 8 busyWaiting r.errno (wordBytes s.bench.singleStart)
        (recvResults stamps s.taken r.recvs) with
    | none => none
    | some result =>
        if result.code = -1 then none
        else
          let made := r.recvs.take (r.recvs.length - result.rest.length)
          some ((s.read (made.map Arrival.taken).sum true (ofWordBytes result.buffer)).record
            r.now)

/-- A round of `eventfd-uni`: the return value of `read`, and how many timestamps the server
has written since the last one. Without any the call blocks. -/
structure EventfdRound where
  read : ℤ
  written : ℕ
  written_pos : 1 ≤ written
  now : UInt64

/-- The body of the loop of `eventfd-uni`: the counter adds up what is written. -/
def eventfdUniRound (stamps : ℕ → UInt64) (s : Account) (r : EventfdRound) : Option Account :=
  if r.read = -1 then none
  else
    let value := ((List.range' (s.taken / 8) r.written).map stamps).foldl (· + ·) 0
    some ((s.read (8 * r.written) (r.written = 1) value).record r.now)

/-- `ui_handler` of `uintr-pro`: one timestamp is taken out of the ring. -/
def handlerRun (stamps : ℕ → UInt64) (s : Account) : Account :=
  s.read 8 true (ofWordBytes (handedOver stamps s.taken 8))

/-- A turn of the empty loop of `uintr-pro`, during which `ui_handler` runs so many times;
as the client sets it up it never runs. The handler does not call `benchmark`. -/
def uintrProRound (stamps : ℕ → UInt64) (s : Account) (handlerRuns : ℕ) : Option Account :=
  some ((handlerRun stamps)^[handlerRuns] s)

/-- What a round of each client gets from outside. -/
def Client.Round : Client → Type
  | .shm | .mmap => CopyRound
  | .mq => MqRound
  | .fifo | .pipe => StreamRound
  | .tcp _ | .domain _ => SocketRound
  | .eventfdUni => EventfdRound
  | .uintrPro => ℕ

/-- The body of the measuring loop of each client. -/
def body (stamps : ℕ → UInt64) : (client : Client) → Account → client.Round → Option Account
  | .shm => msgWaitCopy stamps
  | .mmap => msgWaitCopy stamps
  | .mq => mqRound stamps
  | .fifo => fifoMsgWait stamps
  | .pipe => pipeRound stamps
  | .tcp busyWaiting => socketRound busyWaiting stamps
  | .domain busyWaiting => socketRound busyWaiting stamps
  | .eventfdUni => eventfdUniRound stamps
  | .uintrPro => uintrProRound stamps

/-- A client from `setup_benchmarks` to `evaluate`: the timestamps of the server, the readings
of the clock and what each round gets are given. -/
def clientRun (client : Client) (stamps : ℕ → UInt64) (bench : Benchmarks) (now : UInt64)
    (start : Timeval) (inputs : List (Timeval × client.Round)) : LoopResult Account :=
  measuringLoop start (body stamps client) 0 ⟨setupBenchmarks bench now, 0, 0⟩ inputs

end IpcBench.OneWay
