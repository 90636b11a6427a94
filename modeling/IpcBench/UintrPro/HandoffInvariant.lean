import IpcBench.UintrPro.Exchange

/-!
# The invariant of the timestamp exchange

The handler asks for `kfifo_len` bytes into an eight-byte field, so its safety is
a property of the whole exchange: a handler run starts only after a `_senduipi`,
the server then spins, and the fifo holds exactly one timestamp until the handler
publishes `out`. `k` counts the handler runs that have finished and `p` the
timestamps that have been published.
-/

namespace IpcBench.UintrPro

open Lib

/-- The joint positions of server, handler and interrupts, when the handler runs
only after a `_senduipi`. -/
inductive Phase (s : State) (k : ℕ) : ℕ → Prop where
  | stamping (hserver : s.server = .stamp) (hhandler : s.handler = .idle)
      (hpending : s.pending = 0) (hprod : s.ring.producer = .idle)
      (hcons : s.ring.consumer = .idle) (hstamps : s.stamps.length = k) : Phase s k k
  | writing (hserver : s.server = .inCall) (hhandler : s.handler = .idle)
      (hpending : s.pending = 0) (timestamp : UInt64) (done : ℕ)
      (hprod : s.ring.producer = .copying (wordBytes timestamp) 8 done)
      (hcons : s.ring.consumer = .idle) (hstamps : s.stamps.length = k + 1)
      (hlast : s.stamps[k]? = some timestamp) : Phase s k k
  | notifying (hserver : s.server = .notify) (hhandler : s.handler = .idle)
      (hpending : s.pending = 0) (hprod : s.ring.producer = .idle)
      (hcons : s.ring.consumer = .idle) (hstamps : s.stamps.length = k + 1) : Phase s k (k + 1)
  | waiting (hserver : s.server = .spin) (hhandler : s.handler = .idle)
      (hpending : s.pending ≤ 1) (hprod : s.ring.producer = .idle)
      (hcons : s.ring.consumer = .idle) (hstamps : s.stamps.length = k + 1) : Phase s k (k + 1)
  | entering (hserver : s.server = .spin)
      (hhandler : s.handler = .entered ∨ s.handler = .pointed ∨ s.handler = .measured 8)
      (hpending : s.pending = 0) (hprod : s.ring.producer = .idle)
      (hcons : s.ring.consumer = .idle) (hstamps : s.stamps.length = k + 1) : Phase s k (k + 1)
  | reading (hserver : s.server = .spin) (hhandler : s.handler = .outCall)
      (hpending : s.pending = 0) (copied : List UInt8) (hprod : s.ring.producer = .idle)
      (hcons : s.ring.consumer = .copying 8 copied) (hstamps : s.stamps.length = k + 1)
      (hsingle : s.singleStart.take copied.length = copied) : Phase s k (k + 1)
  | emptied (hserver : s.server = .spin) (hhandler : s.handler = .idle)
      (hpending : s.pending = 0) (hprod : s.ring.producer = .idle)
      (hcons : s.ring.consumer = .idle) (hstamps : s.stamps.length = k) : Phase s k k

/-- What holds between any two steps of the exchange. -/
structure Inv (s : State) (k p : ℕ) : Prop where
  ring : Spsc.Inv s.ring (8 * k) (8 * p)
  esize_eq : s.ring.fifo.esize.toNat = 1
  cap_eq : s.ring.fifo.cap = 4096
  accepted_eq : s.ring.accepted = (s.stamps.take p).flatMap wordBytes
  runs_eq : s.runs = (s.stamps.take k).map fun timestamp => (8, wordBytes timestamp)
  single_length : s.singleStart.length = 8
  phase : Phase s k p

/-- `__kfifo_init` accepts the 4096 bytes of the segment. -/
theorem initFifo_ok (cfg : Config) (fifo₀ : Kfifo) :
    (kfifoInit fifo₀ (cfg.server + sizeofKfifo) defaultMessageSize 1).1 = 0 :=
  (kfifoInit_eq_zero_iff _ _ _ _).mpr (by decide)

/-- The fifo of the server: its pointer leads behind the struct in the mapping
of the server, and its 4096 slots hold one byte each. -/
theorem initFifo_spec (cfg : Config) (fifo₀ : Kfifo) :
    (initFifo cfg fifo₀).data = cfg.server + sizeofKfifo ∧
      (initFifo cfg fifo₀).cap = 4096 ∧ (initFifo cfg fifo₀).esize.toNat = 1 := by
  obtain ⟨_, _, hdata, hcap, hesize⟩ := kfifoInit_spec (initFifo_ok cfg fifo₀)
  have hclog : Nat.clog 2 (elementCount defaultMessageSize 1) = 12 :=
    Nat.clog_pow 2 12 (by decide)
  rw [hclog] at hcap
  exact ⟨hdata, hcap, hesize⟩

/-- The exchange starts in the invariant, whatever the data area and the
benchmark record contain. -/
theorem inv_start (cfg : Config) (fifo₀ : Kfifo) {area singleStart : List UInt8}
    (harea : 4096 ≤ area.length) (hsingle : singleStart.length = 8) :
    Inv (start cfg fifo₀ area singleStart) 0 0 := by
  obtain ⟨_, hcap, hesize⟩ := initFifo_spec cfg fifo₀
  have hbytes : (initFifo cfg fifo₀).bytes = 4096 := by rw [Kfifo.bytes, hcap, hesize]
  exact {
    ring := Spsc.inv_start (initFifo_ok cfg fifo₀) (hbytes.trans_lt (by decide))
      (hbytes.trans_le harea)
    esize_eq := hesize
    cap_eq := hcap
    accepted_eq := rfl
    runs_eq := rfl
    single_length := hsingle
    phase := .stamping rfl rfl rfl rfl rfl rfl }

namespace Inv

variable {cfg : Config} {s t : State} {k p : ℕ}

/-- With everything delivered the fifo is empty, otherwise it holds one timestamp. -/
theorem toNat_kfifoLen (h : Inv s k p) : (kfifoLen s.ring.fifo).toNat = 8 * p - 8 * k :=
  h.ring.counts.toNat_len h.ring.sized

/-- An empty fifo has room for a timestamp. -/
theorem clampIn_eight (h : Inv s k k) : clampIn s.ring.fifo 8 = 8 := by
  have hlen := h.ring.counts.toNat_clampIn h.ring.sized 8
  rw [h.cap_eq] at hlen
  apply UInt32.toNat_inj.mp
  rw [hlen]
  change min 8 _ = 8
  omega

/-- The server takes a timestamp and enters `__kfifo_in`; the fifo is empty. -/
theorem stamp {timestamp : UInt64} (h : Inv s k p)
    (hstep : step cfg s (.stamp timestamp) = some t) : Inv t k p := by
  obtain ⟨hserver, ring, hring, rfl⟩ := step_stamp hstep
  cases h.phase with
  | stamping _ hhandler hpending hprod hcons hstamps =>
    have hinv := h.ring.inBegin hring
    obtain ⟨_, _, rfl⟩ := Spsc.step_inBegin hring
    refine ⟨hinv, h.esize_eq, h.cap_eq, ?_, ?_, h.single_length, ?_⟩
    · rw [List.take_append_of_le_length hstamps.ge]
      exact h.accepted_eq
    · rw [List.take_append_of_le_length hstamps.ge]
      exact h.runs_eq
    · refine .writing rfl hhandler hpending timestamp 0 (by rw [h.clampIn_eight]) hcons ?_ ?_
      · rw [List.length_append, hstamps, List.length_singleton]
      · rw [← hstamps, List.getElem?_concat_length]
  | _ => simp_all

/-- One more byte of the timestamp. -/
theorem serverCopy (h : Inv s k p) (hstep : step cfg s .serverCopy = some t) : Inv t k p := by
  obtain ⟨hserver, ring, hring, rfl⟩ := step_serverCopy hstep
  cases h.phase with
  | writing _ hhandler hpending timestamp done hprod hcons hstamps hlast =>
    have hinv := h.ring.inCopy hring
    obtain ⟨_, _, _, _, hprod', _, _, _, rfl⟩ := Spsc.step_inCopy hring
    obtain ⟨rfl, rfl, rfl⟩ := Spsc.Producer.copying.inj (hprod.symm.trans hprod')
    exact ⟨hinv, h.esize_eq, h.cap_eq, h.accepted_eq, h.runs_eq, h.single_length,
      .writing hserver hhandler hpending timestamp _ rfl hcons hstamps hlast⟩
  | _ => simp_all

/-- The timestamp is published. -/
theorem serverPublish (h : Inv s k p) (hstep : step cfg s .serverPublish = some t) :
    Inv t k (p + 1) := by
  obtain ⟨hserver, ring, hring, rfl⟩ := step_serverPublish hstep
  cases h.phase with
  | writing _ hhandler hpending timestamp done hprod hcons hstamps hlast =>
    have hinv := h.ring.inPublish hprod hring
    have hplan := (h.ring.inPlan_spec hprod).1
    obtain ⟨_, _, _, hprod', hdone, rfl⟩ := Spsc.step_inPublish hring
    obtain ⟨rfl, rfl, rfl⟩ := Spsc.Producer.copying.inj (hprod.symm.trans hprod')
    have hall : done = 8 := by
      rw [hdone, hplan, h.esize_eq]
      rfl
    refine ⟨hinv, h.esize_eq, h.cap_eq, ?_, h.runs_eq, h.single_length,
      .notifying rfl hhandler hpending rfl hcons hstamps⟩
    rw [h.accepted_eq, List.take_add_one, hlast, Option.toList_some, List.flatMap_append,
      List.flatMap_singleton, hall, ← length_wordBytes timestamp, List.take_length]
  | _ => simp_all

/-- `_senduipi`. -/
theorem senduipi (h : Inv s k p) (hstep : step cfg s .senduipi = some t) : Inv t k p := by
  obtain ⟨hserver, rfl⟩ := step_senduipi hstep
  cases h.phase with
  | notifying _ hhandler hpending hprod hcons hstamps =>
    exact { h with phase := .waiting rfl hhandler (by simp [hpending]) hprod hcons hstamps }
  | _ => simp_all

/-- The server leaves its spin loop only after the handler has emptied the fifo. -/
theorem spin (h : Inv s k p) (hstep : step cfg s .spin = some t) : Inv t k p := by
  obtain ⟨hserver, ⟨hempty, rfl⟩ | ⟨_, rfl⟩⟩ := step_spin hstep
  · have hlen := h.toNat_kfifoLen
    rw [hempty, UInt32.toNat_zero] at hlen
    cases h.phase with
    | emptied _ hhandler hpending hprod hcons hstamps =>
      exact { h with phase := .stamping rfl hhandler hpending hprod hcons hstamps }
    | stamping hserver' | writing hserver' => simp [hserver] at hserver'
    | _ => omega
  · exact h

/-- An interrupt that is never delivered leaves the server spinning. -/
theorem loseInterrupt (h : Inv s k p) (hstep : step cfg s .loseInterrupt = some t) :
    Inv t k p := by
  obtain ⟨hpos, rfl⟩ := step_loseInterrupt hstep
  cases h.phase with
  | waiting hserver hhandler hpending hprod hcons hstamps =>
    exact { h with phase := .waiting hserver hhandler (by simp; omega) hprod hcons hstamps }
  | _ => omega

/-- A handler run starts: the server has sent the interrupt and spins. -/
theorem deliver (h : Inv s k p) (hpos : 0 < s.pending)
    (hstep : step cfg s .deliver = some t) : Inv t k p := by
  obtain ⟨_, rfl⟩ := step_deliver hstep
  cases h.phase with
  | waiting hserver hhandler hpending hprod hcons hstamps =>
    exact { h with
      phase := .entering hserver (Or.inl rfl) (by simp; omega) hprod hcons hstamps }
  | _ => omega

/-- The store to `fifo->data` moves no byte and no counter. -/
theorem setData {ring : Spsc.State} {o i : ℕ} (h : Spsc.Inv ring o i) (data : UInt64) :
    Spsc.Inv (UintrPro.setData ring data) o i :=
  ⟨⟨h.sized.cap_pow, h.sized.esize_pos, h.sized.bytes_lt⟩, h.area_ge,
    ⟨h.counts.out_eq, h.counts.in_eq, h.counts.le, h.counts.room⟩, h.accepted_length,
    h.returned_eq, h.stores, h.producing, h.consuming⟩

/-- The handler rewrites the pointer. -/
theorem storeData (h : Inv s k p) (hstep : step cfg s .storeData = some t) : Inv t k p := by
  obtain ⟨hhandler, rfl⟩ := step_storeData hstep
  cases h.phase with
  | entering hserver _ hpending hprod hcons hstamps =>
    exact ⟨setData h.ring _, h.esize_eq, h.cap_eq, h.accepted_eq, h.runs_eq, h.single_length,
      .entering hserver (Or.inr (Or.inl rfl)) hpending hprod hcons hstamps⟩
  | _ => simp_all

/-- The handler evaluates `kfifo_len`. -/
theorem measure (h : Inv s k p) (hstep : step cfg s .measure = some t) : Inv t k p := by
  obtain ⟨hhandler, rfl⟩ := step_measure hstep
  cases h.phase with
  | entering hserver _ hpending hprod hcons hstamps =>
    have hlen : kfifoLen s.ring.fifo = 8 := by
      apply UInt32.toNat_inj.mp
      rw [h.toNat_kfifoLen]
      change _ = 8
      omega
    exact { h with
      phase := .entering hserver (Or.inr (Or.inr (by rw [hlen]))) hpending hprod hcons hstamps }
  | _ => simp_all

/-- The handler enters `__kfifo_out`: the second look at the length agrees with
the first. -/
theorem handlerBegin (h : Inv s k p) (hstep : step cfg s .handlerBegin = some t) :
    Inv t k p := by
  obtain ⟨len, ring, hmeasured, hring, rfl⟩ := step_handlerBegin hstep
  cases h.phase with
  | entering hserver hhandler hpending hprod hcons hstamps =>
    obtain rfl : len = 8 := by simpa [hmeasured] using hhandler
    have hinv := h.ring.outBegin hring
    obtain ⟨_, rfl⟩ := Spsc.step_outBegin hring
    have hclamp : clampOut s.ring.fifo 8 = 8 := by
      apply UInt32.toNat_inj.mp
      rw [h.ring.counts.toNat_clampOut h.ring.sized 8]
      change min 8 _ = 8
      omega
    exact ⟨hinv, h.esize_eq, h.cap_eq, h.accepted_eq, h.runs_eq, h.single_length,
      .reading hserver rfl hpending [] hprod (by rw [hclamp]) hstamps rfl⟩
  | _ => simp_all

/-- One more byte arrives in `bench.single_start`, inside its eight bytes. -/
theorem handlerCopy (h : Inv s k p) (hstep : step cfg s .handlerCopy = some t) : Inv t k p := by
  obtain ⟨hhandler, ring, hring, rfl⟩ := step_handlerCopy hstep
  cases h.phase with
  | reading hserver _ hpending copied hprod hcons hstamps hsingle =>
    have hinv := h.ring.outCopy hring
    have hplan := (h.ring.outPlan_spec hcons).1
    obtain ⟨_, _, b, hcons', hmore, _, rfl⟩ := Spsc.step_outCopy hring
    obtain ⟨rfl, rfl⟩ := Spsc.Consumer.copying.inj (hcons.symm.trans hcons')
    have hroom : copied.length < 8 := by
      rw [hplan, h.esize_eq] at hmore
      exact hmore
    have hsize := h.single_length
    refine ⟨hinv, h.esize_eq, h.cap_eq, h.accepted_eq, h.runs_eq, ?_,
      .reading hserver hhandler hpending _ hprod rfl hstamps ?_⟩
    · simp only [copiedBytes, fillBuffer, List.length_append, List.length_singleton,
        List.length_drop]
      omega
    · simp only [copiedBytes, fillBuffer]
      exact List.take_left
  | _ => simp_all

/-- The handler gives up the bytes; what it left in `bench.single_start` is the
timestamp that was in the fifo. -/
theorem handlerPublish (h : Inv s k p) (hstep : step cfg s .handlerPublish = some t) :
    Inv t (k + 1) p := by
  obtain ⟨hhandler, ring, hring, rfl⟩ := step_handlerPublish hstep
  cases h.phase with
  | reading hserver _ hpending copied hprod hcons hstamps hsingle =>
    have hinv := h.ring.outPublish hcons hring
    have hplan := (h.ring.outPlan_spec hcons).1
    obtain ⟨_, _, hbytes⟩ := h.ring.consuming _ _ hcons
    obtain ⟨_, _, hcons', hdone, rfl⟩ := Spsc.step_outPublish hring
    obtain ⟨rfl, rfl⟩ := Spsc.Consumer.copying.inj (hcons.symm.trans hcons')
    have hall : copied.length = 8 := by
      rw [hdone, hplan, h.esize_eq]
      rfl
    have hsame : s.singleStart = copied := by
      rw [← hsingle, hall, ← h.single_length, List.take_length]
    have hlast : s.stamps[k]? = some (s.stamps[k]) := List.getElem?_eq_getElem (by omega)
    have hvalue : copied = wordBytes s.stamps[k] := by
      rw [hall, h.esize_eq, Nat.mul_one, h.accepted_eq, ← hstamps, List.take_length,
        take_drop_flatMap_wordBytes hlast] at hbytes
      exact hbytes
    refine ⟨hinv, h.esize_eq, h.cap_eq, h.accepted_eq, ?_, h.single_length,
      .emptied hserver rfl hpending hprod rfl hstamps⟩
    rw [h.runs_eq, List.take_add_one, hlast, Option.toList_some, List.map_append,
      List.map_singleton, hcons, copiedBytes, hall, hsame, hvalue]
  | _ => simp_all

/-- Every step keeps the invariant. -/
theorem step {a : Action} (h : Inv s k p) (hcause : cfg.spurious = false)
    (hstep : UintrPro.step cfg s a = some t) : ∃ k' p', Inv t k' p' := by
  cases a with
  | stamp timestamp => exact ⟨k, p, h.stamp hstep⟩
  | serverCopy => exact ⟨k, p, h.serverCopy hstep⟩
  | serverPublish => exact ⟨k, p + 1, h.serverPublish hstep⟩
  | senduipi => exact ⟨k, p, h.senduipi hstep⟩
  | spin => exact ⟨k, p, h.spin hstep⟩
  | loseInterrupt => exact ⟨k, p, h.loseInterrupt hstep⟩
  | deliver =>
    have hpos : 0 < s.pending := by simpa [hcause] using (step_deliver hstep).1.2
    exact ⟨k, p, h.deliver hpos hstep⟩
  | storeData => exact ⟨k, p, h.storeData hstep⟩
  | measure => exact ⟨k, p, h.measure hstep⟩
  | handlerBegin => exact ⟨k, p, h.handlerBegin hstep⟩
  | handlerCopy => exact ⟨k, p, h.handlerCopy hstep⟩
  | handlerPublish => exact ⟨k + 1, p, h.handlerPublish hstep⟩

end Inv

end IpcBench.UintrPro
