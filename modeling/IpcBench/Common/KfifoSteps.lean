import IpcBench.Lib.Runs
import IpcBench.Common.KfifoRefinement

/-!
# One producer and one consumer without a lock

A producer calls `__kfifo_in` and a consumer calls `__kfifo_out` on one shared
fifo. Each call is cut into the steps another process can observe: the read of
the counters with the clamped length, the copy of one byte after the other, and
the store that publishes the own counter. The barriers of the header keep this
order; between any two steps the other side may run. `accepted` and `returned`
record what the callers were told.
-/

namespace IpcBench

open Lib

namespace Spsc

/-- The producer outside a call, or inside `__kfifo_in` with the clamped `len`
and the number of bytes already copied. -/
inductive Producer where
  | idle
  | copying (buf : List UInt8) (len : UInt32) (done : ℕ)
  deriving DecidableEq, Repr

/-- The consumer outside a call, or inside `__kfifo_out` with the clamped `len`
and the bytes already copied to its buffer. -/
inductive Consumer where
  | idle
  | copying (len : UInt32) (copied : List UInt8)
  deriving DecidableEq, Repr

/-- The shared fifo, where the two sides stand, and what was handed over so far. -/
structure State where
  fifo : Kfifo
  area : List UInt8
  producer : Producer
  consumer : Consumer
  accepted : List UInt8
  returned : List UInt8
  deriving DecidableEq, Repr

/-- The steps of the two sides. -/
inductive Action where
  | inBegin (buf : List UInt8) (len : UInt32)
  | inCopy
  | inPublish
  | outBegin (len : UInt32)
  | outCopy
  | outPublish
  deriving DecidableEq, Repr

/-- Both sides outside a call and nothing handed over yet. -/
def start (fifo : Kfifo) (area : List UInt8) : State := ⟨fifo, area, .idle, .idle, [], []⟩

/-- The copy of the producer's call in progress. -/
def inPlan (s : State) (len : UInt32) : CopyPlan := copyPlan s.fifo len s.fifo.inIndex

/-- The copy of the consumer's call in progress. -/
def outPlan (s : State) (len : UInt32) : CopyPlan := copyPlan s.fifo len s.fifo.outIndex

/-- One step. A caller may announce more elements than it has, as long as it has those that
there is room for. A copy step outside the data area is not possible, so an overrun would
leave the call stuck. -/
def step (s : State) : Action → Option State
  | .inBegin buf len =>
      match s.producer with
      | .idle =>
          if (clampIn s.fifo len).toNat * s.fifo.esize.toNat ≤ buf.length then
            some { s with producer := .copying buf (clampIn s.fifo len) 0 }
          else none
      | .copying _ _ _ => none
  | .inCopy =>
      match s.producer with
      | .idle => none
      | .copying buf len done =>
          if done < (inPlan s len).len.toNat ∧ (inPlan s len).cell done < s.area.length then
            buf[done]?.map fun b =>
              { s with
                area := s.area.set ((inPlan s len).cell done) b
                producer := .copying buf len (done + 1) }
          else none
  | .inPublish =>
      match s.producer with
      | .idle => none
      | .copying buf len done =>
          if done = (inPlan s len).len.toNat then
            some { s with
              fifo := { s.fifo with inIndex := s.fifo.inIndex + len }
              producer := .idle
              accepted := s.accepted ++ buf.take done }
          else none
  | .outBegin len =>
      match s.consumer with
      | .idle => some { s with consumer := .copying (clampOut s.fifo len) [] }
      | .copying _ _ => none
  | .outCopy =>
      match s.consumer with
      | .idle => none
      | .copying len copied =>
          if copied.length < (outPlan s len).len.toNat then
            s.area[(outPlan s len).cell copied.length]?.map fun b =>
              { s with consumer := .copying len (copied ++ [b]) }
          else none
  | .outPublish =>
      match s.consumer with
      | .idle => none
      | .copying len copied =>
          if copied.length = (outPlan s len).len.toNat then
            some { s with
              fifo := { s.fifo with outIndex := s.fifo.outIndex + len }
              consumer := .idle
              returned := s.returned ++ copied }
          else none

/-- What `inBegin` does. -/
theorem step_inBegin {s t : State} {buf : List UInt8} {len : UInt32}
    (h : step s (.inBegin buf len) = some t) :
    s.producer = .idle ∧ (clampIn s.fifo len).toNat * s.fifo.esize.toNat ≤ buf.length ∧
      t = { s with producer := .copying buf (clampIn s.fifo len) 0 } := by
  cases hprod : s.producer with
  | copying buf len done => simp [step, hprod] at h
  | idle =>
    by_cases hbuf : (clampIn s.fifo len).toNat * s.fifo.esize.toNat ≤ buf.length
    · exact ⟨rfl, hbuf, by simpa [step, hprod, hbuf, eq_comm] using h⟩
    · simp [step, hprod, hbuf] at h

/-- What `inCopy` does. -/
theorem step_inCopy {s t : State} (h : step s .inCopy = some t) :
    ∃ buf len done b, s.producer = .copying buf len done ∧ buf[done]? = some b ∧
      done < (inPlan s len).len.toNat ∧ (inPlan s len).cell done < s.area.length ∧
      t = { s with area := s.area.set ((inPlan s len).cell done) b,
                   producer := .copying buf len (done + 1) } := by
  cases hprod : s.producer with
  | idle => simp [step, hprod] at h
  | copying buf len done =>
    by_cases hguard : done < (inPlan s len).len.toNat ∧ (inPlan s len).cell done < s.area.length
    · simp only [step, hprod, if_pos hguard, Option.map_eq_some_iff] at h
      obtain ⟨b, hb, ht⟩ := h
      exact ⟨buf, len, done, b, rfl, hb, hguard.1, hguard.2, ht.symm⟩
    · simp only [step, hprod, if_neg hguard, reduceCtorEq] at h

/-- What `inPublish` does. -/
theorem step_inPublish {s t : State} (h : step s .inPublish = some t) :
    ∃ buf len done, s.producer = .copying buf len done ∧ done = (inPlan s len).len.toNat ∧
      t = { s with fifo := { s.fifo with inIndex := s.fifo.inIndex + len },
                   producer := .idle, accepted := s.accepted ++ buf.take done } := by
  cases hprod : s.producer with
  | idle => simp [step, hprod] at h
  | copying buf len done =>
    by_cases hguard : done = (inPlan s len).len.toNat
    · simp only [step, hprod, if_pos hguard, Option.some.injEq] at h
      exact ⟨buf, len, done, rfl, hguard, h.symm⟩
    · simp only [step, hprod, if_neg hguard, reduceCtorEq] at h

/-- What `outBegin` does. -/
theorem step_outBegin {s t : State} {len : UInt32} (h : step s (.outBegin len) = some t) :
    s.consumer = .idle ∧ t = { s with consumer := .copying (clampOut s.fifo len) [] } := by
  cases hcons : s.consumer with
  | copying len copied => simp [step, hcons] at h
  | idle => exact ⟨rfl, by simpa [step, hcons, eq_comm] using h⟩

/-- What `outCopy` does. -/
theorem step_outCopy {s t : State} (h : step s .outCopy = some t) :
    ∃ len copied b, s.consumer = .copying len copied ∧
      copied.length < (outPlan s len).len.toNat ∧
      s.area[(outPlan s len).cell copied.length]? = some b ∧
      t = { s with consumer := .copying len (copied ++ [b]) } := by
  cases hcons : s.consumer with
  | idle => simp [step, hcons] at h
  | copying len copied =>
    by_cases hguard : copied.length < (outPlan s len).len.toNat
    · simp only [step, hcons, if_pos hguard, Option.map_eq_some_iff] at h
      obtain ⟨b, hb, ht⟩ := h
      exact ⟨len, copied, b, rfl, hguard, hb, ht.symm⟩
    · simp only [step, hcons, if_neg hguard, reduceCtorEq] at h

/-- What `outPublish` does. -/
theorem step_outPublish {s t : State} (h : step s .outPublish = some t) :
    ∃ len copied, s.consumer = .copying len copied ∧
      copied.length = (outPlan s len).len.toNat ∧
      t = { s with fifo := { s.fifo with outIndex := s.fifo.outIndex + len },
                   consumer := .idle, returned := s.returned ++ copied } := by
  cases hcons : s.consumer with
  | idle => simp [step, hcons] at h
  | copying len copied =>
    by_cases hguard : copied.length = (outPlan s len).len.toNat
    · simp only [step, hcons, if_pos hguard, Option.some.injEq] at h
      exact ⟨len, copied, rfl, hguard, h.symm⟩
    · simp only [step, hcons, if_neg hguard, reduceCtorEq] at h

/-- The cell the producer's next step writes, if that step is a copy. -/
def nextWrite (s : State) : Option ℕ :=
  match s.producer with
  | .idle => none
  | .copying _ len done =>
      if done < (inPlan s len).len.toNat then some ((inPlan s len).cell done) else none

/-- The cells the consumer's call in progress has still to copy. -/
def toCopy (s : State) : List ℕ :=
  match s.consumer with
  | .idle => []
  | .copying len copied =>
      (List.range' copied.length ((outPlan s len).len.toNat - copied.length)).map
        (outPlan s len).cell

/-- The bytes copied by the producer's call in progress. -/
def Producer.pending : Producer → List UInt8
  | .idle => []
  | .copying buf _ done => buf.take done

/-- What holds between any two steps: `o` elements have been given up and `i`
published. The data area stores everything between them and the producer's
half-finished copy; each call in progress works inside the window it saw, which
the other side can only have enlarged since. -/
structure Inv (s : State) (o i : ℕ) : Prop where
  sized : s.fifo.WellSized
  area_ge : s.fifo.bytes ≤ s.area.length
  counts : s.fifo.Counts o i
  accepted_length : s.accepted.length = i * s.fifo.esize.toNat
  returned_eq : s.returned = s.accepted.take (o * s.fifo.esize.toNat)
  stores : Stores s.fifo.bytes s.area (s.accepted ++ s.producer.pending)
    (o * s.fifo.esize.toNat) (i * s.fifo.esize.toNat + s.producer.pending.length)
  producing : ∀ buf len done, s.producer = .copying buf len done →
    len.toNat * s.fifo.esize.toNat ≤ buf.length ∧ done ≤ len.toNat * s.fifo.esize.toNat ∧
      i + len.toNat ≤ o + s.fifo.cap
  consuming : ∀ len copied, s.consumer = .copying len copied →
    o + len.toNat ≤ i ∧ copied.length ≤ len.toNat * s.fifo.esize.toNat ∧
      copied = (s.accepted.drop (o * s.fifo.esize.toNat)).take copied.length

/-- A freshly initialised fifo satisfies the invariant, whatever its data area
contains. -/
theorem inv_start {fifo₀ : Kfifo} {buffer : UInt64} {size : UInt32} {esize : UInt64}
    (hok : (kfifoInit fifo₀ buffer size esize).1 = 0)
    (hbytes : (kfifoInit fifo₀ buffer size esize).2.bytes < 2 ^ 32) {area : List UInt8}
    (harea : (kfifoInit fifo₀ buffer size esize).2.bytes ≤ area.length) :
    Inv (start (kfifoInit fifo₀ buffer size esize).2 area) 0 0 where
  sized := kfifoInit_wellSized hok hbytes
  area_ge := harea
  counts := kfifoInit_counts hok
  accepted_length := by simp [start]
  returned_eq := by simp [start]
  stores := by
    simp only [start, Producer.pending, List.length_nil, Nat.add_zero]
    exact Stores.empty _ _ _ _
  producing := by simp [start]
  consuming := by simp [start]

namespace Inv

variable {s t : State} {o i : ℕ}

/-- The producer's copy moves `len * esize` bytes, byte `done` of them into the
cell of the next stream position. -/
theorem inPlan_spec (h : Inv s o i) {buf : List UInt8} {len : UInt32} {done : ℕ}
    (hprod : s.producer = .copying buf len done) :
    (inPlan s len).len.toNat = len.toNat * s.fifo.esize.toNat ∧
      ∀ j, j < len.toNat * s.fifo.esize.toNat →
        (inPlan s len).cell j = (i * s.fifo.esize.toNat + j) % s.fifo.bytes := by
  have hle := h.counts.le
  have hlen : len.toNat ≤ s.fifo.cap := by have := (h.producing _ _ _ hprod).2.2; omega
  unfold inPlan
  rw [h.counts.in_eq]
  exact ⟨(copyPlan_spec h.sized hlen i).2.1, fun j hj => copyPlan_cell h.sized hlen i hj⟩

/-- The consumer's copy moves `len * esize` bytes, byte `j` of them from the cell
of the stream position it has reached. -/
theorem outPlan_spec (h : Inv s o i) {len : UInt32} {copied : List UInt8}
    (hcons : s.consumer = .copying len copied) :
    (outPlan s len).len.toNat = len.toNat * s.fifo.esize.toNat ∧
      ∀ j, j < len.toNat * s.fifo.esize.toNat →
        (outPlan s len).cell j = (o * s.fifo.esize.toNat + j) % s.fifo.bytes := by
  have hroom := h.counts.room
  have hlen : len.toNat ≤ s.fifo.cap := by have := (h.consuming _ _ hcons).1; omega
  unfold outPlan
  rw [h.counts.out_eq]
  exact ⟨(copyPlan_spec h.sized hlen o).2.1, fun j hj => copyPlan_cell h.sized hlen o hj⟩

/-- Entering `__kfifo_in`: the snapshot leaves room for the clamped length. -/
theorem inBegin {buf : List UInt8} {len : UInt32} (h : Inv s o i)
    (hstep : step s (.inBegin buf len) = some t) : Inv t o i := by
  obtain ⟨hidle, hbuf, rfl⟩ := step_inBegin hstep
  have hclamp := h.counts.toNat_clampIn h.sized len
  have hle := h.counts.le
  have hroom := h.counts.room
  have hstores := h.stores
  rw [hidle] at hstores
  refine { h with stores := ?_, producing := ?_ }
  · simpa [Producer.pending] using hstores
  · intro buf' len' done' hcopying
    obtain ⟨rfl, rfl, rfl⟩ := Producer.copying.inj hcopying
    have hfits : i + (clampIn s.fifo len).toNat ≤ o + s.fifo.cap := by omega
    exact ⟨hbuf, Nat.zero_le _, hfits⟩

/-- One more byte into the data area: it goes to a cell outside the stored window. -/
theorem inCopy (h : Inv s o i) (hstep : step s .inCopy = some t) : Inv t o i := by
  obtain ⟨buf, len, done, b, hprod, hb, hdone, hcell, rfl⟩ := step_inCopy hstep
  obtain ⟨hbuf, hle, hroom⟩ := h.producing _ _ _ hprod
  obtain ⟨hplan, hcells⟩ := h.inPlan_spec hprod
  have hstores := h.stores
  rw [hprod, Producer.pending] at hstores
  have hlength : (buf.take done).length = done := by rw [List.length_take]; omega
  have hnext : buf.take (done + 1) = buf.take done ++ [b] := by
    rw [List.take_add_one, hb, Option.toList_some]
  have hwindow : i * s.fifo.esize.toNat + len.toNat * s.fifo.esize.toNat ≤
      o * s.fifo.esize.toNat + s.fifo.bytes := by
    rw [Kfifo.bytes, ← Nat.add_mul, ← Nat.add_mul]
    exact Nat.mul_le_mul_right _ hroom
  refine { h with area_ge := ?_, stores := ?_, producing := ?_ }
  · simpa using h.area_ge
  · simp only [Producer.pending, hnext, ← List.append_assoc]
    rw [hcells done (by omega), List.length_append, List.length_singleton, ← Nat.add_assoc]
    rw [hlength] at hstores ⊢
    have hend : (s.accepted ++ buf.take done).length = i * s.fifo.esize.toNat + done := by
      rw [List.length_append, h.accepted_length, hlength]
    apply (hstores.append hend.ge [b]).set (by omega) h.sized.bytes_pos h.area_ge
    rw [← hend, List.getElem?_concat_length]
  · intro buf' len' done' hcopying
    obtain ⟨rfl, rfl, rfl⟩ := Producer.copying.inj hcopying
    have hmore : done + 1 ≤ len.toNat * s.fifo.esize.toNat := by omega
    exact ⟨hbuf, hmore, hroom⟩

/-- Publishing: what was pending is now accepted. -/
theorem inPublish {buf : List UInt8} {len : UInt32} {done : ℕ} (h : Inv s o i)
    (hprod : s.producer = .copying buf len done) (hstep : step s .inPublish = some t) :
    Inv t o (i + len.toNat) := by
  obtain ⟨_, _, _, hprod', hdone, rfl⟩ := step_inPublish hstep
  obtain ⟨rfl, rfl, rfl⟩ := Producer.copying.inj (hprod.symm.trans hprod')
  obtain ⟨hbuf, _, hroom⟩ := h.producing _ _ _ hprod
  obtain ⟨hplan, _⟩ := h.inPlan_spec hprod
  have hstores := h.stores
  rw [hprod, Producer.pending] at hstores
  have hlength : (buf.take done).length = done := by rw [List.length_take]; omega
  have hbytes : i * s.fifo.esize.toNat + done = (i + len.toNat) * s.fifo.esize.toNat := by
    rw [Nat.add_mul]
    omega
  have hout : o * s.fifo.esize.toNat ≤ i * s.fifo.esize.toNat :=
    Nat.mul_le_mul_right _ h.counts.le
  have haccepted := h.accepted_length
  refine ⟨⟨h.sized.cap_pow, h.sized.esize_pos, h.sized.bytes_lt⟩, h.area_ge,
    h.counts.publishIn hroom, ?_, ?_, ?_, by simp, ?_⟩
  · rw [List.length_append, haccepted, hlength, hbytes]
  · rw [h.returned_eq]
    exact (List.take_append_of_le_length (by omega)).symm
  · rw [hlength, hbytes] at hstores
    simp only [Producer.pending, List.append_nil, List.length_nil, Nat.add_zero]
    exact hstores
  · intro len' copied hcons
    obtain ⟨hwin, hcopied, heq⟩ := h.consuming _ _ hcons
    have hmul : (o + len'.toNat) * s.fifo.esize.toNat ≤ i * s.fifo.esize.toNat :=
      Nat.mul_le_mul_right _ hwin
    rw [Nat.add_mul] at hmul
    refine ⟨by omega, hcopied, ?_⟩
    change copied = ((s.accepted ++ buf.take done).drop (o * s.fifo.esize.toNat)).take copied.length
    rw [List.drop_append_of_le_length (by omega),
      List.take_append_of_le_length (by rw [List.length_drop]; omega)]
    exact heq

/-- Entering `__kfifo_out`: the snapshot holds the clamped length. -/
theorem outBegin {len : UInt32} (h : Inv s o i) (hstep : step s (.outBegin len) = some t) :
    Inv t o i := by
  obtain ⟨_, rfl⟩ := step_outBegin hstep
  have hclamp := h.counts.toNat_clampOut h.sized len
  have hle := h.counts.le
  refine { h with consuming := ?_ }
  intro len' copied hcopying
  obtain ⟨rfl, rfl⟩ := Consumer.copying.inj hcopying
  exact ⟨by omega, by simp, by simp⟩

/-- One more byte out of the data area: the stored window shows which one. -/
theorem outCopy (h : Inv s o i) (hstep : step s .outCopy = some t) : Inv t o i := by
  obtain ⟨len, copied, b, hcons, hmore, hb, rfl⟩ := step_outCopy hstep
  obtain ⟨hwin, hle, heq⟩ := h.consuming _ _ hcons
  obtain ⟨hplan, hcells⟩ := h.outPlan_spec hcons
  have hmul : (o + len.toNat) * s.fifo.esize.toNat ≤ i * s.fifo.esize.toNat :=
    Nat.mul_le_mul_right _ hwin
  rw [Nat.add_mul] at hmul
  have haccepted := h.accepted_length
  rw [hcells _ (by omega), h.stores _ (by omega) (by omega),
    List.getElem?_append_left (by omega)] at hb
  refine { h with consuming := ?_ }
  intro len' copied' hcopying
  obtain ⟨rfl, rfl⟩ := Consumer.copying.inj hcopying
  refine ⟨hwin, by simp only [List.length_append, List.length_singleton]; omega, ?_⟩
  rw [List.length_append, List.length_singleton, List.take_add_one, List.getElem?_drop, hb,
    Option.toList_some, ← heq]

/-- Giving up the copied elements: they are the next part of the stream. -/
theorem outPublish {len : UInt32} {copied : List UInt8} (h : Inv s o i)
    (hcons : s.consumer = .copying len copied) (hstep : step s .outPublish = some t) :
    Inv t (o + len.toNat) i := by
  obtain ⟨_, _, hcons', hdone, rfl⟩ := step_outPublish hstep
  obtain ⟨rfl, rfl⟩ := Consumer.copying.inj (hcons.symm.trans hcons')
  obtain ⟨hwin, _, heq⟩ := h.consuming _ _ hcons
  obtain ⟨hplan, _⟩ := h.outPlan_spec hcons
  refine ⟨⟨h.sized.cap_pow, h.sized.esize_pos, h.sized.bytes_lt⟩, h.area_ge,
    h.counts.publishOut hwin, h.accepted_length, ?_, ?_, ?_, by simp⟩
  · change s.returned ++ copied = s.accepted.take ((o + len.toNat) * s.fifo.esize.toNat)
    rw [Nat.add_mul, List.take_add, ← h.returned_eq, ← hplan, ← hdone, ← heq]
  · exact h.stores.mono (Nat.mul_le_mul_right _ (by omega)) le_rfl
  · intro buf len' done hprod
    obtain ⟨hbuf, hle, hroom⟩ := h.producing _ _ _ hprod
    refine ⟨hbuf, hle, ?_⟩
    change i + len'.toNat ≤ o + len.toNat + s.fifo.cap
    omega

/-- Every step of either side keeps the invariant. -/
theorem step {a : Action} (h : Inv s o i) (hstep : Spsc.step s a = some t) :
    ∃ o' i', Inv t o' i' := by
  cases a with
  | inBegin buf len => exact ⟨o, i, h.inBegin hstep⟩
  | inCopy => exact ⟨o, i, h.inCopy hstep⟩
  | inPublish =>
    obtain ⟨_, _, _, hprod, _, _⟩ := step_inPublish hstep
    exact ⟨o, _, h.inPublish hprod hstep⟩
  | outBegin len => exact ⟨o, i, h.outBegin hstep⟩
  | outCopy => exact ⟨o, i, h.outCopy hstep⟩
  | outPublish =>
    obtain ⟨_, _, hcons, _, _⟩ := step_outPublish hstep
    exact ⟨_, i, h.outPublish hcons hstep⟩

end Inv

end Spsc

end IpcBench
