import IpcBench.Common.KfifoCopy

/-!
# The kfifo is a bounded queue

The functions of the header, called one after the other in any order, behave as
the bounded queue of `Lib.BoundedFifo` whose elements are `esize` bytes wide. The
representation keeps the whole stream of bytes ever put in as a ghost: the data
area stores the part between the two counters, and the abstract queue is that
part cut into elements.
-/

namespace IpcBench

open Lib

/-- A fifo together with the data area its `data` pointer leads to. -/
structure KfifoState where
  fifo : Kfifo
  area : List UInt8
  deriving DecidableEq, Repr

/-- One call of the interface with the caller's buffer and its `len`. -/
inductive KfifoCall where
  | kfifoIn (buf : List UInt8) (len : UInt32)
  | kfifoOutPeek (buf : List UInt8) (len : UInt32)
  | kfifoOut (buf : List UInt8) (len : UInt32)
  deriving DecidableEq, Repr

/-- What a caller sees: the return value and its buffer after the call. -/
structure CallResult where
  ret : ℕ
  buf : List UInt8
  deriving DecidableEq, Repr

/-- The caller's buffer has room for the `len` elements it announces. -/
def KfifoCall.Fits (esize : ℕ) : KfifoCall → Prop
  | .kfifoIn buf len | .kfifoOutPeek buf len | .kfifoOut buf len =>
      len.toNat * esize ≤ buf.length

instance (esize : ℕ) : (c : KfifoCall) → Decidable (c.Fits esize)
  | .kfifoIn _ _ | .kfifoOutPeek _ _ | .kfifoOut _ _ => inferInstanceAs (Decidable (_ ≤ _))

/-- One call of the header's functions. -/
def KfifoState.call (st : KfifoState) : KfifoCall → Option (KfifoState × CallResult)
  | .kfifoIn buf len =>
      (kfifoIn st.fifo st.area buf len).map fun (n, fifo, area) => (⟨fifo, area⟩, ⟨n.toNat, buf⟩)
  | .kfifoOutPeek buf len =>
      (kfifoOutPeek st.fifo st.area buf len).map fun (n, buf) => (st, ⟨n.toNat, buf⟩)
  | .kfifoOut buf len =>
      (kfifoOut st.fifo st.area buf len).map fun (n, fifo, buf) =>
        (⟨fifo, st.area⟩, ⟨n.toNat, buf⟩)

/-- A sequence of calls with the results the callers saw. -/
def KfifoState.calls : KfifoState → List KfifoCall → Option (KfifoState × List CallResult)
  | st, [] => some (st, [])
  | st, c :: cs => do
      let (st, r) ← st.call c
      let (st, rs) ← st.calls cs
      pure (st, r :: rs)

/-- A caller's buffer after `front` has been copied to its beginning. -/
def fillBuffer (front buf : List UInt8) : List UInt8 := front ++ buf.drop front.length

/-- The same call on the abstract queue of `esize`-byte elements. -/
def specCall {cap : ℕ} (esize : ℕ) (q : BoundedFifo (List UInt8) cap) :
    KfifoCall → BoundedFifo (List UInt8) cap × CallResult
  | .kfifoIn buf len =>
      let xs := chunks esize len.toNat buf
      (q.put xs, ⟨q.room xs, buf⟩)
  | .kfifoOutPeek buf len =>
      let xs := q.peek len.toNat
      (q, ⟨xs.length, fillBuffer xs.flatten buf⟩)
  | .kfifoOut buf len =>
      let xs := q.peek len.toNat
      (q.drop len.toNat, ⟨xs.length, fillBuffer xs.flatten buf⟩)

/-- A sequence of calls on the abstract queue. -/
def specCalls {cap : ℕ} (esize : ℕ) :
    BoundedFifo (List UInt8) cap → List KfifoCall → BoundedFifo (List UInt8) cap × List CallResult
  | q, [] => (q, [])
  | q, c :: cs =>
      let (q, r) := specCall esize q c
      let (q, rs) := specCalls esize q cs
      (q, r :: rs)

/-- The caller's buffer has room for the elements that the call will copy, however many it
announces. -/
def KfifoCall.Holds {cap : ℕ} (esize : ℕ) (q : BoundedFifo (List UInt8) cap) : KfifoCall → Prop
  | .kfifoIn buf len => min len.toNat (cap - q.items.length) * esize ≤ buf.length
  | .kfifoOutPeek buf len | .kfifoOut buf len =>
      min len.toNat q.items.length * esize ≤ buf.length

instance {cap : ℕ} (esize : ℕ) (q : BoundedFifo (List UInt8) cap) :
    (c : KfifoCall) → Decidable (c.Holds esize q)
  | .kfifoIn _ _ | .kfifoOutPeek _ _ | .kfifoOut _ _ => inferInstanceAs (Decidable (_ ≤ _))

/-- Every call of the sequence finds a buffer that holds what it copies. -/
def HoldAlong {cap : ℕ} (esize : ℕ) : BoundedFifo (List UInt8) cap → List KfifoCall → Prop
  | _, [] => True
  | q, c :: cs => c.Holds esize q ∧ HoldAlong esize (specCall esize q c).1 cs

/-- Whether every buffer is long enough can be computed along the calls. -/
instance decidableHoldAlong {cap : ℕ} (esize : ℕ) (q : BoundedFifo (List UInt8) cap) :
    (cs : List KfifoCall) → Decidable (HoldAlong esize q cs)
  | [] => .isTrue trivial
  | c :: cs =>
      have := decidableHoldAlong esize (specCall esize q c).1 cs
      inferInstanceAs (Decidable (_ ∧ _))

theorem KfifoCall.Fits.holds {cap esize : ℕ} {c : KfifoCall} (h : c.Fits esize)
    (q : BoundedFifo (List UInt8) cap) : c.Holds esize q := by
  cases c <;> exact (Nat.mul_le_mul_right _ (Nat.min_le_left _ _)).trans h

theorem holdAlong_of_fits {cap esize : ℕ} {cs : List KfifoCall} (h : ∀ c ∈ cs, c.Fits esize)
    (q : BoundedFifo (List UInt8) cap) : HoldAlong esize q cs := by
  induction cs generalizing q with
  | nil => trivial
  | cons c cs ih =>
    obtain ⟨hfirst, hrest⟩ := List.forall_mem_cons.mp h
    exact ⟨hfirst.holds q, ih hrest _⟩

/-- The representation: `s` is everything put in so far, the data area stores
its part from element `o` to element `i`, and the queue is that part. -/
structure Represents {cap : ℕ} (esize : ℕ) (st : KfifoState) (q : BoundedFifo (List UInt8) cap)
    (s : List UInt8) (o i : ℕ) : Prop where
  sized : st.fifo.WellSized
  cap_eq : st.fifo.cap = cap
  esize_eq : st.fifo.esize.toNat = esize
  area_ge : st.fifo.bytes ≤ st.area.length
  counts : st.fifo.Counts o i
  stream_length : s.length = i * esize
  stores : Stores st.fifo.bytes st.area s (o * esize) (i * esize)
  items_eq : q.items = chunks esize (i - o) (s.drop (o * esize))

namespace Represents

variable {cap esize o i : ℕ} {st : KfifoState} {q : BoundedFifo (List UInt8) cap} {s : List UInt8}

theorem length_items (h : Represents esize st q s o i) : q.items.length = i - o := by
  rw [h.items_eq, length_chunks]

/-- The length functions of the header show the length of the queue. -/
theorem observers (h : Represents esize st q s o i) :
    (kfifoLen st.fifo).toNat = q.items.length ∧ (kfifoCap st.fifo).toNat = cap ∧
      (kfifoAvail st.fifo).toNat = cap - q.items.length ∧
      (kfifoUnused st.fifo).toNat = cap - q.items.length ∧
      (kfifoIsFull st.fifo = true ↔ q.items.length = cap) ∧
      (kfifoIsEmpty st.fifo = true ↔ q.items.length = 0) := by
  have hlen := h.counts.toNat_len h.sized
  have hunused := h.counts.toNat_unused h.sized
  have hcap := h.sized.toNat_kfifoCap
  have hle := q.length_le
  have hcapEq := h.cap_eq
  rw [h.cap_eq] at hunused hcap
  rw [h.length_items] at hle ⊢
  refine ⟨hlen, hcap, hunused, hunused, ?_, ?_⟩
  · rw [kfifoIsFull, decide_eq_true_eq, kfifoLen, gt_iff_lt, UInt32.lt_iff_toNat_lt, hlen]
    unfold Kfifo.cap at hcapEq
    omega
  · rw [kfifoIsEmpty, beq_iff_eq]
    constructor
    · intro heq
      rw [heq, UInt32.sub_self, UInt32.toNat_zero] at hlen
      omega
    · intro hzero
      have heq : i = o := by have := h.counts.le; omega
      rw [h.counts.in_eq, h.counts.out_eq, heq]

/-- `__kfifo_in` appends the prefix of the caller's elements that fits. -/
theorem kfifoIn (h : Represents esize st q s o i) {buf : List UInt8} {len : UInt32}
    (hfit : min len.toNat (cap - q.items.length) * esize ≤ buf.length) :
    ∃ area n, IpcBench.kfifoIn st.fifo st.area buf len =
        some (n, { st.fifo with inIndex := st.fifo.inIndex + n }, area) ∧
      n.toNat = q.room (chunks esize len.toNat buf) ∧
      Represents esize ⟨{ st.fifo with inIndex := st.fifo.inIndex + n }, area⟩
        (q.put (chunks esize len.toNat buf)) (s ++ buf.take (n.toNat * esize)) o
        (i + n.toNat) := by
  have hn := h.counts.toNat_clampIn h.sized len
  have hle := h.counts.le
  have hroom := h.counts.room
  have hcap := h.cap_eq
  obtain ⟨n, hndef⟩ : ∃ n, n = clampIn st.fifo len := ⟨_, rfl⟩
  rw [← hndef] at hn
  rw [h.length_items, ← h.cap_eq, ← hn] at hfit
  have hwindow : i * esize + n.toNat * esize ≤ o * esize + st.fifo.bytes := by
    rw [Kfifo.bytes, h.esize_eq, ← Nat.add_mul, ← Nat.add_mul]
    exact Nat.mul_le_mul_right _ (by omega)
  have hsrc : n.toNat * st.fifo.esize.toNat ≤ buf.length := by rwa [h.esize_eq]
  obtain ⟨area, hcopy, hlength, hnew, hold⟩ :=
    kfifoCopyIn_spec h.sized (by omega) i h.area_ge hsrc
  rw [h.esize_eq] at hnew hold
  have hret : n.toNat = q.room (chunks esize len.toNat buf) := by
    rw [hn, BoundedFifo.room, length_chunks, h.length_items, h.cap_eq]
  refine ⟨area, n, ?_, hret, ?_⟩
  · simp only [IpcBench.kfifoIn, ← hndef, h.counts.in_eq, hcopy, Option.bind_eq_bind,
      Option.bind_some, Option.pure_def]
  refine ⟨⟨h.sized.cap_pow, h.sized.esize_pos, h.sized.bytes_lt⟩, h.cap_eq, h.esize_eq, ?_, ?_, ?_,
    ?_, ?_⟩
  · exact h.area_ge.trans hlength.ge
  · exact h.counts.publishIn (by omega)
  · rw [List.length_append, List.length_take, h.stream_length, Nat.add_mul]
    omega
  · rw [Nat.add_mul]
    apply (h.stores.append h.stream_length.ge _).extend hwindow
    · intro j hj
      rw [← h.stream_length, List.getElem?_append_right (by omega), Nat.add_sub_cancel_left,
        List.getElem?_take_of_lt hj, h.stream_length]
      exact hnew j hj
    · exact hold
  · have hold' : (s.drop (o * esize)).length = (i - o) * esize := by
      rw [List.length_drop, h.stream_length, Nat.sub_mul]
    rw [BoundedFifo.items_put, ← hret, take_chunks (by omega), h.items_eq,
      show i + n.toNat - o = (i - o) + n.toNat by omega,
      List.drop_append_of_le_length
        (by rw [h.stream_length]; exact Nat.mul_le_mul_right _ hle),
      chunks_append hold', chunks_take]

/-- `__kfifo_out_peek` shows the oldest elements. -/
theorem kfifoOutPeek (h : Represents esize st q s o i) {buf : List UInt8} {len : UInt32}
    (hfit : min len.toNat q.items.length * esize ≤ buf.length) :
    ∃ n, IpcBench.kfifoOutPeek st.fifo st.area buf len =
        some (n, fillBuffer (q.peek len.toNat).flatten buf) ∧
      n.toNat = (q.peek len.toNat).length := by
  have hn := h.counts.toNat_clampOut h.sized len
  have hle := h.counts.le
  have hroom := h.counts.room
  obtain ⟨n, hndef⟩ : ∃ n, n = clampOut st.fifo len := ⟨_, rfl⟩
  rw [← hndef] at hn
  have hstored : n.toNat * esize ≤ (i - o) * esize := Nat.mul_le_mul_right _ (by omega)
  have hoi : o * esize ≤ i * esize := Nat.mul_le_mul_right _ hle
  have hsplit := Nat.sub_mul i o esize
  have hfit' : n.toNat * st.fifo.esize.toNat ≤ buf.length := by
    rwa [h.esize_eq, hn, ← h.length_items]
  obtain ⟨dst, hcopy, hdst⟩ := kfifoCopyOut_spec h.sized (by omega) o h.area_ge hfit'
  rw [h.esize_eq] at hdst
  have hpeek : (q.peek len.toNat).flatten = (s.drop (o * esize)).take (n.toNat * esize) := by
    have hdrop : n.toNat * esize ≤ (s.drop (o * esize)).length := by
      rw [List.length_drop, h.stream_length]
      omega
    rw [BoundedFifo.peek, h.items_eq, ← flatten_chunks hdrop]
    by_cases hmore : len.toNat ≤ i - o
    · rw [take_chunks hmore, show n.toNat = len.toNat by omega]
    · rw [List.take_of_length_le (by rw [length_chunks]; omega), show n.toNat = i - o by omega]
  have hfront : ((s.drop (o * esize)).take (n.toNat * esize)).length = n.toNat * esize := by
    rw [List.length_take, List.length_drop, h.stream_length]
    omega
  refine ⟨n, ?_, ?_⟩
  · have hdstEq : dst = fillBuffer (q.peek len.toNat).flatten buf := by
      apply List.ext_getElem?
      intro j
      rw [hdst j, hpeek, fillBuffer, hfront]
      by_cases hj : j < n.toNat * esize
      · rw [if_pos hj, List.getElem?_append_left (by omega), List.getElem?_take_of_lt hj,
          List.getElem?_drop]
        exact h.stores _ (by omega) (by omega)
      · rw [if_neg hj, List.getElem?_append_right (by omega), hfront, List.getElem?_drop]
        congr 1
        omega
    simp only [IpcBench.kfifoOutPeek, ← hndef, h.counts.out_eq, hcopy, Option.bind_eq_bind,
      Option.bind_some, Option.pure_def, hdstEq]
  · rw [BoundedFifo.length_peek, h.length_items, hn]

/-- Giving up the elements that `__kfifo_out_peek` has shown. -/
theorem drop (h : Represents esize st q s o i) {len n : UInt32}
    (hn : n.toNat = (q.peek len.toNat).length) :
    Represents esize ⟨{ st.fifo with outIndex := st.fifo.outIndex + n }, st.area⟩
      (q.drop len.toNat) s (o + n.toNat) i := by
  have hlen := h.length_items
  rw [BoundedFifo.length_peek, hlen] at hn
  have hle := h.counts.le
  refine ⟨⟨h.sized.cap_pow, h.sized.esize_pos, h.sized.bytes_lt⟩, h.cap_eq, h.esize_eq, h.area_ge,
    h.counts.publishOut (by omega), h.stream_length, ?_, ?_⟩
  · exact h.stores.mono (Nat.mul_le_mul_right _ (by omega)) le_rfl
  · have hdrop : q.items.drop len.toNat = q.items.drop n.toNat := by
      by_cases hmore : len.toNat ≤ i - o
      · rw [show n.toNat = len.toNat by omega]
      · rw [List.drop_of_length_le (by omega), List.drop_of_length_le (by omega)]
    rw [BoundedFifo.items_drop, hdrop, h.items_eq, drop_chunks, List.drop_drop, ← Nat.add_mul,
      Nat.sub_sub]

/-- One call keeps the representation and answers as the abstract queue does. -/
theorem call (h : Represents esize st q s o i) {c : KfifoCall} (hfit : c.Holds esize q) :
    ∃ st' s' o' i', st.call c = some (st', (specCall esize q c).2) ∧
      Represents esize st' (specCall esize q c).1 s' o' i' := by
  cases c with
  | kfifoIn buf len =>
    obtain ⟨area, n, hcall, hn, hrep⟩ := h.kfifoIn hfit
    refine ⟨_, _, _, _, ?_, hrep⟩
    simp only [KfifoState.call, hcall, Option.map_some, hn, specCall]
  | kfifoOutPeek buf len =>
    obtain ⟨n, hcall, hn⟩ := h.kfifoOutPeek hfit
    refine ⟨st, _, _, _, ?_, h⟩
    simp only [KfifoState.call, hcall, Option.map_some, hn, specCall]
  | kfifoOut buf len =>
    obtain ⟨n, hcall, hn⟩ := h.kfifoOutPeek hfit
    refine ⟨_, _, _, _, ?_, h.drop hn⟩
    simp only [KfifoState.call, kfifoOut, hcall, Option.bind_eq_bind, Option.bind_some,
      Option.pure_def, Option.map_some, hn, specCall]

/-- A whole sequence of calls keeps the representation and answers, call by
call, as the abstract queue does. -/
theorem calls (h : Represents esize st q s o i) {cs : List KfifoCall}
    (hfit : HoldAlong esize q cs) :
    ∃ st' s' o' i', st.calls cs = some (st', (specCalls esize q cs).2) ∧
      Represents esize st' (specCalls esize q cs).1 s' o' i' := by
  induction cs generalizing st q s o i with
  | nil => exact ⟨st, s, o, i, rfl, h⟩
  | cons c cs ih =>
    obtain ⟨st₁, s₁, o₁, i₁, hcall, hrep₁⟩ := h.call hfit.1
    obtain ⟨st₂, s₂, o₂, i₂, hcalls, hrep₂⟩ := ih hrep₁ hfit.2
    refine ⟨st₂, s₂, o₂, i₂, ?_, hrep₂⟩
    simp only [KfifoState.calls, hcall, hcalls, Option.bind_eq_bind, Option.bind_some,
      Option.pure_def, specCalls]

end Represents

/-- A freshly initialised fifo represents the empty queue, whatever its data
area contains. -/
theorem kfifoInit_represents {fifo₀ : Kfifo} {buffer : UInt64} {size : UInt32} {esize : UInt64}
    (hok : (kfifoInit fifo₀ buffer size esize).1 = 0)
    (hbytes : (kfifoInit fifo₀ buffer size esize).2.bytes < 2 ^ 32) {area : List UInt8}
    (harea : (kfifoInit fifo₀ buffer size esize).2.bytes ≤ area.length) :
    Represents esize.toNat ⟨(kfifoInit fifo₀ buffer size esize).2, area⟩
      (BoundedFifo.empty (List UInt8) (kfifoInit fifo₀ buffer size esize).2.cap) [] 0 0 := by
  obtain ⟨_, _, _, _, hesize⟩ := kfifoInit_spec hok
  refine ⟨kfifoInit_wellSized hok hbytes, rfl, hesize, harea, kfifoInit_counts hok, ?_, ?_, ?_⟩
  · simp
  · exact Stores.empty _ _ _ _
  · simp [BoundedFifo.empty, chunks]

/-- The kfifo refines a bounded queue. After every `__kfifo_init` that returns 0,
on a data area that holds the rounded capacity, and for every sequence of calls
with buffers of the announced length, each return value and each output buffer is
that of the abstract queue, and afterwards the length functions describe it. The
sequence may be long enough for both counters to wrap any number of times. -/
theorem kfifo_refines_boundedFifo (fifo₀ : Kfifo) (buffer : UInt64) (size : UInt32)
    (esize : UInt64) (area : List UInt8) (calls : List KfifoCall)
    (hok : (kfifoInit fifo₀ buffer size esize).1 = 0)
    (hbytes : (kfifoInit fifo₀ buffer size esize).2.bytes < 2 ^ 32)
    (harea : (kfifoInit fifo₀ buffer size esize).2.bytes ≤ area.length)
    (hfit : ∀ c ∈ calls, c.Fits esize.toNat) :
    let cap := (kfifoInit fifo₀ buffer size esize).2.cap
    let spec := specCalls esize.toNat (BoundedFifo.empty (List UInt8) cap) calls
    ∃ st, KfifoState.calls ⟨(kfifoInit fifo₀ buffer size esize).2, area⟩ calls =
        some (st, spec.2) ∧
      spec.1.items.length ≤ cap ∧
      (kfifoLen st.fifo).toNat = spec.1.items.length ∧ (kfifoCap st.fifo).toNat = cap ∧
      (kfifoAvail st.fifo).toNat = cap - spec.1.items.length ∧
      (kfifoUnused st.fifo).toNat = cap - spec.1.items.length ∧
      (kfifoIsFull st.fifo = true ↔ spec.1.items.length = cap) ∧
      (kfifoIsEmpty st.fifo = true ↔ spec.1.items.length = 0) := by
  intro cap spec
  obtain ⟨st, s, o, i, hcalls, hrep⟩ :=
    (kfifoInit_represents hok hbytes harea).calls (holdAlong_of_fits hfit _)
  exact ⟨st, hcalls, spec.1.length_le, hrep.observers⟩

/-- Three bytes of room are rounded up to a queue of four. The fifth byte is
refused, and the copies wrap around the end of the data area. -/
theorem kfifo_refines_boundedFifo_four :
    ((KfifoState.calls ⟨(kfifoInit ⟨7, 5, 3, 1, 0⟩ 4096 3 1).2, [9, 9, 9, 9]⟩
      [.kfifoIn [1, 2, 3, 4, 5] 5, .kfifoOut [0, 0, 0] 3, .kfifoIn [6, 7] 2,
        .kfifoOutPeek [0, 0, 0, 0] 4]).map Prod.snd) =
      some [⟨4, [1, 2, 3, 4, 5]⟩, ⟨3, [1, 2, 3]⟩, ⟨2, [6, 7]⟩, ⟨3, [4, 6, 7, 0]⟩] := by
  obtain ⟨st, hcalls, _⟩ := kfifo_refines_boundedFifo ⟨7, 5, 3, 1, 0⟩ 4096 3 1 [9, 9, 9, 9]
    [.kfifoIn [1, 2, 3, 4, 5] 5, .kfifoOut [0, 0, 0] 3, .kfifoIn [6, 7] 2,
      .kfifoOutPeek [0, 0, 0, 0] 4] (by decide) (by decide) (by decide) (by decide)
  rw [hcalls, Option.map_some]
  rfl

/-- A caller may announce more elements than its buffer has room for. As long as every buffer
holds what its call copies, the calls answer as the abstract queue does and copy nothing from
beyond a buffer or to it. -/
theorem kfifo_refines_of_holdAlong (fifo₀ : Kfifo) (buffer : UInt64) (size : UInt32)
    (esize : UInt64) (area : List UInt8) (calls : List KfifoCall)
    (hok : (kfifoInit fifo₀ buffer size esize).1 = 0)
    (hbytes : (kfifoInit fifo₀ buffer size esize).2.bytes < 2 ^ 32)
    (harea : (kfifoInit fifo₀ buffer size esize).2.bytes ≤ area.length)
    (hhold : HoldAlong esize.toNat
      (BoundedFifo.empty (List UInt8) (kfifoInit fifo₀ buffer size esize).2.cap) calls) :
    let spec := specCalls esize.toNat
      (BoundedFifo.empty (List UInt8) (kfifoInit fifo₀ buffer size esize).2.cap) calls
    ∃ st, KfifoState.calls ⟨(kfifoInit fifo₀ buffer size esize).2, area⟩ calls =
        some (st, spec.2) ∧
      (kfifoLen st.fifo).toNat = spec.1.items.length := by
  intro spec
  obtain ⟨st, s, o, i, hcalls, hrep⟩ := (kfifoInit_represents hok hbytes harea).calls hhold
  exact ⟨st, hcalls, hrep.observers.1⟩

/-- Nine elements announced of a buffer of one, when there is room for one; and as many as a
counter can name asked for, when four are left. -/
theorem kfifo_refines_of_holdAlong_nine_announced :
    ((KfifoState.calls ⟨(kfifoInit ⟨7, 5, 3, 1, 0⟩ 4096 4 1).2, [9, 9, 9, 9]⟩
      [.kfifoIn [1, 2, 3] 3, .kfifoIn [4] 9, .kfifoOut [0, 0, 0, 0] 4294967295]).map Prod.snd) =
      some [⟨3, [1, 2, 3]⟩, ⟨1, [4]⟩, ⟨4, [1, 2, 3, 4]⟩] := by
  obtain ⟨st, hcalls, _⟩ := kfifo_refines_of_holdAlong ⟨7, 5, 3, 1, 0⟩ 4096 4 1 [9, 9, 9, 9]
    [.kfifoIn [1, 2, 3] 3, .kfifoIn [4] 9, .kfifoOut [0, 0, 0, 0] 4294967295] (by decide)
    (by decide) (by decide) (by decide)
  rw [hcalls, Option.map_some]
  rfl

end IpcBench
