import IpcBench.Common.KfifoRefinement

/-!
# When the kfifo stays inside its buffer

`__kfifo_init` rounds the element count up, so a buffer whose element count is
not a power of two is smaller than the capacity the fifo then uses. The
statements below are about a buffer of exactly the `size` bytes that were passed
to `__kfifo_init`.
-/

namespace IpcBench

open Lib

/-- The cells of the data area that the two `memcpy` calls of a copy touch. -/
def CopyPlan.touched (p : CopyPlan) : List ℕ :=
  (List.range p.l.toNat).map (p.off.toNat + ·) ++ List.range (p.len - p.l).toNat

/-- The copy that a call performs: its length in elements and its counter. -/
def KfifoCall.copyArgs (fifo : Kfifo) : KfifoCall → UInt32 × UInt32
  | .kfifoIn _ len => (clampIn fifo len, fifo.inIndex)
  | .kfifoOutPeek _ len | .kfifoOut _ len => (clampOut fifo len, fifo.outIndex)

/-- None of the products `off * esize`, `size * esize` and `len * esize`, where
they are computed at all, reaches `2 ^ 32`. -/
def ProductsFit (fifo : Kfifo) (len off : UInt32) : Prop :=
  fifo.esize ≠ 1 →
    (off &&& fifo.mask).toNat * fifo.esize.toNat < 2 ^ 32 ∧
      (fifo.mask + 1).toNat * fifo.esize.toNat < 2 ^ 32 ∧
      len.toNat * fifo.esize.toNat < 2 ^ 32

/-- A call touches only the first `size` bytes of the data area and computes no
product that wraps. -/
def KfifoCall.StaysInside (size : ℕ) (fifo : Kfifo) (c : KfifoCall) : Prop :=
  (∀ cell ∈ (copyPlan fifo (c.copyArgs fifo).1 (c.copyArgs fifo).2).touched, cell < size) ∧
    ProductsFit fifo (c.copyArgs fifo).1 (c.copyArgs fifo).2

/-- If `__kfifo_init` accepts a buffer of exactly `size` bytes, every call in
every state that calls can reach stays inside it. -/
def NeverLeavesBuffer (fifo₀ : Kfifo) (buffer : UInt64) (size : UInt32) (esize : UInt64) : Prop :=
  (kfifoInit fifo₀ buffer size esize).1 = 0 →
    ∀ area : List UInt8, area.length = size.toNat →
      ∀ (calls : List KfifoCall) (st : KfifoState) (rs : List CallResult),
        (∀ c ∈ calls, c.Fits esize.toNat) →
        KfifoState.calls ⟨(kfifoInit fifo₀ buffer size esize).2, area⟩ calls = some (st, rs) →
        ∀ c : KfifoCall, c.Fits esize.toNat → c.StaysInside size.toNat st.fifo

/-- The two pieces of a copy in a well-sized fifo stay below its byte size. -/
theorem lt_bytes_of_mem_touched {fifo : Kfifo} (h : fifo.WellSized) {len : UInt32}
    (hlen : len.toNat ≤ fifo.cap) (x : ℕ) {cell : ℕ}
    (hcell : cell ∈ (copyPlan fifo len (UInt32.ofNat x)).touched) : cell < fifo.bytes := by
  obtain ⟨hoff, _, hl⟩ := copyPlan_spec h hlen x
  have hrest := toNat_copyPlan_rest h hlen x
  have hoffLt : x * fifo.esize.toNat % fifo.bytes < fifo.bytes := Nat.mod_lt _ h.bytes_pos
  have hlenLe : len.toNat * fifo.esize.toNat ≤ fifo.bytes := Nat.mul_le_mul_right _ hlen
  simp only [CopyPlan.touched, List.mem_append, List.mem_map, List.mem_range] at hcell
  rcases hcell with ⟨j, hj, rfl⟩ | hcell
  · omega
  · omega

/-- The products of a copy in a well-sized fifo do not wrap. -/
theorem productsFit_of_wellSized {fifo : Kfifo} (h : fifo.WellSized) {len : UInt32}
    (hlen : len.toNat ≤ fifo.cap) (x : ℕ) : ProductsFit fifo len (UInt32.ofNat x) := by
  intro _
  have hlt := h.bytes_lt
  have hslot : x % fifo.cap ≤ fifo.cap := (Nat.mod_lt _ (Nat.succ_pos _)).le
  rw [h.slot_ofNat, h.toNat_kfifoCap]
  exact ⟨(Nat.mul_le_mul_right _ hslot).trans_lt hlt, hlt,
    (Nat.mul_le_mul_right _ hlen).trans_lt hlt⟩

/-- In a state that represents a queue every call stays inside the bytes that
the fifo was sized for. -/
theorem Represents.staysInside {cap esize o i : ℕ} {st : KfifoState}
    {q : BoundedFifo (List UInt8) cap} {s : List UInt8} (h : Represents esize st q s o i)
    {size : ℕ} (hsize : st.fifo.bytes ≤ size) (c : KfifoCall) : c.StaysInside size st.fifo := by
  have hroom := h.counts.room
  have hargs : ∃ x, (c.copyArgs st.fifo).2 = UInt32.ofNat x ∧
      (c.copyArgs st.fifo).1.toNat ≤ st.fifo.cap := by
    cases c with
    | kfifoIn buf len =>
      have hclamp := h.counts.toNat_clampIn h.sized len
      refine ⟨i, h.counts.in_eq, ?_⟩
      simp only [KfifoCall.copyArgs]
      omega
    | kfifoOutPeek buf len | kfifoOut buf len =>
      have hclamp := h.counts.toNat_clampOut h.sized len
      refine ⟨o, h.counts.out_eq, ?_⟩
      simp only [KfifoCall.copyArgs]
      omega
  obtain ⟨x, hx, hlen⟩ := hargs
  unfold KfifoCall.StaysInside
  rw [hx]
  exact ⟨fun cell hcell => (lt_bytes_of_mem_touched h.sized hlen x hcell).trans_le hsize,
    productsFit_of_wellSized h.sized hlen x⟩

/-- A full-capacity write on a fresh well-sized fifo touches its last byte. -/
theorem last_byte_touched {fifo : Kfifo} (h : fifo.WellSized) (hin : fifo.inIndex = 0)
    (hout : fifo.outIndex = 0) (buf : List UInt8) :
    fifo.bytes - 1 ∈ (copyPlan fifo ((KfifoCall.kfifoIn buf (fifo.mask + 1)).copyArgs fifo).1
      ((KfifoCall.kfifoIn buf (fifo.mask + 1)).copyArgs fifo).2).touched := by
  have hcounts : fifo.Counts 0 0 := ⟨hout, hin, le_rfl, Nat.zero_le _⟩
  have hclamp := hcounts.toNat_clampIn h (fifo.mask + 1)
  rw [h.toNat_kfifoCap] at hclamp
  have hcap : (clampIn fifo (fifo.mask + 1)).toNat = fifo.cap := by omega
  obtain ⟨hoff, _, hl⟩ := copyPlan_spec h hcap.le 0
  have hpos := h.bytes_pos
  rw [Nat.zero_mul, Nat.zero_mod] at hoff hl
  rw [hcap, ← Kfifo.bytes] at hl
  simp only [KfifoCall.copyArgs, CopyPlan.touched, List.mem_append, List.mem_map, List.mem_range]
  rw [hcounts.in_eq]
  exact Or.inl ⟨fifo.bytes - 1, by omega, by omega⟩

/-- A capacity that had to be rounded up does not fit into the buffer it was
computed from. -/
theorem size_lt_bytes_of_rounded {fifo₀ : Kfifo} {buffer : UInt64} {size : UInt32} {esize : UInt64}
    (hok : (kfifoInit fifo₀ buffer size esize).1 = 0)
    (hpow : ¬ (elementCount size esize).isPowerOfTwo) :
    size.toNat < (kfifoInit fifo₀ buffer size esize).2.bytes := by
  obtain ⟨htwo, _⟩ := (kfifoInit_eq_zero_iff fifo₀ buffer size esize).mp hok
  obtain ⟨_, _, _, hcap, hesize⟩ := kfifoInit_spec hok
  have hle := Nat.le_pow_clog (b := 2) (by omega) (elementCount size esize)
  have hne : elementCount size esize ≠ 2 ^ Nat.clog 2 (elementCount size esize) :=
    fun heq => hpow ⟨_, heq⟩
  have hpos : 0 < esize.toNat := by
    by_contra hzero
    have hnone : elementCount size esize = 0 := by
      simp [elementCount, Nat.eq_zero_of_not_pos hzero]
    omega
  rw [Kfifo.bytes, hcap, hesize]
  calc size.toNat < (elementCount size esize + 1) * esize.toNat := by
        rw [Nat.mul_comm]
        exact Nat.lt_mul_div_succ _ hpos
    _ ≤ 2 ^ Nat.clog 2 (elementCount size esize) * esize.toNat :=
        Nat.mul_le_mul_right _ (by omega)

/-- A capacity that needed no rounding fits into the buffer. -/
theorem bytes_le_size_of_isPowerOfTwo {fifo₀ : Kfifo} {buffer : UInt64} {size : UInt32}
    {esize : UInt64} (hok : (kfifoInit fifo₀ buffer size esize).1 = 0)
    (hpow : (elementCount size esize).isPowerOfTwo) :
    (kfifoInit fifo₀ buffer size esize).2.bytes ≤ size.toNat := by
  obtain ⟨_, _, _, hcap, hesize⟩ := kfifoInit_spec hok
  rw [Kfifo.bytes, hcap, hesize, two_pow_clog_of_isPowerOfTwo hpow]
  exact Nat.div_mul_le_self _ _

/-- On a rounded capacity the last byte of a full-capacity write lies past the
buffer. -/
theorem overrun_of_rounded {fifo₀ : Kfifo} {buffer : UInt64} {size : UInt32} {esize : UInt64}
    (hok : (kfifoInit fifo₀ buffer size esize).1 = 0)
    (hpow : ¬ (elementCount size esize).isPowerOfTwo)
    (hbytes : (kfifoInit fifo₀ buffer size esize).2.bytes < 2 ^ 32) :
    ¬ ∀ c : KfifoCall, c.Fits esize.toNat →
      c.StaysInside size.toNat (kfifoInit fifo₀ buffer size esize).2 := by
  intro hinside
  obtain ⟨hin, hout, _, _, hesize⟩ := kfifoInit_spec hok
  have hsmall := size_lt_bytes_of_rounded hok hpow
  have hsized := kfifoInit_wellSized hok hbytes
  let buf := List.replicate (kfifoInit fifo₀ buffer size esize).2.bytes (0 : UInt8)
  have hfits : (KfifoCall.kfifoIn buf ((kfifoInit fifo₀ buffer size esize).2.mask + 1)).Fits
      esize.toNat := by
    simp only [KfifoCall.Fits, buf, List.length_replicate, hsized.toNat_kfifoCap, Kfifo.bytes,
      hesize, le_refl]
  have hlast := (hinside _ hfits).1 _ (last_byte_touched hsized hin hout buf)
  omega

/-- A capacity of `2 ^ 32` bytes or more makes the product `size * esize` of any copy
wrap. -/
theorem product_wraps {fifo₀ : Kfifo} {buffer : UInt64} {size : UInt32} {esize : UInt64}
    (hok : (kfifoInit fifo₀ buffer size esize).1 = 0)
    (hbytes : ¬ (kfifoInit fifo₀ buffer size esize).2.bytes < 2 ^ 32) :
    ¬ ∀ c : KfifoCall, c.Fits esize.toNat →
      c.StaysInside size.toNat (kfifoInit fifo₀ buffer size esize).2 := by
  intro hinside
  obtain ⟨_, hbig⟩ := (kfifoInit_eq_zero_iff fifo₀ buffer size esize).mp hok
  obtain ⟨_, _, _, hcap, _⟩ := kfifoInit_spec hok
  have hfits : (KfifoCall.kfifoIn [] 0).Fits esize.toNat := by simp [KfifoCall.Fits]
  have hmask : ((kfifoInit fifo₀ buffer size esize).2.mask + 1).toNat =
      (kfifoInit fifo₀ buffer size esize).2.cap := by
    apply toNat_mask_add_one
    rw [hcap]
    exact Nat.pow_le_pow_right (by omega) (Nat.clog_le_of_le_pow hbig)
  have hne : (kfifoInit fifo₀ buffer size esize).2.esize ≠ 1 := by
    intro hone
    apply hbytes
    have hlt := ((kfifoInit fifo₀ buffer size esize).2.mask + 1).toNat_lt
    rw [Kfifo.bytes, hone, ← hmask]
    simpa using hlt
  have hfit := ((hinside _ hfits).2 hne).2.1
  rw [hmask] at hfit
  exact hbytes hfit

/-- On a capacity that needed no rounding every call in every reachable state stays
inside. -/
theorem staysInside_of_isPowerOfTwo {fifo₀ : Kfifo} {buffer : UInt64} {size : UInt32}
    {esize : UInt64} (hok : (kfifoInit fifo₀ buffer size esize).1 = 0)
    (hpow : (elementCount size esize).isPowerOfTwo) {area : List UInt8}
    (harea : area.length = size.toNat) {calls : List KfifoCall} {st : KfifoState}
    {rs : List CallResult} (hfit : ∀ c ∈ calls, c.Fits esize.toNat)
    (hcalls : KfifoState.calls ⟨(kfifoInit fifo₀ buffer size esize).2, area⟩ calls = some (st, rs))
    (c : KfifoCall) : c.StaysInside size.toNat st.fifo := by
  have hbytes := bytes_le_size_of_isPowerOfTwo hok hpow
  have hlt := size.toNat_lt
  have hfits : (kfifoInit fifo₀ buffer size esize).2.bytes ≤ area.length := by omega
  obtain ⟨st', s, o, i, hcalls', hrep⟩ :=
    (kfifoInit_represents hok (by omega) hfits).calls (holdAlong_of_fits hfit _)
  obtain rfl : st' = st := by
    rw [hcalls] at hcalls'
    exact (Prod.ext_iff.mp (Option.some.inj hcalls')).1.symm
  have hsame : st'.fifo.bytes = (kfifoInit fifo₀ buffer size esize).2.bytes := by
    obtain ⟨_, _, _, _, hesize⟩ := kfifoInit_spec hok
    rw [Kfifo.bytes, hrep.cap_eq, hrep.esize_eq, Kfifo.bytes, hesize]
  exact hrep.staysInside (by omega) c

/-- The kfifo never leaves the buffer it was given exactly when the element count
`size / esize` needs no rounding (or `__kfifo_init` refuses it). Otherwise the
rounded capacity is larger than the buffer: filling the fifo runs over its end,
or the byte size already wraps when it is computed. -/
theorem neverLeavesBuffer_iff (fifo₀ : Kfifo) (buffer : UInt64) (size : UInt32) (esize : UInt64) :
    NeverLeavesBuffer fifo₀ buffer size esize ↔
      elementCount size esize < 2 ∨ 2 ^ 31 < elementCount size esize ∨
        (elementCount size esize).isPowerOfTwo := by
  constructor
  · intro hnever
    by_contra hcond
    simp only [not_or, Nat.not_lt] at hcond
    obtain ⟨htwo, hbig, hpow⟩ := hcond
    have hok := (kfifoInit_eq_zero_iff fifo₀ buffer size esize).mpr ⟨htwo, hbig⟩
    have hinside := hnever hok (List.replicate size.toNat 0) (by simp) [] _ [] (by simp) rfl
    by_cases hbytes : (kfifoInit fifo₀ buffer size esize).2.bytes < 2 ^ 32
    · exact overrun_of_rounded hok hpow hbytes hinside
    · exact product_wraps hok hbytes hinside
  · intro hcond hok area harea calls st rs hfit hcalls c _
    obtain ⟨htwo, hbig⟩ := (kfifoInit_eq_zero_iff fifo₀ buffer size esize).mp hok
    have hpow : (elementCount size esize).isPowerOfTwo := by
      rcases hcond with hsmall | hlarge | hpow
      · omega
      · omega
      · exact hpow
    exact staysInside_of_isPowerOfTwo hok hpow harea hfit hcalls c

/-- A buffer of three single-byte elements is taken for four, and the first
full-size write runs one byte over its end. -/
theorem three_bytes_overrun : ¬ NeverLeavesBuffer ⟨0, 0, 0, 0, 0⟩ 4096 3 1 := by
  intro hnever
  have hinside := hnever (by decide) [0, 0, 0] (by decide) [] _ [] (by simp) rfl
    (.kfifoIn [1, 2, 3, 4] 4) (by decide)
  have hlast := hinside.1 3 (by decide)
  exact absurd hlast (by decide)

end IpcBench
