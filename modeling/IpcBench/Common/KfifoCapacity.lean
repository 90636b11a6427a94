import IpcBench.Lib.PowerOfTwo
import IpcBench.Common.Kfifo

/-!
# What `__kfifo_init` decides

The element count `n = size / esize` is rounded up to a power of two, which the
mask then relies on. The cascade of `roundup_pow_of_two` is the general one of
`Lib.PowerOfTwo` in 32 bits; above `2 ^ 31` its final increment wraps to zero and
the `size < 2` test refuses the fifo.
-/

namespace IpcBench

open Lib

/-- The number of elements that `__kfifo_init` is asked to hold. -/
def elementCount (size : UInt32) (esize : UInt64) : ℕ := size.toNat / esize.toNat

/-- The quotient of `__kfifo_init` loses nothing when it is stored back into
32 bits. -/
theorem toNat_quotient (size : UInt32) (esize : UInt64) :
    (size.toUInt64 / esize).toUInt32.toNat = elementCount size esize := by
  have hle : size.toNat / esize.toNat ≤ size.toNat := Nat.div_le_self _ _
  have hlt := size.toNat_lt
  rw [UInt64.toNat_toUInt32, UInt64.toNat_div, UInt32.toNat_toUInt64, Nat.mod_eq_of_lt (by omega),
    elementCount]

/-- An element count is a 32-bit number. -/
theorem elementCount_lt (size : UInt32) (esize : UInt64) : elementCount size esize < 2 ^ 32 :=
  (Nat.div_le_self _ _).trans_lt size.toNat_lt

/-- Subtracting one from a nonzero word does not wrap. -/
theorem toNat_sub_one {v : UInt32} (hv : 0 < v.toNat) : (v - 1).toNat = v.toNat - 1 := by
  have hlt := v.toNat_lt
  rw [UInt32.toNat_sub, UInt32.toNat_one]
  omega

/-- `roundup_pow_of_two` computes the least power of two that is at least `v`,
modulo the word size. -/
theorem toNat_roundupPowOfTwo {v : UInt32} (hv : 0 < v.toNat) :
    (roundupPowOfTwo v).toNat = 2 ^ Nat.clog 2 v.toNat % 2 ^ 32 := by
  have h2 := (SmearedBy.refl (v - 1).toNat).uint32_double (k := 1) rfl (by decide)
  have h4 := h2.uint32_double (k := 2) rfl (by decide)
  have h8 := h4.uint32_double (k := 4) rfl (by decide)
  have h16 := h8.uint32_double (k := 8) rfl (by decide)
  have h32 := h16.uint32_double (k := 16) rfl (by decide)
  have hall := h32.eq_two_pow_sub_one (v - 1).toNat_lt
  have hpos := Nat.two_pow_pos (Nat.clog 2 v.toNat)
  rw [toNat_sub_one hv, size_sub_one_eq_clog hv] at hall
  simp only [roundupPowOfTwo]
  rw [UInt32.toNat_add, hall, UInt32.toNat_one, Nat.sub_add_cancel hpos]

/-- Above `2 ^ 31` the next power of two does not fit into 32 bits. -/
theorem clog_eq_of_large {n : ℕ} (hlarge : 2 ^ 31 < n) (hlt : n < 2 ^ 32) : Nat.clog 2 n = 32 := by
  apply Nat.le_antisymm
  · exact Nat.clog_le_of_le_pow hlt.le
  · exact (Nat.lt_clog_iff_pow_lt (by omega)).mpr hlarge

/-- `is_power_of_2` accepts exactly zero and the powers of two. -/
theorem isPowerOf2_iff (size : UInt32) :
    isPowerOf2 size = true ↔ size.toNat = 0 ∨ size.toNat.isPowerOfTwo := by
  have hbits : isPowerOf2 size = true ↔ size.toNat &&& (size - 1).toNat = 0 := by
    rw [isPowerOf2, beq_iff_eq, ← UInt32.toNat_inj, UInt32.toNat_and, UInt32.toNat_zero]
  rw [hbits]
  by_cases hzero : size.toNat = 0
  · simp [hzero]
  · rw [toNat_sub_one (by omega), Nat.and_sub_one_eq_zero_iff_isPowerOfTwo hzero]
    simp [hzero]

/-- The rounded element count: zero stays zero, everything else goes up to the
next power of two, wrapping above `2 ^ 31`. -/
theorem toNat_initSize (size : UInt32) (esize : UInt64) :
    (initSize size esize).toNat =
      if elementCount size esize = 0 then 0
      else 2 ^ Nat.clog 2 (elementCount size esize) % 2 ^ 32 := by
  have hlt := elementCount_lt size esize
  have hiff := isPowerOf2_iff (size.toUInt64 / esize).toUInt32
  rw [toNat_quotient] at hiff
  unfold initSize
  by_cases hzero : elementCount size esize = 0
  · rw [if_pos (hiff.mpr (Or.inl hzero)), toNat_quotient, if_pos hzero, hzero]
  · rw [if_neg hzero]
    by_cases hpow : (elementCount size esize).isPowerOfTwo
    · rw [if_pos (hiff.mpr (Or.inr hpow)), toNat_quotient, two_pow_clog_of_isPowerOfTwo hpow,
        Nat.mod_eq_of_lt hlt]
    · have hnot : ¬ isPowerOf2 (size.toUInt64 / esize).toUInt32 = true := by
        rw [hiff]
        simp [hzero, hpow]
      rw [if_neg hnot, toNat_roundupPowOfTwo (by rw [toNat_quotient]; omega), toNat_quotient]

/-- `__kfifo_init` returns 0 exactly when there are at least two elements and the
rounding does not wrap. -/
theorem kfifoInit_eq_zero_iff (fifo : Kfifo) (buffer : UInt64) (size : UInt32) (esize : UInt64) :
    (kfifoInit fifo buffer size esize).1 = 0 ↔
      2 ≤ elementCount size esize ∧ elementCount size esize ≤ 2 ^ 31 := by
  have hret : (kfifoInit fifo buffer size esize).1 = 0 ↔ 2 ≤ (initSize size esize).toNat := by
    unfold kfifoInit
    by_cases hsmall : initSize size esize < 2
    · have htwo : (initSize size esize).toNat < 2 := hsmall
      simp only [if_pos hsmall]
      omega
    · have htwo : ¬ (initSize size esize).toNat < 2 := hsmall
      simp only [if_neg hsmall, true_iff]
      omega
  rw [hret, toNat_initSize]
  by_cases hzero : elementCount size esize = 0
  · simp [hzero]
  rw [if_neg hzero]
  by_cases hbig : elementCount size esize ≤ 2 ^ 31
  · have hclog : Nat.clog 2 (elementCount size esize) ≤ 31 := Nat.clog_le_of_le_pow hbig
    have hpow := Nat.pow_le_pow_right (show 0 < 2 by omega) hclog
    rw [Nat.mod_eq_of_lt (by omega)]
    constructor
    · intro htwo
      refine ⟨?_, hbig⟩
      by_contra hone
      have hclog0 : Nat.clog 2 (elementCount size esize) = 0 :=
        Nat.clog_of_right_le_one (by omega) 2
      rw [hclog0] at htwo
      omega
    · rintro ⟨htwo, _⟩
      exact htwo.trans (Nat.le_pow_clog (by omega) _)
  · rw [clog_eq_of_large (Nat.lt_of_not_le hbig) (elementCount_lt size esize)]
    omega

/-- The number of elements the fifo can hold, as a number. -/
def Kfifo.cap (fifo : Kfifo) : ℕ := fifo.mask.toNat + 1

/-- The number of bytes of the data area that the fifo uses. -/
def Kfifo.bytes (fifo : Kfifo) : ℕ := fifo.cap * fifo.esize.toNat

/-- The struct that a successful `__kfifo_init` leaves behind. -/
theorem kfifoInit_spec {fifo : Kfifo} {buffer : UInt64} {size : UInt32} {esize : UInt64}
    (hok : (kfifoInit fifo buffer size esize).1 = 0) :
    (kfifoInit fifo buffer size esize).2.inIndex = 0 ∧
      (kfifoInit fifo buffer size esize).2.outIndex = 0 ∧
      (kfifoInit fifo buffer size esize).2.data = buffer ∧
      (kfifoInit fifo buffer size esize).2.cap = 2 ^ Nat.clog 2 (elementCount size esize) ∧
      (kfifoInit fifo buffer size esize).2.esize.toNat = esize.toNat := by
  obtain ⟨htwo, hbig⟩ := (kfifoInit_eq_zero_iff fifo buffer size esize).mp hok
  have hsize := toNat_initSize size esize
  have hclog : Nat.clog 2 (elementCount size esize) ≤ 31 := Nat.clog_le_of_le_pow hbig
  have hpow := Nat.pow_le_pow_right (show 0 < 2 by omega) hclog
  have hcap := Nat.le_pow_clog (b := 2) (by omega) (elementCount size esize)
  rw [if_neg (by omega), Nat.mod_eq_of_lt (by omega)] at hsize
  have hlarge : ¬ initSize size esize < 2 := by
    intro hlt
    have : (initSize size esize).toNat < 2 := hlt
    omega
  have hesizeLt : esize.toNat < 2 ^ 32 := by
    by_contra hge
    have hlt := size.toNat_lt
    have hnone : elementCount size esize = 0 := Nat.div_eq_of_lt (by omega)
    omega
  have hmask : (initSize size esize - 1).toNat = (initSize size esize).toNat - 1 :=
    toNat_sub_one (by omega)
  simp only [kfifoInit, if_neg hlarge, Kfifo.cap, hmask, UInt64.toNat_toUInt32,
    Nat.mod_eq_of_lt hesizeLt, true_and, and_true]
  omega

/-- If `__kfifo_init` does not return 0, it returns -1 and leaves an empty mask. -/
theorem kfifoInit_refused {fifo : Kfifo} {buffer : UInt64} {size : UInt32} {esize : UInt64}
    (hno : (kfifoInit fifo buffer size esize).1 ≠ 0) :
    (kfifoInit fifo buffer size esize).1 = -1 ∧ (kfifoInit fifo buffer size esize).2.mask = 0 := by
  unfold kfifoInit at hno ⊢
  by_cases hsmall : initSize size esize < 2
  · simp only [if_pos hsmall, and_self]
  · simp only [if_neg hsmall, ne_eq, not_true_eq_false] at hno

/-- Masking is reduction modulo the capacity, if that is a power of two. -/
theorem Kfifo.toNat_and_mask_of_cap_eq {fifo : Kfifo} {k : ℕ} (hcap : fifo.cap = 2 ^ k)
    (x : UInt32) : (x &&& fifo.mask).toNat = x.toNat % fifo.cap := by
  have hmask : fifo.mask.toNat = 2 ^ k - 1 := by
    unfold Kfifo.cap at hcap
    omega
  rw [UInt32.toNat_and, hmask, Nat.and_two_pow_sub_one_eq_mod, hcap]

/-- Above `2 ^ 31` elements `roundup_pow_of_two` wraps to zero. -/
theorem roundupPowOfTwo_eq_zero {v : UInt32} (hv : 2 ^ 31 < v.toNat) : roundupPowOfTwo v = 0 := by
  rw [← UInt32.toNat_inj, toNat_roundupPowOfTwo (by omega), clog_eq_of_large hv v.toNat_lt,
    Nat.mod_self, UInt32.toNat_zero]

/-- The capacity that `__kfifo_init` decides on, for every size and every size of an element
(a division by zero traps in C): it returns 0 exactly for `2` to `2 ^ 31` elements, and then
the fifo is empty, `mask + 1` is the least power of two that is at least the number of
elements, and masking is reduction modulo `mask + 1`; otherwise it returns -1 with an empty
mask, above `2 ^ 31` elements because the rounding has wrapped. -/
theorem kfifoInit_capacity (fifo : Kfifo) (buffer : UInt64) (size : UInt32) (esize : UInt64) :
    ((kfifoInit fifo buffer size esize).1 = 0 ↔
        2 ≤ elementCount size esize ∧ elementCount size esize ≤ 2 ^ 31) ∧
      ((kfifoInit fifo buffer size esize).1 = 0 →
        (kfifoInit fifo buffer size esize).2.inIndex = 0 ∧
          (kfifoInit fifo buffer size esize).2.outIndex = 0 ∧
          IsLeast {c | (∃ k, c = 2 ^ k) ∧ elementCount size esize ≤ c}
            ((kfifoInit fifo buffer size esize).2.mask.toNat + 1) ∧
          ∀ x : UInt32, (x &&& (kfifoInit fifo buffer size esize).2.mask).toNat =
            x.toNat % ((kfifoInit fifo buffer size esize).2.mask.toNat + 1)) ∧
      (¬ (2 ≤ elementCount size esize ∧ elementCount size esize ≤ 2 ^ 31) →
        (kfifoInit fifo buffer size esize).1 = -1 ∧
          (kfifoInit fifo buffer size esize).2.mask = 0) ∧
      (2 ^ 31 < elementCount size esize →
        roundupPowOfTwo (size.toUInt64 / esize).toUInt32 = 0) := by
  have hzero := kfifoInit_eq_zero_iff fifo buffer size esize
  refine ⟨hzero, fun hok => ?_, fun hno => kfifoInit_refused (mt hzero.mp hno), fun hbig => ?_⟩
  · obtain ⟨hin, hout, _, hcap, _⟩ := kfifoInit_spec hok
    refine ⟨hin, hout, ?_, Kfifo.toNat_and_mask_of_cap_eq hcap⟩
    change IsLeast _ (kfifoInit fifo buffer size esize).2.cap
    rw [hcap]
    constructor
    · exact ⟨⟨_, rfl⟩, Nat.le_pow_clog (by omega) _⟩
    · rintro _ ⟨⟨k, rfl⟩, hle⟩
      exact Nat.pow_le_pow_right (by omega) (Nat.clog_le_of_le_pow hle)
  · exact roundupPowOfTwo_eq_zero (by rwa [toNat_quotient])

end IpcBench
