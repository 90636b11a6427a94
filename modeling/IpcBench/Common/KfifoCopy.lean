import IpcBench.Common.KfifoCapacity

/-!
# Where the bytes of a copy go

`kfifo_copy_in` and `kfifo_copy_out` turn an element counter into byte offsets
and split the copy in two at the end of the data area. For a well-sized fifo none
of the 32-bit products wraps and the two pieces together follow the ring: byte
`j` of a copy at counter `x` uses cell `(x * esize + j) % bytes`, also when the
counter itself has wrapped past `2 ^ 32`.

`Counts` is the other half of the representation: the free-running 32-bit
counters are the remainders of two unbounded ones that differ by at most the
capacity.
-/

namespace IpcBench

open Lib

/-- What a usable fifo satisfies: its capacity is a power of two, and the data
area is counted in 32 bits without wrapping. -/
structure Kfifo.WellSized (fifo : Kfifo) : Prop where
  /-- The capacity is a power of two, as masking requires. -/
  cap_pow : ∃ k, k ≤ 31 ∧ fifo.cap = 2 ^ k
  /-- Elements have at least one byte. -/
  esize_pos : 0 < fifo.esize.toNat
  /-- The whole data area is below `2 ^ 32` bytes. -/
  bytes_lt : fifo.bytes < 2 ^ 32

/-- A successful `__kfifo_init` gives a well-sized fifo if the rounded capacity
still fits into 32 bits when counted in bytes. -/
theorem kfifoInit_wellSized {fifo : Kfifo} {buffer : UInt64} {size : UInt32} {esize : UInt64}
    (hok : (kfifoInit fifo buffer size esize).1 = 0)
    (hbytes : (kfifoInit fifo buffer size esize).2.bytes < 2 ^ 32) :
    (kfifoInit fifo buffer size esize).2.WellSized := by
  obtain ⟨htwo, hbig⟩ := (kfifoInit_eq_zero_iff fifo buffer size esize).mp hok
  obtain ⟨_, _, _, hcap, hesize⟩ := kfifoInit_spec hok
  refine ⟨⟨_, Nat.clog_le_of_le_pow hbig, hcap⟩, ?_, hbytes⟩
  rw [hesize]
  by_contra hzero
  have hnone : elementCount size esize = 0 := by
    simp [elementCount, Nat.eq_zero_of_not_pos hzero]
  omega

/-- `mask + 1` does not wrap for a capacity of at most `2 ^ 31`. -/
theorem toNat_mask_add_one {fifo : Kfifo} (hcap : fifo.cap ≤ 2 ^ 31) :
    (fifo.mask + 1).toNat = fifo.cap := by
  unfold Kfifo.cap at hcap ⊢
  rw [UInt32.toNat_add, UInt32.toNat_one]
  omega

namespace Kfifo.WellSized

variable {fifo : Kfifo}

theorem bytes_pos (h : fifo.WellSized) : 0 < fifo.bytes :=
  Nat.mul_pos (Nat.succ_pos _) h.esize_pos

theorem cap_le (h : fifo.WellSized) : fifo.cap ≤ 2 ^ 31 := by
  obtain ⟨k, hk, hcap⟩ := h.cap_pow
  rw [hcap]
  exact Nat.pow_le_pow_right (by omega) hk

theorem cap_dvd (h : fifo.WellSized) : fifo.cap ∣ 2 ^ 32 := by
  obtain ⟨k, hk, hcap⟩ := h.cap_pow
  rw [hcap]
  exact Nat.pow_dvd_pow 2 (by omega)

theorem toNat_kfifoCap (h : fifo.WellSized) : (fifo.mask + 1).toNat = fifo.cap :=
  toNat_mask_add_one h.cap_le

/-- Masking is reduction modulo the capacity. -/
theorem toNat_and_mask (h : fifo.WellSized) (x : UInt32) :
    (x &&& fifo.mask).toNat = x.toNat % fifo.cap := by
  obtain ⟨k, _, hcap⟩ := h.cap_pow
  exact toNat_and_mask_of_cap_eq hcap x

/-- A counter that has wrapped selects the same slot as the unbounded one. -/
theorem slot_ofNat (h : fifo.WellSized) (x : ℕ) :
    ((UInt32.ofNat x) &&& fifo.mask).toNat = x % fifo.cap := by
  rw [h.toNat_and_mask, UInt32.toNat_ofNat', Nat.mod_mod_of_dvd _ h.cap_dvd]

end Kfifo.WellSized

/-- The macro `min` on words is the minimum of their values. -/
theorem toNat_kfifoMin (x y : UInt32) : (kfifoMin x y).toNat = min x.toNat y.toNat := by
  unfold kfifoMin
  by_cases hlt : x < y
  · have hnat : x.toNat < y.toNat := hlt
    rw [if_pos hlt]
    omega
  · have hnat : ¬ x.toNat < y.toNat := hlt
    rw [if_neg hlt]
    omega

/-- The special case `esize == 1` only saves three multiplications by one. -/
theorem copyPlan_eq (fifo : Kfifo) (len off : UInt32) :
    copyPlan fifo len off =
      ⟨(off &&& fifo.mask) * fifo.esize,
        kfifoMin (len * fifo.esize)
          ((fifo.mask + 1) * fifo.esize - (off &&& fifo.mask) * fifo.esize),
        len * fifo.esize⟩ := by
  unfold copyPlan
  by_cases hone : fifo.esize = 1
  · simp [hone]
  · simp [hone]

/-- The three byte quantities of a copy, as numbers. -/
theorem copyPlan_spec {fifo : Kfifo} (h : fifo.WellSized) {len : UInt32}
    (hlen : len.toNat ≤ fifo.cap) (x : ℕ) :
    (copyPlan fifo len (UInt32.ofNat x)).off.toNat = x * fifo.esize.toNat % fifo.bytes ∧
      (copyPlan fifo len (UInt32.ofNat x)).len.toNat = len.toNat * fifo.esize.toNat ∧
      (copyPlan fifo len (UInt32.ofNat x)).l.toNat =
        min (len.toNat * fifo.esize.toNat)
          (fifo.bytes - x * fifo.esize.toNat % fifo.bytes) := by
  have hlt := h.bytes_lt
  have hoffLt : x * fifo.esize.toNat % fifo.bytes < fifo.bytes := Nat.mod_lt _ h.bytes_pos
  have hlenLe : len.toNat * fifo.esize.toNat ≤ fifo.bytes := Nat.mul_le_mul_right _ hlen
  have hoff : ((UInt32.ofNat x &&& fifo.mask) * fifo.esize).toNat =
      x * fifo.esize.toNat % fifo.bytes := by
    have hslot : x % fifo.cap * fifo.esize.toNat = x * fifo.esize.toNat % fifo.bytes :=
      (Nat.mul_mod_mul_right _ _ _).symm
    rw [UInt32.toNat_mul, h.slot_ofNat, hslot, Nat.mod_eq_of_lt (by omega)]
  have hsize : ((fifo.mask + 1) * fifo.esize).toNat = fifo.bytes := by
    rw [UInt32.toNat_mul, h.toNat_kfifoCap]
    exact Nat.mod_eq_of_lt hlt
  have hlen' : (len * fifo.esize).toNat = len.toNat * fifo.esize.toNat := by
    rw [UInt32.toNat_mul, Nat.mod_eq_of_lt (by omega)]
  have hle : (UInt32.ofNat x &&& fifo.mask) * fifo.esize ≤ (fifo.mask + 1) * fifo.esize :=
    UInt32.le_iff_toNat_le.mpr (by omega)
  rw [copyPlan_eq]
  refine ⟨hoff, hlen', ?_⟩
  rw [toNat_kfifoMin, hlen', UInt32.toNat_sub_of_le _ _ hle, hsize, hoff]

/-- The length of the second piece never wraps below zero. -/
theorem toNat_copyPlan_rest {fifo : Kfifo} (h : fifo.WellSized) {len : UInt32}
    (hlen : len.toNat ≤ fifo.cap) (x : ℕ) :
    ((copyPlan fifo len (UInt32.ofNat x)).len - (copyPlan fifo len (UInt32.ofNat x)).l).toNat =
      len.toNat * fifo.esize.toNat - (copyPlan fifo len (UInt32.ofNat x)).l.toNat := by
  obtain ⟨_, hlen', hl⟩ := copyPlan_spec h hlen x
  rw [UInt32.toNat_sub_of_le _ _ (UInt32.le_iff_toNat_le.mpr (by omega)), hlen']

/-- Byte `j` of a copy at counter `x` uses the cell of stream position
`x * esize + j`. -/
theorem copyPlan_cell {fifo : Kfifo} (h : fifo.WellSized) {len : UInt32}
    (hlen : len.toNat ≤ fifo.cap) (x : ℕ) {j : ℕ} (hj : j < len.toNat * fifo.esize.toNat) :
    (copyPlan fifo len (UInt32.ofNat x)).cell j =
      (x * fifo.esize.toNat + j) % fifo.bytes := by
  obtain ⟨hoff, _, hl⟩ := copyPlan_spec h hlen x
  have hlenLe : len.toNat * fifo.esize.toNat ≤ fifo.bytes := Nat.mul_le_mul_right _ hlen
  rw [CopyPlan.cell, hoff, hl, splitOffset_eq_mod (Nat.mod_lt _ h.bytes_pos) hlenLe hj,
    Nat.mod_add_mod]

/-- A `memcpy` inside its two blocks replaces exactly `n` bytes. -/
theorem memcpy_spec {dst src : List UInt8} {d s n : ℕ} (hdst : d + n ≤ dst.length)
    (hsrc : s + n ≤ src.length) :
    ∃ r, memcpy dst d src s n = some r ∧ r.length = dst.length ∧
      ∀ i, r[i]? = if d ≤ i ∧ i < d + n then src[s + (i - d)]? else dst[i]? := by
  refine ⟨_, if_pos ⟨hdst, hsrc⟩, ?_, ?_⟩
  · simp only [List.length_append, List.length_take, List.length_drop]
    omega
  · intro i
    have htake : (dst.take d).length = d := by simp; omega
    have hmid : (dst.take d ++ (src.drop s).take n).length = d + n := by simp; omega
    by_cases hlow : i < d
    · rw [if_neg (by omega), List.getElem?_append_left (by omega),
        List.getElem?_append_left (by omega), List.getElem?_take_of_lt hlow]
    by_cases hin : i < d + n
    · rw [if_pos (by omega), List.getElem?_append_left (by omega),
        List.getElem?_append_right (by omega), htake, List.getElem?_take_of_lt (by omega),
        List.getElem?_drop]
    · rw [if_neg (by omega), List.getElem?_append_right (by omega), hmid, List.getElem?_drop]
      congr 1
      omega

/-- `kfifo_copy_in` at counter `x` puts byte `j` of the source into the cell of
stream position `x * esize + j` and leaves every other cell alone. -/
theorem kfifoCopyIn_spec {fifo : Kfifo} (h : fifo.WellSized) {len : UInt32}
    (hlen : len.toNat ≤ fifo.cap) (x : ℕ) {area src : List UInt8}
    (harea : fifo.bytes ≤ area.length) (hsrc : len.toNat * fifo.esize.toNat ≤ src.length) :
    ∃ area', kfifoCopyIn fifo area src len (UInt32.ofNat x) = some area' ∧
      area'.length = area.length ∧
      (∀ j, j < len.toNat * fifo.esize.toNat →
        area'[(x * fifo.esize.toNat + j) % fifo.bytes]? = src[j]?) ∧
      (∀ i, (∀ j, j < len.toNat * fifo.esize.toNat →
        i ≠ (x * fifo.esize.toNat + j) % fifo.bytes) → area'[i]? = area[i]?) := by
  obtain ⟨hoff, hlen', hl⟩ := copyPlan_spec h hlen x
  have hrest := toNat_copyPlan_rest h hlen x
  have hcell := fun j => copyPlan_cell h hlen x (j := j)
  have hoffLt : x * fifo.esize.toNat % fifo.bytes < fifo.bytes := Nat.mod_lt _ h.bytes_pos
  have hlenLe : len.toNat * fifo.esize.toNat ≤ fifo.bytes := Nat.mul_le_mul_right _ hlen
  unfold kfifoCopyIn
  unfold CopyPlan.cell splitOffset at hcell
  generalize copyPlan fifo len (UInt32.ofNat x) = p at *
  have hsrc₁ : 0 + p.l.toNat ≤ src.length := by omega
  have hdst₁ : p.off.toNat + p.l.toNat ≤ area.length := by omega
  obtain ⟨area₁, hfirst, hlen₁, hget₁⟩ := memcpy_spec hdst₁ hsrc₁
  have hsrc₂ : p.l.toNat + (p.len - p.l).toNat ≤ src.length := by omega
  have hdst₂ : 0 + (p.len - p.l).toNat ≤ area₁.length := by omega
  obtain ⟨area₂, hsecond, hlen₂, hget₂⟩ := memcpy_spec hdst₂ hsrc₂
  refine ⟨area₂, by simp [hfirst, hsecond], by omega, ?_, ?_⟩
  · intro j hj
    rw [← hcell j hj]
    by_cases hpiece : j < p.l.toNat
    · rw [if_pos hpiece, hget₂, if_neg (by omega), hget₁, if_pos (by omega)]
      congr 1
      omega
    · rw [if_neg hpiece, hget₂, if_pos (by omega)]
      congr 1
      omega
  · intro i hi
    have hsecondPiece : ¬ (0 ≤ i ∧ i < 0 + (p.len - p.l).toNat) := by
      intro hin
      apply hi (p.l.toNat + i) (by omega)
      rw [← hcell _ (by omega), if_neg (by omega)]
      omega
    have hfirstPiece : ¬ (p.off.toNat ≤ i ∧ i < p.off.toNat + p.l.toNat) := by
      intro hin
      apply hi (i - p.off.toNat) (by omega)
      rw [← hcell _ (by omega), if_pos (by omega)]
      omega
    rw [hget₂, if_neg hsecondPiece, hget₁, if_neg hfirstPiece]

/-- `kfifo_copy_out` at counter `x` fetches byte `j` from the cell of stream
position `x * esize + j` and leaves the rest of the destination alone. -/
theorem kfifoCopyOut_spec {fifo : Kfifo} (h : fifo.WellSized) {len : UInt32}
    (hlen : len.toNat ≤ fifo.cap) (x : ℕ) {area dst : List UInt8}
    (harea : fifo.bytes ≤ area.length) (hdst : len.toNat * fifo.esize.toNat ≤ dst.length) :
    ∃ dst', kfifoCopyOut fifo area dst len (UInt32.ofNat x) = some dst' ∧
      ∀ j, dst'[j]? = if j < len.toNat * fifo.esize.toNat then
        area[(x * fifo.esize.toNat + j) % fifo.bytes]? else dst[j]? := by
  obtain ⟨hoff, hlen', hl⟩ := copyPlan_spec h hlen x
  have hrest := toNat_copyPlan_rest h hlen x
  have hcell := fun j => copyPlan_cell h hlen x (j := j)
  have hoffLt : x * fifo.esize.toNat % fifo.bytes < fifo.bytes := Nat.mod_lt _ h.bytes_pos
  have hlenLe : len.toNat * fifo.esize.toNat ≤ fifo.bytes := Nat.mul_le_mul_right _ hlen
  unfold kfifoCopyOut
  unfold CopyPlan.cell splitOffset at hcell
  generalize copyPlan fifo len (UInt32.ofNat x) = p at *
  have hsrc₁ : p.off.toNat + p.l.toNat ≤ area.length := by omega
  have hdst₁ : 0 + p.l.toNat ≤ dst.length := by omega
  obtain ⟨dst₁, hfirst, hlen₁, hget₁⟩ := memcpy_spec hdst₁ hsrc₁
  have hsrc₂ : 0 + (p.len - p.l).toNat ≤ area.length := by omega
  have hdst₂ : p.l.toNat + (p.len - p.l).toNat ≤ dst₁.length := by omega
  obtain ⟨dst₂, hsecond, hlen₂, hget₂⟩ := memcpy_spec hdst₂ hsrc₂
  refine ⟨dst₂, by simp [hfirst, hsecond], ?_⟩
  intro j
  by_cases hj : j < len.toNat * fifo.esize.toNat
  · rw [if_pos hj, ← hcell j hj]
    by_cases hpiece : j < p.l.toNat
    · rw [if_pos hpiece, hget₂, if_neg (by omega), hget₁, if_pos (by omega)]
      congr 1
    · rw [if_neg hpiece, hget₂, if_pos (by omega)]
      congr 1
      omega
  · rw [if_neg hj, hget₂, if_neg (by omega), hget₁, if_neg (by omega)]

/-- The counters of the struct are those of `i` elements put in and `o` elements
taken out so far. -/
structure Kfifo.Counts (fifo : Kfifo) (o i : ℕ) : Prop where
  out_eq : fifo.outIndex = UInt32.ofNat o
  in_eq : fifo.inIndex = UInt32.ofNat i
  le : o ≤ i
  room : i ≤ o + fifo.cap

/-- Moving a wrapped counter on is moving the unbounded one on. -/
theorem ofNat_add_word (x : ℕ) (n : UInt32) :
    UInt32.ofNat x + n = UInt32.ofNat (x + n.toNat) := by
  rw [UInt32.ofNat_add, UInt32.ofNat_toNat]

namespace Kfifo.Counts

variable {fifo : Kfifo} {o i : ℕ}

/-- The difference of the wrapped counters is the true number of elements. -/
theorem toNat_len (h : fifo.Counts o i) (hsized : fifo.WellSized) :
    (fifo.inIndex - fifo.outIndex).toNat = i - o := by
  have hcap := hsized.cap_le
  have hle := h.le
  have hroom := h.room
  rw [h.in_eq, h.out_eq, UInt32.toNat_sub, UInt32.toNat_ofNat', UInt32.toNat_ofNat']
  omega

/-- `kfifo_unused` is the true free space. -/
theorem toNat_unused (h : fifo.Counts o i) (hsized : fifo.WellSized) :
    (kfifoUnused fifo).toNat = fifo.cap - (i - o) := by
  have hlen := h.toNat_len hsized
  have hcap := hsized.toNat_kfifoCap
  have hle := h.le
  have hroom := h.room
  unfold kfifoUnused
  rw [UInt32.toNat_sub_of_le _ _ (UInt32.le_iff_toNat_le.mpr (by omega)), hcap, hlen]

/-- `__kfifo_in` accepts as many elements as fit. -/
theorem toNat_clampIn (h : fifo.Counts o i) (hsized : fifo.WellSized) (len : UInt32) :
    (clampIn fifo len).toNat = min len.toNat (fifo.cap - (i - o)) := by
  have hunused := h.toNat_unused hsized
  simp only [clampIn]
  by_cases hgt : len > kfifoUnused fifo
  · have hnat : (kfifoUnused fifo).toNat < len.toNat := hgt
    rw [if_pos hgt]
    omega
  · have hnat : ¬ (kfifoUnused fifo).toNat < len.toNat := hgt
    rw [if_neg hgt]
    omega

/-- `__kfifo_out_peek` delivers as many elements as there are. -/
theorem toNat_clampOut (h : fifo.Counts o i) (hsized : fifo.WellSized) (len : UInt32) :
    (clampOut fifo len).toNat = min len.toNat (i - o) := by
  have hlen := h.toNat_len hsized
  simp only [clampOut]
  by_cases hgt : len > fifo.inIndex - fifo.outIndex
  · have hnat : (fifo.inIndex - fifo.outIndex).toNat < len.toNat := hgt
    rw [if_pos hgt]
    omega
  · have hnat : ¬ (fifo.inIndex - fifo.outIndex).toNat < len.toNat := hgt
    rw [if_neg hgt]
    omega

/-- Publishing elements that fit. -/
theorem publishIn (h : fifo.Counts o i) {n : UInt32} (hn : i + n.toNat ≤ o + fifo.cap) :
    Kfifo.Counts { fifo with inIndex := fifo.inIndex + n } o (i + n.toNat) := by
  have hle := h.le
  refine ⟨h.out_eq, ?_, by omega, hn⟩
  rw [h.in_eq, ofNat_add_word]

/-- Giving up elements that are there. -/
theorem publishOut (h : fifo.Counts o i) {n : UInt32} (hn : o + n.toNat ≤ i) :
    Kfifo.Counts { fifo with outIndex := fifo.outIndex + n } (o + n.toNat) i := by
  have hroom := h.room
  refine ⟨?_, h.in_eq, hn, ?_⟩
  · rw [h.out_eq, ofNat_add_word]
  · change i ≤ o + n.toNat + fifo.cap
    omega

end Kfifo.Counts

/-- A successful `__kfifo_init` starts counting at zero. -/
theorem kfifoInit_counts {fifo : Kfifo} {buffer : UInt64} {size : UInt32} {esize : UInt64}
    (hok : (kfifoInit fifo buffer size esize).1 = 0) :
    (kfifoInit fifo buffer size esize).2.Counts 0 0 := by
  obtain ⟨hin, hout, _⟩ := kfifoInit_spec hok
  exact ⟨hout, hin, le_rfl, Nat.zero_le _⟩

end IpcBench
