import IpcBench.Lib.CyclicStore
import IpcBench.Lib.BoundedFifo

/-!
# The lock-free ring buffer of `common/kfifo.h`

The functions of the header, in its order. `unsigned int` is `UInt32`, so every
sum, difference and product wraps as it does in C; `size_t` and pointers are
`UInt64`. The bytes the `data` pointer leads to are a separate list, the data
area. `memcpy` fails on a byte outside either of its blocks, so that leaving a
buffer is visible in the model and not silently defined.
-/

namespace IpcBench

open Lib

/-- `struct __kfifo`. The free-running counters `in` and `out` are counted in
elements. -/
structure Kfifo where
  inIndex : UInt32
  outIndex : UInt32
  mask : UInt32
  esize : UInt32
  data : UInt64
  deriving DecidableEq, Repr

/-- `sizeof(struct __kfifo)`: four `unsigned int` and one pointer. -/
def sizeofKfifo : UInt64 := 24

/-- `roundup_pow_of_two`: smear the highest bit of `v - 1` downwards and add one. -/
def roundupPowOfTwo (v : UInt32) : UInt32 :=
  let v := v - 1
  let v := v ||| v >>> 1
  let v := v ||| v >>> 2
  let v := v ||| v >>> 4
  let v := v ||| v >>> 8
  let v := v ||| v >>> 16
  v + 1

/-- `kfifo_len`: number of elements in the fifo. -/
def kfifoLen (fifo : Kfifo) : UInt32 := fifo.inIndex - fifo.outIndex

/-- `kfifo_cap`: number of elements the fifo can hold. -/
def kfifoCap (fifo : Kfifo) : UInt32 := fifo.mask + 1

/-- `kfifo_avail`: free space in elements. -/
def kfifoAvail (fifo : Kfifo) : UInt32 := kfifoCap fifo - kfifoLen fifo

/-- `kfifo_is_full`. -/
def kfifoIsFull (fifo : Kfifo) : Bool := decide (kfifoLen fifo > fifo.mask)

/-- `kfifo_is_empty`. -/
def kfifoIsEmpty (fifo : Kfifo) : Bool := fifo.inIndex == fifo.outIndex

/-- `kfifo_unused`: free space in elements, written out a second time. -/
def kfifoUnused (fifo : Kfifo) : UInt32 := (fifo.mask + 1) - (fifo.inIndex - fifo.outIndex)

/-- `is_power_of_2`. It also accepts zero. -/
def isPowerOf2 (size : UInt32) : Bool := (size &&& (size - 1)) == 0

/-- The number of elements `__kfifo_init` settles on: `size /= esize` is a
division in `size_t` whose quotient is stored back into 32 bits. -/
def initSize (size : UInt32) (esize : UInt64) : UInt32 :=
  let size := (size.toUInt64 / esize).toUInt32
  if isPowerOf2 size then size else roundupPowOfTwo size

/-- `__kfifo_init`: the return value and the initialised struct. -/
def kfifoInit (fifo : Kfifo) (buffer : UInt64) (size : UInt32) (esize : UInt64) : ℤ × Kfifo :=
  let size := initSize size esize
  let fifo := { fifo with inIndex := 0, outIndex := 0, esize := esize.toUInt32, data := buffer }
  if size < 2 then (-1, { fifo with mask := 0 })
  else (0, { fifo with mask := size - 1 })

/-- `memcpy(dst + d, src + s, n)` between two blocks of memory, `none` when it
touches a byte outside one of them. -/
def memcpy (dst : List UInt8) (d : ℕ) (src : List UInt8) (s n : ℕ) : Option (List UInt8) :=
  if d + n ≤ dst.length ∧ s + n ≤ src.length then
    some (dst.take d ++ (src.drop s).take n ++ dst.drop (d + n))
  else none

/-- The header's macro `min`. -/
def kfifoMin (x y : UInt32) : UInt32 := if x < y then x else y

/-- The byte quantities both copy functions compute first: the offset into the
data area, the length `l` of the first `memcpy`, and the whole length. -/
structure CopyPlan where
  off : UInt32
  l : UInt32
  len : UInt32
  deriving DecidableEq, Repr

/-- The common first half of `kfifo_copy_in` and `kfifo_copy_out`. -/
def copyPlan (fifo : Kfifo) (len off : UInt32) : CopyPlan :=
  let size := fifo.mask + 1
  let esize := fifo.esize
  let off := off &&& fifo.mask
  if esize ≠ 1 then
    let off := off * esize
    let size := size * esize
    let len := len * esize
    ⟨off, kfifoMin len (size - off), len⟩
  else ⟨off, kfifoMin len (size - off), len⟩

/-- Cell of the data area that byte `j` of a copy goes to or comes from. -/
def CopyPlan.cell (p : CopyPlan) (j : ℕ) : ℕ := splitOffset p.off.toNat p.l.toNat j

/-- `kfifo_copy_in`: two `memcpy` calls into the data area. -/
def kfifoCopyIn (fifo : Kfifo) (area src : List UInt8) (len off : UInt32) :
    Option (List UInt8) := do
  let p := copyPlan fifo len off
  let area ← memcpy area p.off.toNat src 0 p.l.toNat
  memcpy area 0 src p.l.toNat (p.len - p.l).toNat

/-- The `len` that `__kfifo_in` goes on with: at most the free space. -/
def clampIn (fifo : Kfifo) (len : UInt32) : UInt32 :=
  let l := kfifoUnused fifo
  if len > l then l else len

/-- `__kfifo_in`: the return value, the new struct and the new data area. -/
def kfifoIn (fifo : Kfifo) (area buf : List UInt8) (len : UInt32) :
    Option (UInt32 × Kfifo × List UInt8) := do
  let len := clampIn fifo len
  let area ← kfifoCopyIn fifo area buf len fifo.inIndex
  pure (len, { fifo with inIndex := fifo.inIndex + len }, area)

/-- `kfifo_copy_out`: two `memcpy` calls out of the data area. -/
def kfifoCopyOut (fifo : Kfifo) (area dst : List UInt8) (len off : UInt32) :
    Option (List UInt8) := do
  let p := copyPlan fifo len off
  let dst ← memcpy dst 0 area p.off.toNat p.l.toNat
  memcpy dst p.l.toNat area 0 (p.len - p.l).toNat

/-- The `len` that `__kfifo_out_peek` goes on with: at most the stored elements. -/
def clampOut (fifo : Kfifo) (len : UInt32) : UInt32 :=
  let l := fifo.inIndex - fifo.outIndex
  if len > l then l else len

/-- `__kfifo_out_peek`: the return value and the filled buffer. -/
def kfifoOutPeek (fifo : Kfifo) (area buf : List UInt8) (len : UInt32) :
    Option (UInt32 × List UInt8) := do
  let len := clampOut fifo len
  let buf ← kfifoCopyOut fifo area buf len fifo.outIndex
  pure (len, buf)

/-- `__kfifo_out`: as `__kfifo_out_peek`, then the elements are given up. -/
def kfifoOut (fifo : Kfifo) (area buf : List UInt8) (len : UInt32) :
    Option (UInt32 × Kfifo × List UInt8) := do
  let (len, buf) ← kfifoOutPeek fifo area buf len
  pure (len, { fifo with outIndex := fifo.outIndex + len }, buf)

end IpcBench
