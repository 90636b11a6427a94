import Mathlib.Data.Int.Basic
import Mathlib.Order.Lattice
import Mathlib.Order.Nat

/-!
# A file that is mapped into memory

What counts is how long the file is. An open that may create it makes an empty file, a
write behind its end makes it longer, and an access to a mapping reaches the file only if
the page of the access lies at least partly within the file. A file that does not exist is
`none`.
-/

namespace IpcBench.Lib

/-- The bytes of a page. -/
def pageSize : ℕ := 4096

/-- The length of a file after an open that creates it if it is not there. -/
def openCreate (file : Option ℕ) : Option ℕ := some (file.getD 0)

/-- The position after a seek from the start; a negative offset is refused. -/
def seekSet (position : ℕ) (offset : ℤ) : ℕ := if offset < 0 then position else offset.toNat

/-- The length of a file after a write of one byte. -/
def writeByte (file : Option ℕ) (position : ℕ) : Option ℕ :=
  file.map fun length => max length (position + 1)

/-- The page of the offset lies at least partly within the file. -/
def pageWithin (file : Option ℕ) (offset : ℕ) : Bool :=
  decide (offset / pageSize * pageSize < file.getD 0)

/-- The first page is within every file that is not empty. -/
theorem pageWithin_first {file : Option ℕ} {offset : ℕ} (h : offset < pageSize) :
    pageWithin file offset = decide (0 < file.getD 0) := by
  rw [pageWithin, Nat.div_eq_of_lt h, Nat.zero_mul]

/-- A write makes the file not empty. -/
theorem getD_writeByte_pos {file : Option ℕ} (position : ℕ) (h : file.isSome = true) :
    0 < (writeByte file position).getD 0 := by
  obtain ⟨length, rfl⟩ := Option.isSome_iff_exists.mp h
  exact Nat.lt_of_lt_of_le (Nat.succ_pos position) (Nat.le_max_right _ _)

end IpcBench.Lib
