import Mathlib.Data.Nat.Basic

/-!
# Regions of memory

A region is a number of bytes from an offset on, within whatever the offsets are relative
to.
-/

namespace IpcBench.Lib

/-- The bytes `[base, base + bytes)`. -/
structure Region where
  base : ℕ
  bytes : ℕ
  deriving DecidableEq, Repr

namespace Region

/-- An offset that belongs to a region. -/
def Contains (region : Region) (offset : ℕ) : Prop :=
  region.base ≤ offset ∧ offset < region.base + region.bytes

/-- One region lies wholly inside another one. -/
def Within (inner outer : Region) : Prop :=
  outer.base ≤ inner.base ∧ inner.base + inner.bytes ≤ outer.base + outer.bytes

/-- Two regions do not overlap. -/
def Disjoint (first second : Region) : Prop :=
  first.base + first.bytes ≤ second.base ∨ second.base + second.bytes ≤ first.base

instance (inner outer : Region) : Decidable (inner.Within outer) :=
  inferInstanceAs (Decidable (_ ∧ _))

instance (first second : Region) : Decidable (first.Disjoint second) :=
  inferInstanceAs (Decidable (_ ∨ _))

variable {first second : Region} {offset size : ℕ}

/-- A region of bytes that starts at the beginning. -/
theorem within_zero_iff : first.Within ⟨0, size⟩ ↔ first.base + first.bytes ≤ size := by
  simp [Within]

/-- No offset belongs to two regions that do not overlap. -/
theorem Disjoint.not_contains (h : first.Disjoint second) (hfirst : first.Contains offset) :
    ¬ second.Contains offset := by
  intro hsecond
  rcases h with hbefore | hafter
  · exact absurd hfirst.2 (Nat.not_lt.mpr (Nat.le_trans hbefore hsecond.1))
  · exact absurd hsecond.2 (Nat.not_lt.mpr (Nat.le_trans hafter hfirst.1))

end Region

end IpcBench.Lib
