import Mathlib.Order.Bounds.Basic
import Mathlib.Order.MinMax

/-!
# Running minima and maxima

A minimum that is kept while a list is read, from an initial value on, is the least element
of the list exactly if the initial value does not hide it. The maximum is the same in the
dual order.
-/

namespace IpcBench.Lib

variable {α : Type*} [LinearOrder α] {xs : List α} {start bound : α}

/-- What is below the running minimum is below everything it was taken of. -/
theorem le_foldl_min_iff :
    bound ≤ xs.foldl min start ↔ bound ≤ start ∧ ∀ x ∈ xs, bound ≤ x := by
  induction xs generalizing start with
  | nil => simp
  | cons x xs ih =>
    rw [List.foldl_cons, ih, le_min_iff, List.forall_mem_cons, and_assoc]

/-- The running minimum is the initial value or one of the elements. -/
theorem foldl_min_eq_or_mem : xs.foldl min start = start ∨ xs.foldl min start ∈ xs := by
  induction xs generalizing start with
  | nil => exact Or.inl rfl
  | cons x xs ih =>
    rw [List.foldl_cons]
    rcases ih with hkept | hlater
    · rw [hkept, List.mem_cons]
      exact (min_choice start x).imp_right Or.inl
    · exact Or.inr (List.mem_cons_of_mem _ hlater)

/-- The running minimum is the least element if and only if some element is not above the
initial value. -/
theorem isLeast_foldl_min_iff :
    IsLeast {x | x ∈ xs} (xs.foldl min start) ↔ ∃ x ∈ xs, x ≤ start := by
  obtain ⟨hstart, hall⟩ := le_foldl_min_iff.mp (le_refl (xs.foldl min start))
  constructor
  · intro h
    exact ⟨_, h.1, hstart⟩
  · rintro ⟨x, hmem, hle⟩
    have hcases : xs.foldl min start = start ∨ xs.foldl min start ∈ xs := foldl_min_eq_or_mem
    rcases hcases with hkept | hone
    · -- an element that is not above the initial value is equal to it
      have heq : x = start := le_antisymm hle (hkept ▸ hall x hmem)
      refine ⟨?_, hall⟩
      change xs.foldl min start ∈ xs
      rw [hkept, ← heq]
      exact hmem
    · exact ⟨hone, hall⟩

/-- The running maximum is the greatest element if and only if some element is not below the
initial value. -/
theorem isGreatest_foldl_max_iff :
    IsGreatest {x | x ∈ xs} (xs.foldl max start) ↔ ∃ x ∈ xs, start ≤ x :=
  isLeast_foldl_min_iff (α := αᵒᵈ)

end IpcBench.Lib
