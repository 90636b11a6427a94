import Mathlib.Data.List.Basic
import Mathlib.Algebra.Order.Ring.Nat

/-!
# The counter of an event descriptor

An event descriptor without flags holds one 64-bit counter. A write adds to it
and blocks while the sum would exceed `2 ^ 64 - 2`; a read takes the whole counter
and blocks while it is zero. A blocked call is `none`.
-/

namespace IpcBench.Lib

/-- The largest value the counter can reach. -/
def eventFdMax : ℕ := 2 ^ 64 - 2

/-- The counter after a write of `value`. -/
def eventFdWrite (counter value : ℕ) : Option ℕ :=
  if counter + value ≤ eventFdMax then some (counter + value) else none

/-- The value a read returns and the counter after it. -/
def eventFdRead (counter : ℕ) : Option (ℕ × ℕ) :=
  if counter = 0 then none else some (counter, 0)

/-- A write goes through exactly when the sum fits. -/
theorem eventFdWrite_eq_some {counter value after : ℕ} :
    eventFdWrite counter value = some after ↔
      counter + value ≤ eventFdMax ∧ after = counter + value := by
  simp [eventFdWrite, eq_comm]

end IpcBench.Lib
