import Mathlib.Data.Int.Basic

/-!
# The arguments of `common/arguments.h`
-/

namespace IpcBench

/-- `struct Arguments`. -/
structure Arguments where
  size : Int32
  count : Int32
  deriving DecidableEq, Repr

end IpcBench
