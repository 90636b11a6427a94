import Mathlib.Data.List.Basic
import Mathlib.Algebra.Order.Ring.Nat

/-!
# The bytes of a word

A 64-bit word is handed over as its eight bytes, least significant first. Taking
the bytes and putting them together again is the identity, so a value that
arrives as the eight bytes of one word is that word.
-/

namespace IpcBench.Lib

/-- The `n` lowest bytes of a number, least significant first. -/
def bytesLE : ℕ → ℕ → List UInt8
  | 0, _ => []
  | n + 1, v => UInt8.ofNat v :: bytesLE n (v / 256)

/-- The number with the given bytes. -/
def valueLE : List UInt8 → ℕ
  | [] => 0
  | b :: bs => b.toNat + 256 * valueLE bs

@[simp] theorem length_bytesLE (n v : ℕ) : (bytesLE n v).length = n := by
  induction n generalizing v with
  | zero => rfl
  | succ n ih => simp [bytesLE, ih]

/-- Putting `n` bytes together again keeps the value modulo `256 ^ n`. -/
theorem valueLE_bytesLE (n v : ℕ) : valueLE (bytesLE n v) = v % 256 ^ n := by
  induction n generalizing v with
  | zero => simp [bytesLE, valueLE, Nat.mod_one]
  | succ n ih =>
    rw [bytesLE, valueLE, ih, UInt8.toNat_ofNat', Nat.pow_succ (n := 256), Nat.mul_comm (256 ^ n),
      Nat.mod_mul]

/-- The eight bytes of a 64-bit word. -/
def wordBytes (w : UInt64) : List UInt8 := bytesLE 8 w.toNat

/-- The 64-bit word with the given eight bytes. -/
def ofWordBytes (bs : List UInt8) : UInt64 := UInt64.ofNat (valueLE bs)

@[simp] theorem length_wordBytes (w : UInt64) : (wordBytes w).length = 8 := length_bytesLE _ _

/-- A word is recovered from its bytes. -/
@[simp] theorem ofWordBytes_wordBytes (w : UInt64) : ofWordBytes (wordBytes w) = w := by
  have hlt := w.toNat_lt
  rw [ofWordBytes, wordBytes, valueLE_bytesLE, Nat.mod_eq_of_lt (by omega), UInt64.ofNat_toNat]

/-- The `k`-th word of a list of words laid out one after the other. -/
theorem take_drop_flatMap_wordBytes {ws : List UInt64} {k : ℕ} {w : UInt64}
    (hw : ws[k]? = some w) : ((ws.flatMap wordBytes).drop (8 * k)).take 8 = wordBytes w := by
  induction ws generalizing k with
  | nil => simp at hw
  | cons v ws ih =>
    cases k with
    | zero =>
      obtain rfl : v = w := by simpa using hw
      rw [List.flatMap_cons, Nat.mul_zero, List.drop_zero, ← length_wordBytes v, List.take_left]
    | succ k =>
      have hdrop : 8 * (k + 1) = (wordBytes v).length + 8 * k := by simp; omega
      rw [List.flatMap_cons, hdrop, ← List.drop_drop, List.drop_left]
      exact ih (by simpa using hw)

end IpcBench.Lib
