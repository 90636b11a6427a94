import Mathlib.Data.List.Basic
import Mathlib.Data.List.TakeDrop

/-!
# The bounded first-in first-out queue

What a ring buffer is for: a queue of at most `cap` elements. `put` takes the
longest prefix that fits, `peek` and `get` return the oldest elements. The bound
is a field of the queue, so an overfull queue cannot be built.

The second half cuts a flat list of bytes into elements of a fixed width, the way
a C caller passes `len` elements as one buffer.
-/

namespace IpcBench.Lib

variable {α : Type*}

/-- A queue of at most `cap` elements, oldest first. -/
structure BoundedFifo (α : Type*) (cap : ℕ) where
  items : List α
  length_le : items.length ≤ cap

namespace BoundedFifo

variable {cap : ℕ}

/-- The queue with no elements. -/
def empty (α : Type*) (cap : ℕ) : BoundedFifo α cap := ⟨[], Nat.zero_le _⟩

/-- How many elements of `xs` the queue can still take. -/
def room (q : BoundedFifo α cap) (xs : List α) : ℕ := min xs.length (cap - q.items.length)

/-- Append the prefix of `xs` that fits. -/
def put (q : BoundedFifo α cap) (xs : List α) : BoundedFifo α cap where
  items := q.items ++ xs.take (q.room xs)
  length_le := by
    have := q.length_le
    simp only [room, List.length_append, List.length_take]
    omega

/-- The oldest `n` elements, or all of them when there are fewer. -/
def peek (q : BoundedFifo α cap) (n : ℕ) : List α := q.items.take n

/-- Remove what `peek` shows. -/
def drop (q : BoundedFifo α cap) (n : ℕ) : BoundedFifo α cap where
  items := q.items.drop n
  length_le := by
    have := q.length_le
    simp only [List.length_drop]
    omega

theorem items_put (q : BoundedFifo α cap) (xs : List α) :
    (q.put xs).items = q.items ++ xs.take (q.room xs) := rfl

theorem items_drop (q : BoundedFifo α cap) (n : ℕ) : (q.drop n).items = q.items.drop n := rfl

@[simp] theorem length_peek (q : BoundedFifo α cap) (n : ℕ) :
    (q.peek n).length = min n q.items.length := by
  simp [peek]

end BoundedFifo

/-- The first `n` elements of width `e` in a flat list. -/
def chunks (e n : ℕ) (flat : List α) : List (List α) :=
  (List.range n).map fun i => (flat.drop (i * e)).take e

@[simp] theorem length_chunks (e n : ℕ) (flat : List α) : (chunks e n flat).length = n := by
  simp [chunks]

/-- The first elements of a longer cut are those of a shorter one. -/
theorem take_chunks {e n m : ℕ} (hnm : n ≤ m) (flat : List α) :
    (chunks e m flat).take n = chunks e n flat := by
  rw [chunks, ← List.map_take, List.take_range, Nat.min_eq_left hnm, chunks]

/-- Leaving out the first `n` elements starts the cut `n * e` places later. -/
theorem drop_chunks (e n m : ℕ) (flat : List α) :
    (chunks e m flat).drop n = chunks e (m - n) (flat.drop (n * e)) := by
  apply List.ext_getElem?
  intro i
  simp only [chunks, List.getElem?_drop, List.getElem?_map, List.drop_drop]
  by_cases hi : n + i < m
  · rw [List.getElem?_range hi, List.getElem?_range (by omega)]
    simp [Nat.add_mul]
  · rw [List.getElem?_eq_none (by simpa using by omega),
      List.getElem?_eq_none (by simpa using by omega)]
    simp

/-- The cut only looks at the places it covers. -/
theorem chunks_take {e n : ℕ} (flat : List α) :
    chunks e n (flat.take (n * e)) = chunks e n flat := by
  simp only [chunks, List.map_inj_left, List.mem_range]
  intro i hi
  have hle : (i + 1) * e ≤ n * e := Nat.mul_le_mul_right e hi
  rw [Nat.add_one_mul] at hle
  rw [List.drop_take, List.take_take, Nat.min_eq_left (by omega)]

/-- A cut across two whole numbers of elements is the two cuts in order. -/
theorem chunks_append {e a : ℕ} {left : List α} (hleft : left.length = a * e) (b : ℕ)
    (right : List α) : chunks e (a + b) (left ++ right) = chunks e a left ++ chunks e b right := by
  rw [← List.take_append_drop a (chunks e (a + b) (left ++ right)),
    take_chunks (Nat.le_add_right a b), drop_chunks, ← hleft, List.drop_left,
    Nat.add_sub_cancel_left, ← chunks_take, ← hleft, List.take_left]

/-- Gluing the elements back together gives the places they were cut from. -/
theorem flatten_chunks {e n : ℕ} {flat : List α} (h : n * e ≤ flat.length) :
    (chunks e n flat).flatten = flat.take (n * e) := by
  induction n with
  | zero => simp [chunks]
  | succ n ih =>
    rw [Nat.add_one_mul] at h
    have hlen : (flat.take (n * e)).length = n * e := by simp; omega
    have hsplit := chunks_append hlen 1 (flat.drop (n * e))
    rw [List.take_append_drop, chunks_take] at hsplit
    rw [hsplit, List.flatten_append, ih (by omega), Nat.add_one_mul, List.take_add]
    simp [chunks]

end IpcBench.Lib
