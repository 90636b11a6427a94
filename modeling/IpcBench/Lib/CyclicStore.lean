import Mathlib.Data.List.Basic
import Mathlib.Data.List.TakeDrop
import Mathlib.Data.Int.ModEq

/-!
# A stream stored in a ring of cells

A ring of `n` cells holds a moving window of an unbounded stream: position `t`
of the stream lives in cell `t % n`. Producers extend the window upwards and
consumers shrink it from below; nothing else is needed to know that a cell still
holds what was put there. The stream is a ghost: the ring itself is only a list
of cells that may be larger than `n`.
-/

namespace IpcBench.Lib

variable {α : Type*}

/-- The first `n` cells of `data` hold the positions `lo ≤ t < hi` of `stream`. -/
def Stores (n : ℕ) (data stream : List α) (lo hi : ℕ) : Prop :=
  ∀ t, lo ≤ t → t < hi → data[t % n]? = stream[t]?

/-- Two positions less than a full turn apart live in different cells. -/
theorem mod_ne_mod_of_lt {n s t : ℕ} (hst : s < t) (hturn : t < s + n) : s % n ≠ t % n := by
  intro heq
  have hdvd : n ∣ t - s := (Nat.modEq_iff_dvd' hst.le).mp heq
  have hle := Nat.le_of_dvd (by omega) hdvd
  omega

/-- An empty window constrains nothing. -/
theorem Stores.empty (n : ℕ) (data stream : List α) (lo : ℕ) : Stores n data stream lo lo :=
  fun _ hlo hhi => absurd hhi (by omega)

/-- A smaller window is stored when a larger one is. -/
theorem Stores.mono {n lo hi lo' hi' : ℕ} {data stream : List α}
    (h : Stores n data stream lo hi) (hlo : lo ≤ lo') (hhi : hi' ≤ hi) :
    Stores n data stream lo' hi' :=
  fun t htlo hthi => h t (by omega) (by omega)

/-- Appending to the stream does not change a window that lies inside it. -/
theorem Stores.append {n lo hi : ℕ} {data stream : List α}
    (h : Stores n data stream lo hi) (hhi : hi ≤ stream.length) (more : List α) :
    Stores n data (stream ++ more) lo hi := by
  intro t hlo ht
  rw [List.getElem?_append_left (by omega)]
  exact h t hlo ht

/-- Filling `m` further cells extends the window by `m` positions, provided that
the ring has room for them. -/
theorem Stores.extend {n lo hi m : ℕ} {data data' stream : List α}
    (h : Stores n data stream lo hi) (hroom : hi + m ≤ lo + n)
    (hnew : ∀ j, j < m → data'[(hi + j) % n]? = stream[hi + j]?)
    (hold : ∀ i, (∀ j, j < m → i ≠ (hi + j) % n) → data'[i]? = data[i]?) :
    Stores n data' stream lo (hi + m) := by
  intro t hlo ht
  by_cases hthi : t < hi
  · rw [hold (t % n)]
    · exact h t hlo hthi
    · intro j hj
      exact mod_ne_mod_of_lt (by omega) (by omega)
  · have hpos : hi + (t - hi) = t := by omega
    have hcell := hnew (t - hi) (by omega)
    rwa [hpos] at hcell

/-- Filling the next cell extends the window by one position. -/
theorem Stores.set {n lo hi : ℕ} {data stream : List α} {a : α}
    (h : Stores n data stream lo hi) (hroom : hi < lo + n) (hn : 0 < n) (hdata : n ≤ data.length)
    (ha : stream[hi]? = some a) : Stores n (data.set (hi % n) a) stream lo (hi + 1) := by
  have hcell : hi % n < data.length := (Nat.mod_lt _ hn).trans_le hdata
  apply h.extend (by omega)
  · intro j hj
    obtain rfl : j = 0 := by omega
    rw [Nat.add_zero, List.getElem?_set_self hcell, ha]
  · intro i hi'
    rw [List.getElem?_set_ne]
    exact (hi' 0 (by omega)).symm

/-- Copying in two pieces: the first `l` cells from `off` on, the others from the
start of the ring. -/
def splitOffset (off l j : ℕ) : ℕ := if j < l then off + j else j - l

/-- The two pieces together follow the ring when the first one stops exactly at
its end. -/
theorem splitOffset_eq_mod {n off m j : ℕ} (hoff : off < n) (hm : m ≤ n) (hj : j < m) :
    splitOffset off (min m (n - off)) j = (off + j) % n := by
  unfold splitOffset
  by_cases hfirst : j < min m (n - off)
  · rw [if_pos hfirst, Nat.mod_eq_of_lt (by omega)]
  · rw [if_neg hfirst, Nat.mod_eq_sub_mod (by omega), Nat.mod_eq_of_lt (by omega)]
    omega

end IpcBench.Lib
