import Mathlib.Algebra.Order.Ring.Nat

/-!
# Natural numbers in a binary floating-point format

A format with `p` significant bits contains the natural numbers below `2 ^ p`, the even ones
below twice that, and so on: between two powers of two its numbers are the multiples of a
spacing that doubles from one power to the next. A result that is not in the format is
replaced by the nearest number that is, by the even multiple of the spacing if two are
equally near. The range of the exponents is not bounded here.
-/

namespace IpcBench.Lib

/-- The nearest multiple of `unit`, the even one if two are equally near. -/
def nearestMultiple (unit n : ℕ) : ℕ :=
  unit * (if 2 * (n % unit) < unit then n / unit
    else if unit < 2 * (n % unit) then n / unit + 1
    else n / unit + n / unit % 2)

/-- The spacing of the format around `n`. -/
def spacing (p n : ℕ) : ℕ := 2 ^ (n.log2 + 1 - p)

/-- `n` rounded to the format with `p` significant bits. -/
def roundToEven (p n : ℕ) : ℕ := nearestMultiple (spacing p n) n

section Nearest

variable {unit n m : ℕ}

/-- The nearest multiple is one of the two next to the number. -/
theorem nearestMultiple_between (unit n : ℕ) :
    unit * (n / unit) ≤ nearestMultiple unit n ∧
      nearestMultiple unit n ≤ unit * (n / unit + 1) := by
  unfold nearestMultiple
  have hparity : n / unit % 2 < 2 := Nat.mod_lt _ (by decide)
  constructor
  · apply Nat.mul_le_mul_left
    split
    · exact Nat.le_refl _
    · split <;> omega
  · apply Nat.mul_le_mul_left
    split
    · exact Nat.le_succ _
    · split <;> omega

/-- A multiple is its own nearest multiple. -/
theorem nearestMultiple_of_dvd (hpos : 0 < unit) (h : unit ∣ n) : nearestMultiple unit n = n := by
  have hzero : n % unit = 0 := Nat.mod_eq_zero_of_dvd h
  rw [nearestMultiple, hzero, if_pos (by omega)]
  exact Nat.mul_div_cancel' h

/-- The nearest multiple is at most half a unit away. -/
theorem nearestMultiple_error (hpos : 0 < unit) (n : ℕ) :
    2 * n ≤ 2 * nearestMultiple unit n + unit ∧ 2 * nearestMultiple unit n ≤ 2 * n + unit := by
  have hsplit := Nat.div_add_mod n unit
  have hrest := Nat.mod_lt n hpos
  have hmul : unit * (n / unit + 1) = unit * (n / unit) + unit := Nat.mul_succ _ _
  unfold nearestMultiple
  split
  · omega
  · split
    · rw [hmul]
      omega
    · rcases Nat.mod_two_eq_zero_or_one (n / unit) with heven | hodd
      · rw [heven, Nat.add_zero]
        omega
      · rw [hodd, hmul]
        omega

/-- Rounding to multiples keeps the order. -/
theorem nearestMultiple_mono (unit : ℕ) (h : n ≤ m) :
    nearestMultiple unit n ≤ nearestMultiple unit m := by
  rcases Nat.lt_or_eq_of_le (Nat.div_le_div_right (c := unit) h) with hless | hsame
  · have hlow := (nearestMultiple_between unit n).2
    have hhigh := (nearestMultiple_between unit m).1
    have hstep := Nat.mul_le_mul_left unit hless
    exact hlow.trans (hstep.trans hhigh)
  · have hn := Nat.div_add_mod n unit
    have hm := Nat.div_add_mod m unit
    rw [← hsame] at hm
    unfold nearestMultiple
    rw [← hsame]
    apply Nat.mul_le_mul_left
    have hparity : n / unit % 2 < 2 := Nat.mod_lt _ (by decide)
    have hle : n % unit ≤ m % unit := by omega
    split <;> split <;> (try split) <;> (try split) <;> omega

/-- A multiple above the number is above its nearest multiple. -/
theorem nearestMultiple_le (hpos : 0 < unit) (hdvd : unit ∣ m) (h : n ≤ m) :
    nearestMultiple unit n ≤ m := by
  have hmono := nearestMultiple_mono unit h
  rwa [nearestMultiple_of_dvd hpos hdvd] at hmono

/-- A multiple below the number is below its nearest multiple. -/
theorem le_nearestMultiple (hpos : 0 < unit) (hdvd : unit ∣ n) (h : n ≤ m) :
    n ≤ nearestMultiple unit m := by
  have hmono := nearestMultiple_mono unit h
  rwa [nearestMultiple_of_dvd hpos hdvd] at hmono

end Nearest

section Format

variable {p n m k : ℕ}

theorem spacing_pos (p n : ℕ) : 0 < spacing p n := Nat.two_pow_pos _

/-- The spacing divides every power of two that is not below it. -/
theorem spacing_dvd_two_pow (h : n.log2 + 1 - p ≤ k) : spacing p n ∣ 2 ^ k := Nat.pow_dvd_pow 2 h

/-- Rounding does not pass a power of two from below. -/
theorem roundToEven_le_two_pow (hp : 0 < p) (h : n < 2 ^ k) : roundToEven p n ≤ 2 ^ k := by
  refine nearestMultiple_le (spacing_pos p n) (spacing_dvd_two_pow ?_) (Nat.le_of_lt h)
  rcases Nat.eq_zero_or_pos n with rfl | hpos
  · rw [Nat.log2_zero]
    omega
  · have hlog := (Nat.log2_lt (Nat.ne_of_gt hpos)).mpr h
    omega

/-- Rounding does not pass a power of two from above. -/
theorem two_pow_le_roundToEven (hp : 0 < p) (h : 2 ^ k ≤ n) : 2 ^ k ≤ roundToEven p n := by
  have hne : n ≠ 0 := Nat.ne_of_gt (Nat.lt_of_lt_of_le (Nat.two_pow_pos k) h)
  have hk : k ≤ n.log2 := (Nat.le_log2 hne).mpr h
  calc 2 ^ k ≤ 2 ^ n.log2 := Nat.pow_le_pow_right (by decide) hk
    _ ≤ roundToEven p n := le_nearestMultiple (spacing_pos p n)
        (spacing_dvd_two_pow (by omega)) (Nat.log2_self_le hne)

/-- Rounding keeps the order, also where the spacing changes. -/
theorem roundToEven_mono (hp : 0 < p) (h : n ≤ m) : roundToEven p n ≤ roundToEven p m := by
  rcases Nat.lt_or_ge n.log2 m.log2 with hless | hge
  · have hm : m ≠ 0 := by
      rintro rfl
      rw [Nat.log2_zero] at hless
      omega
    calc roundToEven p n ≤ 2 ^ (n.log2 + 1) := roundToEven_le_two_pow hp Nat.lt_log2_self
      _ ≤ 2 ^ m.log2 := Nat.pow_le_pow_right (by decide) hless
      _ ≤ roundToEven p m := two_pow_le_roundToEven hp (Nat.log2_self_le hm)
  · have hsame : n.log2 = m.log2 := by
      rcases Nat.eq_zero_or_pos n with rfl | hpos
      · rw [Nat.log2_zero] at hge ⊢
        omega
      · have hlow := (Nat.log2_self_le (Nat.ne_of_gt hpos)).trans h
        exact Nat.le_antisymm ((Nat.le_log2 (by omega)).mpr hlow) hge
    unfold roundToEven spacing
    rw [hsame]
    exact nearestMultiple_mono _ h

/-- A number in the format is not changed. -/
theorem roundToEven_mul_two_pow {e : ℕ} (h : m < 2 ^ p) :
    roundToEven p (m * 2 ^ e) = m * 2 ^ e := by
  rcases Nat.eq_zero_or_pos m with rfl | hpos
  · rw [Nat.zero_mul]
    exact nearestMultiple_of_dvd (spacing_pos p 0) (Nat.dvd_zero _)
  · refine nearestMultiple_of_dvd (spacing_pos p _) (Nat.dvd_trans ?_ (Nat.dvd_mul_left _ m))
    refine spacing_dvd_two_pow ?_
    have hne : m * 2 ^ e ≠ 0 := Nat.ne_of_gt (Nat.mul_pos hpos (Nat.two_pow_pos e))
    have hlog : (m * 2 ^ e).log2 < p + e := by
      rw [Nat.log2_lt hne, Nat.pow_add]
      exact Nat.mul_lt_mul_of_pos_right h (Nat.two_pow_pos e)
    omega

/-- A small number is not changed. -/
theorem roundToEven_of_lt (h : n < 2 ^ p) : roundToEven p n = n := by
  have hexact := roundToEven_mul_two_pow (e := 0) h
  rwa [Nat.pow_zero, Nat.mul_one] at hexact

end Format

end IpcBench.Lib
