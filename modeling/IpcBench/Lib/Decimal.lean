import Mathlib.Data.Int.Basic
import Mathlib.Data.List.TakeWhile

/-!
# Decimal numbers in texts

`strtol` with base ten, which saturates at 64 bits, and `atoi`, which then keeps the low 32
of them. Both read every decimal number, with or without a sign, and of any length.
-/

namespace IpcBench.Lib

/-- The white space of `isspace`. -/
def isSpace (c : Char) : Bool :=
  c ∈ [' ', '\t', '\n', '\x0b', '\x0c', '\r']

/-- The value of a row of digits. -/
def digitsValue (digits : List Char) : ℕ :=
  digits.foldl (fun value c => 10 * value + (c.toNat - '0'.toNat)) 0

/-- The value of the digits a text begins with. -/
def leadingValue (text : List Char) : ℤ := digitsValue (text.takeWhile Char.isDigit)

/-- What does not fit into a `long` becomes the largest or the smallest one. -/
def saturate (value : ℤ) : ℤ :=
  if value < -9223372036854775808 then -9223372036854775808
  else if 9223372036854775807 < value then 9223372036854775807
  else value

/-- `strtol` with base ten. -/
def strtol (text : List Char) : ℤ :=
  saturate <|
    match text.dropWhile isSpace with
    | '-' :: text => -leadingValue text
    | '+' :: text => leadingValue text
    | text => leadingValue text

/-- `atoi`. -/
def atoi (text : List Char) : Int32 := Int32.ofInt (strtol text)

/-- The sign of a decimal number. -/
inductive Sign where
  | none
  | plus
  | minus
  deriving DecidableEq, Repr

/-- The sign as it is written. -/
def Sign.text : Sign → List Char
  | .none => []
  | .plus => ['+']
  | .minus => ['-']

/-- A decimal number as it is written. -/
structure Decimal where
  sign : Sign
  digits : List (Fin 10)
  nonempty : digits ≠ []
  deriving DecidableEq, Repr

/-- The character of a digit. -/
def digitChar (digit : Fin 10) : Char := Char.ofNat ('0'.toNat + digit)

/-- The text of a number. -/
def Decimal.text (n : Decimal) : List Char := n.sign.text ++ n.digits.map digitChar

/-- The number without its sign. -/
def Decimal.magnitude (n : Decimal) : ℕ :=
  n.digits.foldl (fun value digit => 10 * value + digit.val) 0

/-- The number. -/
def Decimal.value (n : Decimal) : ℤ :=
  match n.sign with
  | .none | .plus => n.magnitude
  | .minus => -n.magnitude

theorem isDigit_digitChar : ∀ digit : Fin 10, (digitChar digit).isDigit = true := by decide

theorem toNat_digitChar :
    ∀ digit : Fin 10, (digitChar digit).toNat - '0'.toNat = digit.val := by decide

/-- A digit is neither white space nor a sign. -/
theorem digitChar_plain :
    ∀ digit : Fin 10, isSpace (digitChar digit) = false ∧ digitChar digit ≠ '-' ∧
      digitChar digit ≠ '+' := by decide

/-- The digits of a number are all read. -/
theorem leadingValue_digits (digits : List (Fin 10)) :
    leadingValue (digits.map digitChar) =
      (digits.foldl (fun value digit => 10 * value + digit.val) 0 : ℕ) := by
  have hall : (digits.map digitChar).takeWhile Char.isDigit = digits.map digitChar := by
    refine List.takeWhile_eq_self_iff.mpr fun c hmem => ?_
    obtain ⟨digit, _, rfl⟩ := List.mem_map.mp hmem
    exact isDigit_digitChar digit
  rw [leadingValue, hall, digitsValue, List.foldl_map]
  simp only [toNat_digitChar]

/-- `strtol` reads every decimal number, up to saturation. -/
theorem strtol_text (n : Decimal) : strtol n.text = saturate n.value := by
  obtain ⟨sign, digits, hdigits⟩ := n
  cases sign with
  | minus => simp [strtol, Decimal.text, Decimal.value, Decimal.magnitude, Sign.text, isSpace,
      leadingValue_digits]
  | plus => simp [strtol, Decimal.text, Decimal.value, Decimal.magnitude, Sign.text, isSpace,
      leadingValue_digits]
  | none =>
    obtain ⟨digit, digits, rfl⟩ := List.exists_cons_of_ne_nil hdigits
    obtain ⟨hspace, hminus, hplus⟩ := digitChar_plain digit
    have hvalue := leadingValue_digits (digit :: digits)
    rw [List.map_cons] at hvalue
    simp [strtol, Decimal.text, Decimal.value, Decimal.magnitude, Sign.text, hspace, hminus,
      hplus, hvalue]

/-- The numbers of an `int`. -/
def Fits (value : ℤ) : Prop := -2147483648 ≤ value ∧ value ≤ 2147483647

instance (value : ℤ) : Decidable (Fits value) := inferInstanceAs (Decidable (_ ∧ _))

/-- `atoi` gives the number that is written if and only if it fits into an `int`. -/
theorem toInt_atoi_eq_iff (n : Decimal) : (atoi n.text).toInt = n.value ↔ Fits n.value := by
  constructor
  · intro heq
    rw [← heq]
    exact ⟨Int32.le_toInt _, Int32.toInt_le _⟩
  · rintro ⟨hlow, hhigh⟩
    have hsaturate : saturate n.value = n.value := by
      rw [saturate, if_neg (by omega), if_neg (by omega)]
    rw [atoi, strtol_text, hsaturate]
    exact Int32.toInt_ofInt_of_le hlow (Int.lt_add_one_of_le hhigh)

end IpcBench.Lib
