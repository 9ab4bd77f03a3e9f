import Mathlib

set_option autoImplicit false

namespace Perfdb

def digitsValue (digits : List Char) : Nat := Nat.ofDigitChars 10 digits 0

/-- Digits, and if a point follows more digits behind it. -/
def readUnsigned (text : List Char) : Option ℚ :=
  let whole := text.takeWhile Char.isDigit
  if whole = [] then none
  else
    match text.dropWhile Char.isDigit with
    | [] => some (digitsValue whole)
    | point :: fraction =>
        if point = '.' ∧ fraction ≠ [] ∧ fraction.all Char.isDigit then
          some (digitsValue whole + digitsValue fraction / 10 ^ fraction.length)
        else none

/-- A decimal number, behind a minus sign or not. -/
def readDecimal : List Char → Option ℚ
  | '-' :: text => (readUnsigned text).map fun value => -value
  | text => readUnsigned text

section Read

theorem toDigits_all_isDigit (n : Nat) : ∀ c ∈ Nat.toDigits 10 n, c.isDigit = true :=
  fun _ member => Nat.isDigit_of_mem_toDigits (by decide) (by decide) member

theorem digitsValue_toDigits (n : Nat) : digitsValue (Nat.toDigits 10 n) = n :=
  Nat.ofDigitChars_ten_toDigits

theorem readUnsigned_whole (n : Nat) : readUnsigned (Nat.toDigits 10 n) = some (n : ℚ) := by
  have digits := toDigits_all_isDigit n
  have taken : (Nat.toDigits 10 n).takeWhile Char.isDigit = Nat.toDigits 10 n :=
    List.takeWhile_eq_self_iff.mpr digits
  have dropped : (Nat.toDigits 10 n).dropWhile Char.isDigit = [] :=
    List.dropWhile_eq_nil_iff.mpr digits
  simp only [readUnsigned, taken, dropped, if_neg (Nat.toDigits_ne_nil), digitsValue_toDigits]

theorem readUnsigned_fraction (n : Nat) {fraction : List Char} (some' : fraction ≠ [])
    (digits : ∀ c ∈ fraction, c.isDigit = true) :
    readUnsigned (Nat.toDigits 10 n ++ '.' :: fraction) =
      some ((n : ℚ) + digitsValue fraction / 10 ^ fraction.length) := by
  have front := toDigits_all_isDigit n
  have taken : (Nat.toDigits 10 n ++ '.' :: fraction).takeWhile Char.isDigit =
      Nat.toDigits 10 n := by
    rw [List.takeWhile_append_of_pos front, List.takeWhile_cons_of_neg (by decide),
      List.append_nil]
  have dropped : (Nat.toDigits 10 n ++ '.' :: fraction).dropWhile Char.isDigit =
      '.' :: fraction := by
    rw [List.dropWhile_append_of_pos front, List.dropWhile_cons_of_neg (by decide)]
  have read : fraction ≠ [] ∧ fraction.all Char.isDigit :=
    ⟨some', List.all_eq_true.mpr digits⟩
  simp only [readUnsigned, taken, dropped, if_neg (Nat.toDigits_ne_nil), digitsValue_toDigits,
    true_and, if_pos read]

theorem readDecimal_unsigned {c : Char} {text : List Char} (digit : c.isDigit = true) :
    readDecimal (c :: text) = readUnsigned (c :: text) := by
  unfold readDecimal
  split
  · rename_i same
    rw [(List.cons.inj same).1] at digit
    exact absurd digit (by decide)
  · rfl

end Read

section Zeros

theorem digitsValue_append (front back : List Char) :
    digitsValue (front ++ back) = Nat.ofDigitChars 10 back (digitsValue front) :=
  Nat.ofDigitChars_append 0

theorem digitsValue_leftpad (n : Nat) (digits : List Char) :
    digitsValue (digits.leftpad n '0') = digitsValue digits := by
  rw [List.leftpad, digitsValue_append, digitsValue, Nat.ofDigitChars_replicate_zero, Nat.mul_zero]
  rfl

/-- Neither do zeros at the end of a fraction. -/
theorem fraction_rdropWhile (digits : List Char) :
    (digitsValue (digits.rdropWhile (· = '0')) : ℚ) / 10 ^ (digits.rdropWhile (· = '0')).length =
      digitsValue digits / 10 ^ digits.length := by
  have split := digits.rdropWhile_append_rtakeWhile (p := (· = '0'))
  generalize digits.rdropWhile (· = '0') = front at split ⊢
  have zeros : digits.rtakeWhile (· = '0') =
      List.replicate (digits.rtakeWhile (· = '0')).length '0' :=
    List.eq_replicate_of_mem fun c member => by
      simpa using List.mem_rtakeWhile_imp member
  generalize (digits.rtakeWhile (· = '0')).length = k at zeros
  rw [zeros] at split
  have value : digitsValue digits = 10 ^ k * digitsValue front := by
    rw [← split, digitsValue_append, Nat.ofDigitChars_replicate_zero]
  have length : digits.length = front.length + k := by
    rw [← split, List.length_append, List.length_replicate]
  rw [value, length, pow_add, mul_comm ((10 : ℚ) ^ front.length)]
  push_cast
  rw [mul_div_mul_left _ _ (by positivity)]

/-- Padded on the left and trimmed on the right, a fraction keeps its value. -/
theorem fraction_value {n k : Nat} (fits : n < 10 ^ k) (positive : 0 < k) :
    (digitsValue (((Nat.toDigits 10 n).leftpad k '0').rdropWhile (· = '0')) : ℚ) /
      10 ^ (((Nat.toDigits 10 n).leftpad k '0').rdropWhile (· = '0')).length = n / 10 ^ k := by
  have short : (Nat.toDigits 10 n).length ≤ k :=
    (Nat.length_toDigits_le_iff (by decide) positive).mpr fits
  rw [fraction_rdropWhile, digitsValue_leftpad, digitsValue_toDigits, List.length_leftpad,
    max_eq_left short]

theorem fraction_ne_nil {n k : Nat} (positive : 0 < n) :
    ((Nat.toDigits 10 n).leftpad k '0').rdropWhile (· = '0') ≠ [] := by
  intro empty
  have split := ((Nat.toDigits 10 n).leftpad k '0').rdropWhile_append_rtakeWhile (p := (· = '0'))
  have zeros := List.rdropWhile_eq_nil_iff.mp empty
  have same : (Nat.toDigits 10 n).leftpad k '0' =
      List.replicate ((Nat.toDigits 10 n).leftpad k '0').length '0' :=
    List.eq_replicate_of_mem fun c member => by simpa using zeros c member
  have value : digitsValue ((Nat.toDigits 10 n).leftpad k '0') = 0 := by
    rw [same, digitsValue, Nat.ofDigitChars_replicate_zero, Nat.mul_zero]
  rw [digitsValue_leftpad, digitsValue_toDigits] at value
  omega

theorem fraction_isDigit (n k : Nat) :
    ∀ c ∈ ((Nat.toDigits 10 n).leftpad k '0').rdropWhile (· = '0'), c.isDigit = true := by
  intro c member
  have inside := (List.rdropWhile_prefix _ _).subset member
  rw [List.leftpad, List.mem_append] at inside
  rcases inside with zero | digit
  · rw [List.eq_of_mem_replicate zero]
    decide
  · exact toDigits_all_isDigit n c digit

end Zeros

end Perfdb
