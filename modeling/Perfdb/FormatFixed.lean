import Mathlib
import Perfdb.MachineNumbers
import Perfdb.DecimalText

set_option autoImplicit false

namespace Perfdb

/-- `Display` of an integer. -/
def displayInt (n : Int) : List Char :=
  if n < 0 then '-' :: Nat.toDigits 10 n.natAbs else Nat.toDigits 10 n.natAbs

/-- One unit of an amount with 18 decimals. -/
def precision : Int := 1000000000000000000

/-- Division and remainder truncate toward zero. -/
def formatFixed (val : I128) : String :=
  if val = 0 then "0"
  else
    let whole := val.toInt.tdiv precision
    let frac := (val.toInt.tmod precision).natAbs
    if frac = 0 then String.ofList (displayInt whole)
    else
      let fracStr := (Nat.toDigits 10 frac).leftpad 18 '0'
      String.ofList (displayInt whole ++ '.' :: fracStr.rdropWhile (· = '0'))

/-- The digits of an amount without its sign. -/
def magnitudeText (n : Nat) : List Char :=
  if n % 1000000000000000000 = 0 then Nat.toDigits 10 (n / 1000000000000000000)
  else Nat.toDigits 10 (n / 1000000000000000000) ++ '.' ::
    ((Nat.toDigits 10 (n % 1000000000000000000)).leftpad 18 '0').rdropWhile (· = '0')

theorem tdiv_neg_iff (v : Int) : v.tdiv precision < 0 ↔ v ≤ -precision := by
  have units : (v.tdiv precision).natAbs = v.natAbs / 1000000000000000000 := Int.natAbs_tdiv _ _
  unfold precision at units ⊢
  rcases Int.le_total 0 v with positive | negative
  · have whole : 0 ≤ v.tdiv 1000000000000000000 := Int.tdiv_nonneg positive (by decide)
    omega
  · have whole : 0 ≤ (-v).tdiv 1000000000000000000 := Int.tdiv_nonneg (by omega) (by decide)
    rw [Int.neg_tdiv] at whole
    omega

/-- A minus sign is printed for amounts of whole units only. -/
theorem formatFixed_eq (val : I128) : (formatFixed val).toList =
    if val.toInt ≤ -precision then '-' :: magnitudeText val.toInt.natAbs
    else magnitudeText val.toInt.natAbs := by
  have fraction : (val.toInt.tmod precision).natAbs = val.toInt.natAbs % 1000000000000000000 :=
    Int.natAbs_tmod _ _
  have units : (val.toInt.tdiv precision).natAbs = val.toInt.natAbs / 1000000000000000000 :=
    Int.natAbs_tdiv _ _
  unfold formatFixed
  by_cases zero : val = 0
  · subst zero
    decide +kernel
  · rw [if_neg zero]
    simp only [fraction, displayInt, units, tdiv_neg_iff, magnitudeText]
    split <;> split <;> simp only [String.toList_ofList, List.cons_append]

/-- The amount the print is read as: the sign of an amount below one unit is lost. -/
def shown (v : Int) : Int := if v ≤ -precision then v else v.natAbs

theorem readUnsigned_magnitude (n : Nat) :
    readUnsigned (magnitudeText n) = some ((n : ℚ) / 1000000000000000000) := by
  have split : 1000000000000000000 * ((n / 1000000000000000000 : Nat) : ℚ) +
      (n % 1000000000000000000 : Nat) = n := by
    exact_mod_cast Nat.div_add_mod n 1000000000000000000
  have below : n % 1000000000000000000 < 10 ^ 18 := Nat.mod_lt _ (by decide)
  unfold magnitudeText
  generalize n / 1000000000000000000 = units at split ⊢
  generalize n % 1000000000000000000 = rest at split below ⊢
  by_cases whole : rest = 0
  · rw [if_pos whole, readUnsigned_whole, ← split, whole]
    congr 1
    norm_num
  · rw [if_neg whole, readUnsigned_fraction units (fraction_ne_nil (Nat.pos_of_ne_zero whole))
      (fraction_isDigit rest 18), fraction_value below (by decide), ← split]
    congr 1
    ring

theorem magnitudeText_digit (n : Nat) :
    ∃ c text, magnitudeText n = c :: text ∧ c.isDigit = true := by
  obtain ⟨c, rest, digits⟩ := List.exists_cons_of_ne_nil
    (Nat.toDigits_ne_nil : Nat.toDigits 10 (n / 1000000000000000000) ≠ [])
  have digit := toDigits_all_isDigit (n / 1000000000000000000) c (by rw [digits]; simp)
  unfold magnitudeText
  rw [digits]
  split
  · exact ⟨c, rest, rfl, digit⟩
  · exact ⟨c, _, rfl, digit⟩

theorem readDecimal_formatFixed (val : I128) :
    readDecimal (formatFixed val).toList = some ((shown val.toInt : ℚ) / 1000000000000000000) := by
  rw [formatFixed_eq, shown]
  split
  · rename_i negative
    have size : (val.toInt.natAbs : ℚ) = -(val.toInt : ℚ) := by
      have below : (val.toInt.natAbs : Int) = -val.toInt := by
        unfold precision at negative
        omega
      rw [← Int.cast_natCast, below, Int.cast_neg]
    rw [readDecimal, readUnsigned_magnitude, Option.map_some, size]
    congr 1
    ring
  · obtain ⟨c, text, shape, digit⟩ := magnitudeText_digit val.toInt.natAbs
    rw [shape, readDecimal_unsigned digit, ← shape, readUnsigned_magnitude,
      Int.cast_natCast]

/-- The print, read as a decimal number of units, is the amount. -/
def Faithful (val : I128) : Prop :=
  (readDecimal (formatFixed val).toList).map (fun units => units * 1000000000000000000) =
    some (val.toInt : ℚ)

theorem formatFixed_eq_iff {val other : I128} :
    formatFixed val = formatFixed other ↔ shown val.toInt = shown other.toInt := by
  constructor
  · intro same
    have read := readDecimal_formatFixed val
    rw [same, readDecimal_formatFixed other, Option.some.injEq] at read
    have scaled := (div_left_inj' (by norm_num)).mp read
    exact_mod_cast scaled.symm
  · intro same
    apply String.toList_inj.mp
    rw [formatFixed_eq, formatFixed_eq]
    unfold shown at same
    by_cases negative : val.toInt ≤ -precision
    · by_cases below : other.toInt ≤ -precision
      · rw [if_pos negative, if_pos below] at same
        rw [same]
      · rw [if_pos negative, if_neg below] at same
        unfold precision at negative
        omega
    · by_cases below : other.toInt ≤ -precision
      · rw [if_neg negative, if_pos below] at same
        unfold precision at below
        omega
      · rw [if_neg negative, if_neg below] at same
        rw [if_neg negative, if_neg below, Int.ofNat.inj same]

theorem faithful_iff (val : I128) : Faithful val ↔ 0 ≤ val.toInt ∨ val.toInt ≤ -precision := by
  have scale : (shown val.toInt : ℚ) / 1000000000000000000 * 1000000000000000000 =
      shown val.toInt := by
    ring
  rw [Faithful, readDecimal_formatFixed, Option.map_some, scale, Option.some.injEq, Int.cast_inj]
  unfold shown precision
  split <;> omega

/-- Exactly the amounts between minus one unit and zero are printed without their sign, and
exactly these print like another amount, their opposite. -/
theorem formatFixed_faithful (val : I128) :
    (Faithful val ↔ 0 ≤ val.toInt ∨ val.toInt ≤ -precision) ∧
      ∀ other : I128, formatFixed val = formatFixed other ∧ val ≠ other ↔
        val.toInt = -other.toInt ∧ val.toInt ≠ 0 ∧ -precision < val.toInt ∧
          val.toInt < precision := by
  refine ⟨faithful_iff val, fun other => ?_⟩
  have apart : val ≠ other ↔ val.toInt ≠ other.toInt :=
    not_congr ⟨congrArg I128.toInt, I128.toInt_injective⟩
  rw [formatFixed_eq_iff, apart]
  unfold shown precision
  split <;> split <;> omega

/-- Half a unit, owed or owned. -/
theorem half_unit_loses_sign : formatFixed (I128.ofInt (-500000000000000000)) = "0.5" ∧
    formatFixed (I128.ofInt 500000000000000000) = "0.5" ∧ ¬ ∀ val, Faithful val := by
  refine ⟨by decide +kernel, by decide +kernel, fun all => ?_⟩
  have read := (faithful_iff (I128.ofInt (-500000000000000000))).mp (all _)
  revert read
  decide

end Perfdb
