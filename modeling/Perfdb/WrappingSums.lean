import Mathlib
import Perfdb.MachineNumbers

set_option autoImplicit false

namespace Perfdb

namespace I128

@[simp] theorem ofInt_toInt (x : I128) : ofInt x.toInt = x := by
  obtain ⟨bits⟩ := x
  exact congrArg mk BitVec.ofInt_toInt

theorem ofInt_add (m n : Int) : ofInt (m + n) = ofInt m + ofInt n :=
  congrArg mk (BitVec.ofInt_add m n)

theorem ofInt_neg (n : Int) : ofInt (-n) = -ofInt n :=
  congrArg mk BitVec.ofInt_neg

/-- An integer within the type's range is itself there. -/
theorem toInt_ofInt {n : Int} (low : -2 ^ 127 ≤ n) (high : n < 2 ^ 127) : (ofInt n).toInt = n := by
  change (BitVec.ofInt 128 n).toInt = n
  rw [BitVec.toInt_ofInt]
  exact Int.bmod_eq_of_le (by simpa using low) (by simpa using high)

theorem sum_ofInt (values : List Int) : (values.map ofInt).sum = ofInt values.sum := by
  induction values with
  | nil => rfl
  | cons value values ih => rw [List.map_cons, List.sum_cons, List.sum_cons, ih, ofInt_add]

theorem toInt_lt_iff (x y : I128) : x < y ↔ x.toInt < y.toInt := Iff.rfl

/-- The greater one, as it is taken over in a comparison. -/
theorem toInt_ite_lt (x y : I128) : (if x < y then y else x).toInt = max x.toInt y.toInt := by
  by_cases less : x < y
  · rw [if_pos less]
    exact (max_eq_right_of_lt ((toInt_lt_iff x y).mp less)).symm
  · rw [if_neg less]
    exact (Int.max_eq_left (Int.not_lt.mp less)).symm

theorem toInt_ite_gt (x y : I128) : (if y < x then y else x).toInt = min x.toInt y.toInt := by
  by_cases less : y < x
  · rw [if_pos less]
    exact (min_eq_right_of_lt ((toInt_lt_iff y x).mp less)).symm
  · rw [if_neg less]
    exact (Int.min_eq_left (Int.not_lt.mp less)).symm

end I128

end Perfdb
