import Mathlib

set_option autoImplicit false

/-! Machine numbers Lean does not have: signed 128-bit integers, and IEEE floats
as the bit patterns they are stored as. Arithmetic wraps, as in a release build. -/

namespace Perfdb

/-- `i128` in two's complement. -/
structure I128 where
  bits : BitVec 128
  deriving DecidableEq

namespace I128

def toInt (x : I128) : Int := x.bits.toInt

def ofInt (n : Int) : I128 := ⟨BitVec.ofInt 128 n⟩

instance (n : Nat) : OfNat I128 n := ⟨ofInt n⟩

instance : Add I128 := ⟨fun x y => ⟨x.bits + y.bits⟩⟩
instance : Sub I128 := ⟨fun x y => ⟨x.bits - y.bits⟩⟩
instance : Neg I128 := ⟨fun x => ⟨-x.bits⟩⟩

/-- Division truncates toward zero. -/
instance : Div I128 := ⟨fun x y => ⟨x.bits.sdiv y.bits⟩⟩

instance : LT I128 := ⟨fun x y => x.toInt < y.toInt⟩
instance : LE I128 := ⟨fun x y => x.toInt ≤ y.toInt⟩

instance (x y : I128) : Decidable (x < y) := inferInstanceAs (Decidable (x.toInt < y.toInt))
instance (x y : I128) : Decidable (x ≤ y) := inferInstanceAs (Decidable (x.toInt ≤ y.toInt))

/-- `Ord::max`: the second argument when the two compare equal. -/
instance : Max I128 := ⟨fun x y => if y < x then x else y⟩

instance : Ord I128 := ⟨compareOn toInt⟩

theorem toInt_injective {x y : I128} (same : x.toInt = y.toInt) : x = y := by
  obtain ⟨x⟩ := x
  obtain ⟨y⟩ := y
  exact congrArg I128.mk (BitVec.eq_of_toInt_eq same)

instance : Std.TransOrd I128 := inferInstanceAs (Std.TransCmp (compareOn toInt))

instance : Std.LawfulEqOrd I128 where
  eq_of_compare {x y} same := by
    change compare x.toInt y.toInt = .eq at same
    exact toInt_injective (Std.LawfulEqCmp.eq_of_compare same)
  compare_self {x} := by
    change compare x.toInt x.toInt = .eq
    exact Std.ReflCmp.compare_self

/-- Adding changes nothing exactly when the summand is zero, wrapping included. -/
@[simp] theorem add_eq_self_iff (x y : I128) : x + y = x ↔ y = 0 := by
  obtain ⟨x⟩ := x
  obtain ⟨y⟩ := y
  change I128.mk (x + y) = I128.mk x ↔ I128.mk y = I128.mk 0
  rw [I128.mk.injEq, I128.mk.injEq]
  exact add_eq_left

@[simp] theorem sub_zero (x : I128) : x - 0 = x := by
  obtain ⟨x⟩ := x
  exact congrArg I128.mk (BitVec.sub_zero x)

theorem toInt_add {x y : I128} (low : -2 ^ 127 ≤ x.toInt + y.toInt)
    (high : x.toInt + y.toInt < 2 ^ 127) : (x + y).toInt = x.toInt + y.toInt := by
  change (x.bits + y.bits).toInt = _
  rw [BitVec.toInt_add]
  exact Int.bmod_eq_of_le (by simpa [toInt] using low) (by simpa [toInt] using high)

theorem toInt_sub {x y : I128} (low : -2 ^ 127 ≤ x.toInt - y.toInt)
    (high : x.toInt - y.toInt < 2 ^ 127) : (x - y).toInt = x.toInt - y.toInt := by
  change (x.bits - y.bits).toInt = _
  rw [BitVec.toInt_sub]
  exact Int.bmod_eq_of_le (by simpa [toInt] using low) (by simpa [toInt] using high)

@[simp] theorem toInt_zero : (0 : I128).toInt = 0 := rfl

theorem max_eq_left {x y : I128} (le : y.toInt ≤ x.toInt) : max x y = x := by
  change (if y.toInt < x.toInt then x else y) = x
  split
  · rfl
  · exact toInt_injective (by omega)

/-- Wrapping addition is that of a group. -/
instance : AddCommGroup I128 where
  zero := 0
  add_assoc x y z := congrArg mk (BitVec.add_assoc x.bits y.bits z.bits)
  add_comm x y := congrArg mk (BitVec.add_comm x.bits y.bits)
  zero_add x := congrArg mk (BitVec.zero_add x.bits)
  add_zero x := congrArg mk (BitVec.add_zero x.bits)
  neg_add_cancel x := congrArg mk (BitVec.add_left_neg x.bits)
  sub_eq_add_neg x y := congrArg mk (BitVec.sub_eq_add_neg x.bits y.bits)
  nsmul := nsmulRec
  zsmul := zsmulRec

end I128

/-- `f64` by its bits. -/
structure F64 where
  bits : UInt64
  deriving DecidableEq

namespace F64

/-- Exponent and fraction without the sign. -/
def magnitude (x : F64) : Nat := x.bits.toNat % 2 ^ 63

def negative (x : F64) : Bool := decide (2 ^ 63 ≤ x.bits.toNat)

/-- All exponent bits set and a fraction that is not zero. -/
def isNaN (x : F64) : Bool := decide (0x7FF0000000000000 < x.magnitude)

/-- Sign and magnitude as one number: it orders the numbers, infinities
included, and gives both zeros the same place. -/
def key (x : F64) : Int := if x.negative then -(x.magnitude : Int) else x.magnitude

/-- The comparison of the hardware: false as soon as one side is a NaN. -/
instance : LT F64 := ⟨fun x y => x.isNaN = false ∧ y.isNaN = false ∧ x.key < y.key⟩

instance (x y : F64) : Decidable (x < y) :=
  inferInstanceAs (Decidable (x.isNaN = false ∧ y.isNaN = false ∧ x.key < y.key))

def zero : F64 := ⟨0⟩

theorem lt_iff {x y : F64} (hx : x.isNaN = false) (hy : y.isNaN = false) :
    x < y ↔ x.key < y.key := by
  constructor
  · rintro ⟨_, _, below⟩
    exact below
  · intro below
    exact ⟨hx, hy, below⟩

end F64

/-- `f32` by its bits. -/
structure F32 where
  bits : UInt32
  deriving DecidableEq

def F32.zero : F32 := ⟨0⟩

end Perfdb
