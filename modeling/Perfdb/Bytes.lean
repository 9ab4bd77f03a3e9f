import Mathlib

set_option autoImplicit false

namespace Perfdb

abbrev Bytes := List UInt8

namespace Bytes

/-- The `width` low bytes of a number, least significant first. -/
def le : Nat → Nat → Bytes
  | 0, _ => []
  | width + 1, n => UInt8.ofNat n :: le width (n / 256)

/-- The number a little-endian byte string stands for. -/
def ofLe : Bytes → Nat
  | [] => 0
  | byte :: rest => byte.toNat + 256 * ofLe rest

@[simp] theorem le_length (width n : Nat) : (le width n).length = width := by
  induction width generalizing n with
  | zero => rfl
  | succ width ih => simp only [le, List.length_cons, ih]

/-- Only the part of the number that fits the width is kept. -/
theorem ofLe_le_mod (width n : Nat) : ofLe (le width n) = n % 256 ^ width := by
  induction width generalizing n with
  | zero => simp only [le, ofLe, Nat.pow_zero, Nat.mod_one]
  | succ width ih =>
      have low : (UInt8.ofNat n).toNat = n % 256 := by simp
      rw [le, ofLe, ih, low, Nat.pow_succ, Nat.mul_comm (256 ^ width), Nat.mod_mul]

theorem ofLe_le (width n : Nat) (fits : n < 256 ^ width) : ofLe (le width n) = n := by
  rw [ofLe_le_mod, Nat.mod_eq_of_lt fits]

theorem le_ofLe (bytes : Bytes) : le bytes.length (ofLe bytes) = bytes := by
  induction bytes with
  | nil => rfl
  | cons byte rest ih =>
      have low : UInt8.ofNat (byte.toNat + 256 * ofLe rest) = byte := by
        rw [← UInt8.toNat_inj, UInt8.toNat_ofNat']
        have small := byte.toNat_lt
        omega
      have high : (byte.toNat + 256 * ofLe rest) / 256 = ofLe rest := by
        have small := byte.toNat_lt
        omega
      rw [List.length_cons, le, ofLe, low, high, ih]

/-- `read_exact`: the next `count` bytes and what follows them, or nothing when
the input is shorter. -/
def readExact (count : Nat) (unread : Bytes) : Option (Bytes × Bytes) :=
  if count ≤ unread.length then some (unread.take count, unread.drop count) else none

theorem readExact_append (front rest : Bytes) :
    readExact front.length (front ++ rest) = some (front, rest) := by
  simp [readExact]

theorem readExact_eq_some {count : Nat} {unread front rest : Bytes}
    (read : readExact count unread = some (front, rest)) :
    unread = front ++ rest ∧ front.length = count := by
  unfold readExact at read
  split at read
  · rename_i enough
    obtain ⟨rfl, rfl⟩ := Prod.mk.inj (Option.some.inj read)
    exact ⟨(List.take_append_drop count unread).symm, List.length_take_of_le enough⟩
  · contradiction

theorem readExact_eq_none {count : Nat} {unread : Bytes} (short : unread.length < count) :
    readExact count unread = none := by
  simp only [readExact, Nat.not_le.mpr short, ↓reduceIte]

end Bytes

end Perfdb
