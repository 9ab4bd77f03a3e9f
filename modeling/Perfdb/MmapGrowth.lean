import Mathlib
import Perfdb.MmapAppend

set_option autoImplicit false

namespace Perfdb.Mmap

def doubled (capacity : Nat) : Nat := max (saturatingMul capacity 2) initialFileSize

/-- The loop of `grow` as it is written, for at most so many turns. -/
def growLoop (needed : Nat) : Nat → Nat → Option Nat
  | 0, _ => none
  | turns + 1, capacity =>
      if capacity < needed then growLoop needed turns (doubled capacity) else some capacity

section Growth

variable {needed capacity turns result : Nat}

theorem doubled_large (capacity : Nat) : 2 ^ 22 ≤ doubled capacity := by
  simp only [doubled, initialFileSize]
  omega

/-- From a capacity of two to some power the loop is through when the powers are used up. -/
theorem growLoop_ends (bounded : needed < 2 ^ 64) (turns power : Nat) (enough : 64 ≤ power + turns)
    (large : min (2 ^ power) (2 ^ 64 - 1) ≤ capacity) :
    ∃ result, growLoop needed (turns + 1) capacity = some result := by
  induction turns generalizing power capacity with
  | zero =>
      have top : 2 ^ 64 ≤ 2 ^ power := Nat.pow_le_pow_right (by omega) (by omega)
      refine ⟨capacity, ?_⟩
      rw [growLoop, if_neg (by omega)]
  | succ turns ih =>
      rw [growLoop]
      by_cases short : capacity < needed
      · rw [if_pos short]
        apply ih (power + 1) (by omega)
        simp only [doubled, saturatingMul, Nat.pow_succ]
        omega
      · exact ⟨capacity, if_neg short⟩

theorem growLoop_enough (ended : growLoop needed turns capacity = some result) :
    needed ≤ result := by
  induction turns generalizing capacity with
  | zero => cases ended
  | succ turns ih =>
      rw [growLoop] at ended
      split at ended
      · exact ih ended
      · rename_i done
        rw [← Option.some.inj ended]
        omega

theorem doubled_bounded (capacity : Nat) : doubled capacity < 2 ^ 64 := by
  simp only [doubled, saturatingMul, initialFileSize]
  omega

theorem growLoop_bounded (start : capacity < 2 ^ 64)
    (ended : growLoop needed turns capacity = some result) : result < 2 ^ 64 := by
  induction turns generalizing capacity with
  | zero => cases ended
  | succ turns ih =>
      rw [growLoop] at ended
      split at ended
      · exact ih (doubled_bounded capacity) ended
      · rw [← Option.some.inj ended]
        exact start

/-- The capacity that `grow` takes is what this loop ends at: no `u64` is above the greatest. -/
theorem growLoop_grownCapacity (bounded : needed < 2 ^ 64)
    (ended : growLoop needed turns capacity = some result) :
    MmapFile.grownCapacity capacity needed = result := by
  induction turns generalizing capacity with
  | zero => cases ended
  | succ turns ih =>
      rw [growLoop] at ended
      rw [MmapFile.grownCapacity]
      split at ended
      · rename_i short
        rw [if_pos ⟨short, by omega⟩]
        exact ih ended
      · rename_i done
        rw [if_neg fun both => done both.1]
        exact Option.some.inj ended

/-- The loop never doubles a capacity that is enough. -/
theorem growLoop_lt (near : needed ≤ 2 ^ 62) (start : capacity < 2 * max needed initialFileSize)
    (ended : growLoop needed turns capacity = some result) :
    result < 2 * max needed initialFileSize :=
  growLoop_grownCapacity (by omega) ended ▸ grownCapacity_lt near start

end Growth

/-- The loop ends after at most 43 doublings at a capacity that is enough, which is what `grow`
takes; up to 2^62 bytes it is less than twice what is needed, and the header still fits. -/
theorem growth_bounded (capacity needed : UInt64) (short : capacity < needed) :
    ∃ result, growLoop needed.toNat 44 capacity.toNat = some result ∧
      MmapFile.grownCapacity capacity.toNat needed.toNat = result ∧
      needed.toNat ≤ result ∧ result < 2 ^ 64 ∧
      (needed.toNat ≤ 2 ^ 62 →
        result < 2 * max needed.toNat initialFileSize ∧
          Overflow.checked.add headerSize result = .ok (headerSize + result)) := by
  have bounded := needed.toNat_lt
  have below : capacity.toNat < needed.toNat := UInt64.lt_iff_toNat_lt.mp short
  have large := doubled_large capacity.toNat
  obtain ⟨result, ended⟩ := growLoop_ends bounded 42 22 (by omega)
    (show min (2 ^ 22) (2 ^ 64 - 1) ≤ doubled capacity.toNat by omega)
  have whole : growLoop needed.toNat 44 capacity.toNat = some result := by
    rw [growLoop, if_pos below]
    exact ended
  refine ⟨result, whole, growLoop_grownCapacity bounded whole, growLoop_enough whole,
    growLoop_bounded capacity.toNat_lt whole, fun near => ?_⟩
  have close : result < 2 * max needed.toNat initialFileSize := by
    apply growLoop_lt near _ whole
    omega
  refine ⟨close, Overflow.add_ok ?_⟩
  simp only [headerSize, initialFileSize] at close ⊢
  omega

theorem growth_bounded_empty :
    ∃ result, growLoop (5 * 1024 * 1024 : UInt64).toNat 44 (0 : UInt64).toNat = some result ∧
      MmapFile.grownCapacity (0 : UInt64).toNat (5 * 1024 * 1024 : UInt64).toNat = result ∧
      (5 * 1024 * 1024 : UInt64).toNat ≤ result ∧ result < 2 ^ 64 ∧
      ((5 * 1024 * 1024 : UInt64).toNat ≤ 2 ^ 62 →
        result < 2 * max (5 * 1024 * 1024 : UInt64).toNat initialFileSize ∧
          Overflow.checked.add headerSize result = .ok (headerSize + result)) :=
  growth_bounded 0 (5 * 1024 * 1024) (by decide)

end Perfdb.Mmap
