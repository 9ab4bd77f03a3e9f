import Mathlib

set_option autoImplicit false

namespace Perfdb

variable {α : Type}

/-- `slice[start..stop]`; `none` where indexing panics. -/
def subslice (slice : List α) (start stop : Nat) : Option (List α) :=
  if start ≤ stop ∧ stop ≤ slice.length then some ((slice.take stop).drop start) else none

/-- The loop of `binary_search_by`: the window has `size` items and starts at `base`. -/
def bisect (p : α → Bool) (slice : List α) (base size : Nat) : Nat :=
  if 1 < size then
    let half := size / 2
    bisect p slice (if slice[base + half]?.any p then base + half else base) (size - half)
  else base
termination_by size

def partitionPoint (p : α → Bool) (slice : List α) : Nat :=
  if slice.isEmpty then 0
  else
    let base := bisect p slice 0 slice.length
    if slice[base]?.any p then base + 1 else base

/-- The items with the property stand in front of the others. -/
def Partitioned (p : α → Bool) (slice : List α) : Prop :=
  slice.Pairwise fun a b => p b = true → p a = true

namespace Partitioned

variable {p q : α → Bool} {slice : List α}

theorem split (parts : Partitioned p slice) :
    slice.filter p ++ slice.filter (fun a => !p a) = slice := by
  induction slice with
  | nil => rfl
  | cons a slice ih =>
      obtain ⟨head, tail⟩ := List.pairwise_cons.mp parts
      cases holds : p a with
      | true =>
          rw [List.filter_cons_of_pos holds, List.filter_cons_of_neg (by simp [holds])]
          rw [List.cons_append, ih tail]
      | false =>
          have none : slice.filter p = [] := by
            rw [List.filter_eq_nil_iff]
            intro b member found
            rw [head b member found] at holds
            contradiction
          have all := ih tail
          rw [none, List.nil_append] at all
          rw [List.filter_cons_of_neg (by simp [holds]), List.filter_cons_of_pos (by simp [holds]),
            none, all, List.nil_append]

/-- An item has the property exactly when it stands before the end of the front part. -/
theorem any_getElem? (parts : Partitioned p slice) {index : Nat} :
    slice[index]?.any p = true ↔ index < (slice.filter p).length := by
  conv_lhs => rw [← parts.split]
  by_cases front : index < (slice.filter p).length
  · rw [List.getElem?_append_left front, List.getElem?_eq_getElem front]
    exact iff_of_true (List.mem_filter.mp (List.getElem_mem front)).2 front
  · refine iff_of_false (fun found => ?_) front
    rw [List.getElem?_append_right (Nat.le_of_not_lt front)] at found
    cases there : (slice.filter fun a => !p a)[index - (slice.filter p).length]? with
    | none =>
        rw [there] at found
        contradiction
    | some item =>
        have outside := (List.mem_filter.mp (List.mem_of_getElem? there)).2
        rw [there, Option.any_some] at found
        rw [found] at outside
        contradiction

/-- The window always holds the end of the front part. -/
theorem bisect_spec (parts : Partitioned p slice) {base size : Nat} (some : 0 < size)
    (inside : base + size ≤ slice.length) (after : base ≤ (slice.filter p).length)
    (before : (slice.filter p).length ≤ base + size) :
    bisect p slice base size < slice.length ∧
      bisect p slice base size ≤ (slice.filter p).length ∧
      (slice.filter p).length ≤ bisect p slice base size + 1 := by
  induction base, size using bisect.induct p slice with
  | case1 base size more half ih =>
      have smaller : half = size / 2 := rfl
      rw [bisect, if_pos more]
      by_cases found : slice[base + size / 2]?.any p = true
      · have ahead := parts.any_getElem?.mp found
        simp only [smaller, found, ↓reduceDIte] at ih
        simp only [found, ↓reduceIte]
        exact ih (by omega) (by omega) (by omega) (by omega)
      · have behind := mt parts.any_getElem?.mpr found
        simp only [smaller, found, Bool.false_eq_true, ↓reduceDIte] at ih
        simp only [found, Bool.false_eq_true, ↓reduceIte]
        exact ih (by omega) (by omega) after (by omega)
  | case2 base size less =>
      rw [bisect, if_neg less]
      omega

theorem partitionPoint_eq (parts : Partitioned p slice) :
    partitionPoint p slice = (slice.filter p).length := by
  unfold partitionPoint
  cases slice with
  | nil => rfl
  | cons a slice =>
      have front := List.length_filter_le p (a :: slice)
      have positive : 0 < (a :: slice).length := Nat.succ_pos _
      obtain ⟨inside, after, before⟩ := parts.bisect_spec positive
        (Nat.le_of_eq (Nat.zero_add _)) (Nat.zero_le _) (by omega)
      rw [if_neg (by simp)]
      generalize bisect p (a :: slice) 0 (a :: slice).length = base at *
      simp only
      split
      · rename_i found
        have ahead := parts.any_getElem?.mp found
        omega
      · rename_i missing
        have behind := mt parts.any_getElem?.mpr missing
        omega

theorem partitionPoint_le_iff (first : Partitioned p slice) (second : Partitioned q slice) :
    partitionPoint p slice ≤ partitionPoint q slice ↔ ∀ a ∈ slice, p a = true → q a = true := by
  rw [first.partitionPoint_eq, second.partitionPoint_eq]
  constructor
  · intro ordered a member holds
    obtain ⟨index, found⟩ := List.mem_iff_getElem?.mp member
    have front : index < (slice.filter p).length :=
      first.any_getElem?.mp (by rw [found]; exact holds)
    have other : slice[index]?.any q = true := second.any_getElem?.mpr (by omega)
    rwa [found] at other
  · intro within
    rw [← List.countP_eq_length_filter, ← List.countP_eq_length_filter]
    exact List.countP_mono_left within

theorem take_partitionPoint (parts : Partitioned p slice) :
    slice.take (partitionPoint p slice) = slice.filter p := by
  conv_lhs => rw [parts.partitionPoint_eq, ← parts.split]
  simp

theorem drop_partitionPoint (parts : Partitioned p slice) :
    slice.drop (partitionPoint p slice) = slice.filter (fun a => !p a) := by
  rw [parts.partitionPoint_eq]
  nth_rewrite 2 [← parts.split]
  simp

end Partitioned

end Perfdb
