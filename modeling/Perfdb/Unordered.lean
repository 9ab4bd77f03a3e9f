import Mathlib

set_option autoImplicit false

/-! Containers that are listed in an order nobody promises: hash maps and directories. -/

namespace Perfdb

/-- Some order to list the items of an unordered container in. -/
structure Iteration where
  arrange : {α : Type} → List α → List α
  perm : ∀ {α : Type} (items : List α), (arrange items).Perm items

/-- The order the items are kept in. -/
def Iteration.stored : Iteration := ⟨fun items => items, fun _ => List.Perm.refl _⟩

@[simp] theorem Iteration.mem_arrange (order : Iteration) {α : Type} (items : List α) (item : α) :
    item ∈ order.arrange items ↔ item ∈ items :=
  (order.perm items).mem_iff

theorem insertionSort_eq_of_mem {front back : List Nat} (nodup : front.Nodup)
    (sorted : back.Pairwise (· < ·)) (same : ∀ n, n ∈ front ↔ n ∈ back) :
    front.insertionSort (· ≤ ·) = back := by
  have perm : front.Perm back :=
    (List.perm_ext_iff_of_nodup nodup (sorted.imp Nat.ne_of_lt)).mpr same
  have left : (front.insertionSort (· ≤ ·)).Pairwise (· ≤ ·) :=
    List.pairwise_insertionSort (· ≤ ·) front
  have right : back.Pairwise (· ≤ ·) := sorted.imp Nat.le_of_lt
  exact ((List.perm_insertionSort (· ≤ ·) front).trans perm).eq_of_pairwise'
    left right

end Perfdb
