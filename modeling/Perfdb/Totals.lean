import Mathlib
import Perfdb.Table

set_option autoImplicit false

namespace Perfdb.Table

variable {κ α M : Type} [Ord κ] [Std.TransOrd κ] [Std.LawfulEqOrd κ] [DecidableEq κ]
  [AddCommMonoid M]

omit [Std.TransOrd κ] [Std.LawfulEqOrd κ] [DecidableEq κ] in
/-- The sum of a weight of the values. -/
def total (weight : α → M) (table : Table κ α) : M :=
  (table.toList.map fun entry => weight entry.2).sum

/-- The weight of what is stored under a key. -/
def weightAt (weight : α → M) (table : Table κ α) (key : κ) : M :=
  (table[key]?.map weight).getD 0

section Total

variable (weight : α → M) (table : Table κ α) (key : κ)

omit [Std.LawfulEqOrd κ] [DecidableEq κ] in
@[simp] theorem total_empty : total weight (∅ : Table κ α) = 0 := by
  rw [total, Std.ExtTreeMap.toList_eq_nil_iff.mpr rfl]
  rfl

omit [Std.LawfulEqOrd κ] [DecidableEq κ] in
theorem total_eq_sum_all (order : Iteration) :
    total weight table = ((table.all order).map weight).sum := by
  rw [all, List.map_map]
  exact (((order.perm table.toList).map _).sum_eq).symm

omit [Std.LawfulEqOrd κ] [DecidableEq κ] in
theorem length_filter_all (order : Iteration) (p : α → Prop) [DecidablePred p] :
    ((table.all order).filter p).length = total (fun value => if p value then 1 else 0) table := by
  rw [total_eq_sum_all _ _ order, ← List.countP_eq_length_filter]
  induction table.all order with
  | nil => rfl
  | cons value values ih =>
      rw [List.countP_cons, List.map_cons, List.sum_cons, ih, Nat.add_comm]
      simp

omit [DecidableEq κ] in
/-- The total without a key, and what is stored under it. -/
theorem total_erase : total weight (table.erase key) + weightAt weight table key =
    total weight table := by
  classical
  have split : (table.toList).Perm
      ((table.erase key).toList ++ (table[key]?.map fun value => (key, value)).toList) := by
    refine (List.perm_ext_iff_of_nodup (nodup_toList table) ?_).mpr fun entry => ?_
    · refine (nodup_toList _).append ?_ ?_
      · cases table[key]? <;> simp
      · intro entry inside other
        obtain ⟨k, value⟩ := entry
        rw [Std.ExtTreeMap.mem_toList_iff_getElem?_eq_some, Std.ExtTreeMap.getElem?_erase] at inside
        simp only [Option.mem_toList, Option.map_eq_some_iff, Prod.mk.injEq] at other
        obtain ⟨_, _, rfl, _⟩ := other
        simp at inside
    · obtain ⟨k, value⟩ := entry
      simp only [List.mem_append, Std.ExtTreeMap.mem_toList_iff_getElem?_eq_some,
        Std.ExtTreeMap.getElem?_erase, compare_eq_iff, Option.mem_toList,
        Option.map_eq_some_iff, Prod.mk.injEq]
      by_cases same : key = k
      · subst same
        simp
      · simp [same]
  rw [total, total, weightAt, (split.map _).sum_eq, List.map_append, List.sum_append]
  cases table[key]? <;> simp

omit [DecidableEq κ] in
theorem total_congr_erase {left right : Table κ α} (same : left.erase key = right.erase key) :
    total weight left + weightAt weight right key =
      total weight right + weightAt weight left key := by
  rw [← total_erase weight left key, ← total_erase weight right key, same]
  exact add_right_comm _ _ _

theorem total_modify (update : α → α) :
    total weight (table.modify key update) + weightAt weight table key =
      total weight table + weightAt (fun value => weight (update value)) table key := by
  have same : (table.modify key update).erase key = table.erase key := by
    apply Std.ExtTreeMap.ext_getElem?
    intro other
    simp only [Std.ExtTreeMap.getElem?_erase, getElem?_modify, compare_eq_iff]
    split <;> rfl
  have moved := total_congr_erase weight key same
  rw [weightAt, weightAt, getElem?_modify, if_pos rfl, Option.map_map] at moved
  exact moved

theorem total_insertIfNew (value : α) (light : weight value = 0) :
    total weight (table.insertIfNew key value) = total weight table := by
  have same : (table.insertIfNew key value).erase key = table.erase key := by
    apply Std.ExtTreeMap.ext_getElem?
    intro other
    simp only [Std.ExtTreeMap.getElem?_erase, getElem?_insertIfNew, compare_eq_iff]
    split <;> rfl
  rw [← total_erase weight _ key, same, ← total_erase weight table key]
  congr 1
  rw [weightAt, weightAt, getElem?_insertIfNew, if_pos rfl]
  cases table[key]? with
  | none => exact light
  | some old => rfl

end Total

end Perfdb.Table
