import Mathlib
import Perfdb.Table

set_option autoImplicit false

/-! Pairs bucketed by their first component: a map of lists that holds exactly the pairs of a
flat list, without an empty list in it. -/

namespace Perfdb

section Flat

variable {κ ι : Type} [DecidableEq κ]

/-- The second components of the pairs with this key, in their order. -/
def idsAt (pairs : List (κ × ι)) (key : κ) : List ι :=
  (pairs.filter fun pair => pair.1 = key).map Prod.snd

theorem idsAt_append (pairs more : List (κ × ι)) (key : κ) :
    idsAt (pairs ++ more) key = idsAt pairs key ++ idsAt more key := by
  rw [idsAt, List.filter_append, List.map_append]
  rfl

theorem idsAt_length (pairs : List (κ × ι)) (key : κ) :
    (idsAt pairs key).length = (pairs.map Prod.fst).count key := by
  rw [idsAt, List.length_map, ← List.countP_eq_length_filter, List.count, List.countP_map]
  congr 1

variable [DecidableEq ι]

/-- Taking a pair away, wherever it stands. -/
def without (pairs : List (κ × ι)) (pair : κ × ι) : List (κ × ι) :=
  pairs.filter (· ≠ pair)

theorem idsAt_without (pairs : List (κ × ι)) (key other : κ) (id : ι) :
    idsAt (without pairs (key, id)) other =
      if key = other then (idsAt pairs other).filter (· ≠ id) else idsAt pairs other := by
  rw [idsAt, without, idsAt, List.filter_filter]
  split
  · rename_i same
    subst same
    rw [List.filter_map, List.filter_filter]
    congr 1
    apply List.filter_congr
    intro pair _
    obtain ⟨first, second⟩ := pair
    by_cases here : first = key <;> simp [here]
  · rename_i apart
    congr 1
    apply List.filter_congr
    intro pair _
    obtain ⟨first, second⟩ := pair
    by_cases here : first = other
    · have elsewhere : first ≠ key := fun same => apart (same.symm.trans here)
      simp [here, Ne.symm apart]
    · simp [here]

end Flat

variable {κ ι : Type} [Ord κ] [Std.TransOrd κ] [DecidableEq κ]

/-- Each key leads to what the pairs have under it. -/
def Bucketed (groups : Table κ (List ι)) (pairs : List (κ × ι)) : Prop :=
  ∀ key, groups[key]? = if idsAt pairs key = [] then none else some (idsAt pairs key)

namespace Bucketed

variable {groups : Table κ (List ι)} {pairs : List (κ × ι)}

theorem empty : Bucketed (∅ : Table κ (List ι)) [] := by
  intro key
  rw [Std.ExtTreeMap.getElem?_empty]
  rfl

theorem ne_nil (bucketed : Bucketed groups pairs) {key : κ} {ids : List ι}
    (found : groups[key]? = some ids) : ids ≠ [] := by
  rw [bucketed key] at found
  split at found
  · cases found
  · rename_i some'
    rw [← Option.some.inj found]
    exact some'

variable [Std.LawfulEqOrd κ]

theorem push (bucketed : Bucketed groups pairs) (key : κ) (id : ι) :
    Bucketed (groups.alter key fun ids => some (ids.getD [] ++ [id])) (pairs ++ [(key, id)]) := by
  intro other
  rw [Table.getElem?_alter, idsAt_append]
  by_cases same : key = other
  · subst same
    have single : idsAt [(key, id)] key = [id] := by simp [idsAt]
    rw [if_pos rfl, single, if_neg (by simp), bucketed key]
    split
    · rename_i none
      rw [none]
      rfl
    · rfl
  · have none : idsAt [(key, id)] other = [] := by simp [idsAt, same]
    rw [if_neg same, none, List.append_nil]
    exact bucketed other

theorem without [DecidableEq ι] (bucketed : Bucketed groups pairs) (key : κ) (id : ι) :
    Bucketed (groups.alter key fun ids => ids.bind fun ids =>
        if (ids.filter (· ≠ id)).isEmpty then none else some (ids.filter (· ≠ id)))
      (Perfdb.without pairs (key, id)) := by
  intro other
  rw [Table.getElem?_alter, idsAt_without]
  by_cases same : key = other
  · subst same
    rw [if_pos rfl, if_pos rfl, bucketed key]
    split
    · rename_i none
      rw [none]
      rfl
    · simp only [Option.bind_some, List.isEmpty_iff]
  · rw [if_neg same, if_neg same]
    exact bucketed other

section Listing

variable (bucketed : Bucketed groups pairs)
include bucketed

theorem mem_keys (key : κ) : key ∈ groups.keys ↔ key ∈ pairs.map Prod.fst := by
  rw [Std.ExtTreeMap.mem_keys, Std.ExtTreeMap.mem_iff_isSome_getElem?, bucketed key,
    ← List.count_pos_iff, ← idsAt_length]
  split
  · rename_i none
    simp [none]
  · rename_i some'
    simp [List.length_pos_iff.mpr some']

/-- The groups, with the number of pairs in each. -/
theorem toList_sizes : groups.toList.map (fun group => (group.1, group.2.length)) =
    groups.keys.map fun key => (key, (pairs.map Prod.fst).count key) := by
  rw [← Std.ExtTreeMap.map_fst_toList_eq_keys, List.map_map]
  refine List.map_congr_left fun group member => ?_
  have found := Std.ExtTreeMap.mem_toList_iff_getElem?_eq_some.mp member
  rw [bucketed group.1] at found
  split at found
  · cases found
  · rw [Function.comp, ← Option.some.inj found, idsAt_length]

theorem keys_perm : groups.keys.Perm (pairs.map Prod.fst).dedup := by
  refine (List.perm_ext_iff_of_nodup Std.ExtTreeMap.nodup_keys (List.nodup_dedup _)).mpr ?_
  intro key
  rw [List.mem_dedup]
  exact bucketed.mem_keys key

theorem sum_sizes : (groups.toList.map fun group => group.2.length).sum = pairs.length := by
  have sizes := congrArg (List.map Prod.snd) bucketed.toList_sizes
  rw [List.map_map, List.map_map] at sizes
  calc (groups.toList.map fun group => group.2.length).sum
      = (groups.keys.map fun key => (pairs.map Prod.fst).count key).sum := by
        exact congrArg List.sum sizes
    _ = ((pairs.map Prod.fst).dedup.map fun key => (pairs.map Prod.fst).count key).sum :=
        (bucketed.keys_perm.map _).sum_eq
    _ = pairs.length := by
        rw [List.sum_map_count_dedup_eq_length, List.length_map]

end Listing

end Bucketed

end Perfdb
