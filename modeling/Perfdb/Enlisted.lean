import Mathlib
import Perfdb.Table

set_option autoImplicit false

/-! Lists of ids by key: next to a table from ids to values, each key lists the ids of its values
in the order they were issued. -/

namespace Perfdb.Table

variable {κ ι α : Type} [Ord κ] [Std.TransOrd κ] [Std.LawfulEqOrd κ] [DecidableEq κ]
  [Ord ι] [Std.TransOrd ι] [Std.LawfulEqOrd ι] [DecidableEq ι]

def idsFor (index : Table κ (List ι)) (key : κ) : List ι := index[key]?.getD []

def pushTo (index : Table κ (List ι)) (key : κ) (id : ι) : Table κ (List ι) :=
  index.alter key fun ids => some (ids.getD [] ++ [id])

/-- `entry(key).and_modify(|v| v.retain(|i| *i != id))`. -/
def retainOthers (index : Table κ (List ι)) (key : κ) (id : ι) : Table κ (List ι) :=
  index.modify key fun ids => ids.filter (· ≠ id)

/-- An id leads to a value of this key. -/
def owned (keyOf : α → κ) (table : Table ι α) (key : κ) (id : ι) : Bool :=
  table[id]?.any fun value => keyOf value = key

/-- Of the ids in the order they were issued, every key lists those that lead to its values. -/
structure Enlisted (keyOf : α → κ) (issued : List ι) (index : Table κ (List ι))
    (table : Table ι α) : Prop where
  distinct : issued.Nodup
  known : ∀ id, table[id]?.isSome → id ∈ issued
  lists : ∀ key, idsFor index key = issued.filter (owned keyOf table key)

section Ids

variable (index : Table κ (List ι)) (key other : κ) (id : ι)

omit [Ord ι] [Std.TransOrd ι] [Std.LawfulEqOrd ι] [DecidableEq ι] in
theorem idsFor_pushTo : idsFor (pushTo index key id) other =
    idsFor index other ++ if key = other then [id] else [] := by
  rw [idsFor, pushTo, getElem?_alter]
  split
  · rename_i same
    rw [same]
    rfl
  · exact (List.append_nil _).symm

omit [Ord ι] [Std.TransOrd ι] [Std.LawfulEqOrd ι] in
theorem idsFor_retainOthers : idsFor (retainOthers index key id) other =
    if key = other then (idsFor index other).filter (· ≠ id) else idsFor index other := by
  rw [idsFor, retainOthers, getElem?_modify]
  split
  · rename_i same
    rw [same, idsFor]
    cases index[other]? <;> rfl
  · rfl

end Ids

namespace Enlisted

variable {keyOf : α → κ} {issued : List ι} {index : Table κ (List ι)} {table : Table ι α}

omit [Std.LawfulEqOrd κ] [Std.LawfulEqOrd ι] [DecidableEq ι] in
theorem empty (keyOf : α → κ) : Enlisted keyOf [] (∅ : Table κ (List ι)) (∅ : Table ι α) := by
  refine ⟨List.nodup_nil, fun id stored => ?_, fun key => ?_⟩
  · rw [Std.ExtTreeMap.getElem?_empty] at stored
    cases stored
  · rw [idsFor, Std.ExtTreeMap.getElem?_empty]
    rfl

/-- A value stored under a new id comes last in the list of its key. -/
theorem push (enlisted : Enlisted keyOf issued index table) {id : ι} (fresh : id ∉ issued)
    (value : α) : Enlisted keyOf (issued ++ [id]) (pushTo index (keyOf value) id)
      (Std.ExtTreeMap.insert table id value) := by
  refine ⟨?_, fun other stored => ?_, fun key => ?_⟩
  · rw [List.nodup_append]
    exact ⟨enlisted.distinct, List.nodup_singleton id, fun a old b new same => fresh (by
      rwa [same, List.mem_singleton.mp new] at old)⟩
  · rw [getElem?_insert] at stored
    rw [List.mem_append, List.mem_singleton]
    split at stored
    · rename_i same
      exact Or.inr same.symm
    · exact Or.inl (enlisted.known other stored)
  · have others : issued.filter (owned keyOf (Std.ExtTreeMap.insert table id value) key) =
        issued.filter (owned keyOf table key) := by
      apply List.filter_congr
      intro other member
      rw [owned, owned, getElem?_insert, if_neg]
      rintro rfl
      exact fresh member
    rw [idsFor_pushTo, enlisted.lists, List.filter_append, others]
    congr 1
    by_cases own : keyOf value = key
    · simp [own, owned]
    · simp [own, owned]

/-- A removed value leaves the list of its key. -/
theorem remove (enlisted : Enlisted keyOf issued index table) {id : ι} {value : α}
    (found : table[id]? = some value) : Enlisted keyOf issued (retainOthers index (keyOf value) id)
      (Std.ExtTreeMap.erase table id) := by
  have gone (other : ι) : (Std.ExtTreeMap.erase table id)[other]? =
      if id = other then none else table[other]? := by
    rw [Std.ExtTreeMap.getElem?_erase]
    simp only [compare_eq_iff]
  refine ⟨enlisted.distinct, fun other stored => ?_, fun key => ?_⟩
  · rw [gone] at stored
    split at stored
    · cases stored
    · exact enlisted.known other stored
  · rw [idsFor_retainOthers, enlisted.lists]
    split
    · rename_i same
      rw [List.filter_filter]
      apply List.filter_congr
      intro other _
      rw [owned, owned, gone]
      by_cases here : id = other
      · simp [here]
      · simp [here, Ne.symm here]
    · rename_i apart
      apply List.filter_congr
      intro other _
      rw [owned, owned, gone]
      split
      · rename_i same
        rw [← same, found]
        simp [apart]
      · rfl

omit [Std.LawfulEqOrd κ] in
/-- A change of a value that keeps its key changes no list. -/
theorem modify (enlisted : Enlisted keyOf issued index table) (id : ι) {update : α → α}
    (keeps : ∀ value, keyOf (update value) = keyOf value) :
    Enlisted keyOf issued index (Std.ExtTreeMap.modify table id update) := by
  have changed (other : ι) : (Std.ExtTreeMap.modify table id update)[other]? =
      if id = other then table[id]?.map update else table[other]? := getElem?_modify _ _ _ _
  refine ⟨enlisted.distinct, fun other stored => ?_, fun key => ?_⟩
  · rw [changed] at stored
    split at stored
    · rename_i same
      rw [Option.isSome_map] at stored
      exact same ▸ enlisted.known id stored
    · exact enlisted.known other stored
  · rw [enlisted.lists]
    apply List.filter_congr
    intro other _
    rw [owned, owned, changed]
    split
    · rename_i same
      rw [← same]
      cases table[id]? with
      | none => rfl
      | some value => simp [keeps]
    · rfl

omit [Std.LawfulEqOrd κ] [Std.LawfulEqOrd ι] [DecidableEq ι] in
/-- Through its list a key finds its values in the order of their ids. -/
theorem collect (enlisted : Enlisted keyOf issued index table) (key : κ) :
    (idsFor index key).filterMap (fun id => table[id]?) =
      (issued.filterMap fun id => table[id]?).filter fun value => keyOf value = key := by
  rw [enlisted.lists, List.filter_filterMap, List.filterMap_filter]
  apply List.filterMap_congr
  intro id _
  rw [owned]
  cases table[id]? with
  | none => rfl
  | some value =>
      by_cases own : keyOf value = key
      · simp [own, Option.filter]
      · simp [own, Option.filter]

end Enlisted

end Perfdb.Table
