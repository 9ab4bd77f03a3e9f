import Mathlib
import Perfdb.Table

set_option autoImplicit false

/-! Inverted indexes: next to a table from ids to values, the ids of the values of each
key. -/

namespace Perfdb.Table

variable {κ ι α : Type} [Ord κ] [Std.TransOrd κ] [Std.LawfulEqOrd κ] [DecidableEq κ]
  [Ord ι] [Std.TransOrd ι] [Std.LawfulEqOrd ι] [DecidableEq ι]

omit [Std.LawfulEqOrd κ] [DecidableEq κ] [Std.LawfulEqOrd ι] [DecidableEq ι] in
/-- `remove` from the set of a key; an emptied set is dropped. -/
def removeFrom (index : Table κ (KeySet ι)) (key : κ) (id : ι) : Table κ (KeySet ι) :=
  index.alter key fun ids => ids.bind fun ids =>
    let kept := ids.erase id
    if kept.isEmpty then none else some kept

/-- The values whose ids are listed under a key. An id without a value is passed over. -/
def collect (order : Iteration) (index : Table κ (KeySet ι)) (table : Table ι α) (key : κ) :
    List α :=
  match index[key]? with
  | some ids => (order.arrange ids.toList).filterMap fun id => table[id]?
  | none => []

/-- An id is in the set of a key. -/
def Listed (index : Table κ (KeySet ι)) (key : κ) (id : ι) : Prop :=
  ∃ ids, index[key]? = some ids ∧ id ∈ ids

/-- Every key lists exactly the ids of its values. -/
def Mirrors (keyOf : α → κ) (index : Table κ (KeySet ι)) (table : Table ι α) : Prop :=
  ∀ key id, Listed index key id ↔ ∃ value, table[id]? = some value ∧ keyOf value = key

section Listed

variable (index : Table κ (KeySet ι)) (key other : κ) (id entry : ι)

omit [DecidableEq ι] in
theorem listed_addTo : Listed (index.addTo key id) other entry ↔
    Listed index other entry ∨ (key = other ∧ id = entry) := by
  simp only [Listed, addTo, getElem?_alter]
  by_cases same : key = other
  · subst same
    cases index[key]? with
    | none => simp [Std.ExtTreeSet.mem_insert]
    | some ids => simp [Std.ExtTreeSet.mem_insert, or_comm]
  · simp [same]

theorem listed_removeFrom : Listed (index.removeFrom key id) other entry ↔
    Listed index other entry ∧ ¬ (key = other ∧ id = entry) := by
  simp only [Listed, removeFrom, getElem?_alter]
  by_cases same : key = other
  · subst same
    cases index[key]? with
    | none => simp
    | some ids =>
        simp only [if_true, Option.bind_some, Option.some.injEq, exists_eq_left', true_and]
        by_cases emptied : (ids.erase id).isEmpty
        · have gone (other : ι) (inside : other ∈ ids) : id = other := by
            by_contra apart
            have stays : other ∈ ids.erase id := by
              rw [Std.ExtTreeSet.mem_erase]
              exact ⟨fun same => apart ((compare_eq_iff id other).mp same), inside⟩
            rw [Std.ExtTreeSet.isEmpty_iff.mp emptied] at stays
            exact Std.ExtTreeSet.not_mem_empty stays
          simp only [emptied, if_true, reduceCtorEq, false_and, exists_false, false_iff, not_and,
            not_not]
          exact gone entry
        · simp only [emptied, Bool.false_eq_true, if_false, Option.some.injEq, exists_eq_left',
            Std.ExtTreeSet.mem_erase, ne_eq, compare_eq_iff]
          exact and_comm
  · simp [same]

end Listed

namespace Mirrors

variable {keyOf : α → κ} {index : Table κ (KeySet ι)} {table : Table ι α}

omit [Std.LawfulEqOrd κ] [DecidableEq κ] [Std.LawfulEqOrd ι] [DecidableEq ι] in
theorem empty (keyOf : α → κ) : Mirrors keyOf (∅ : Table κ (KeySet ι)) (∅ : Table ι α) := by
  intro key id
  simp [Listed]

/-- A value whose id is new, or known under the same key, may be stored. -/
theorem insert (mirrors : Mirrors keyOf index table) (id : ι) (value : α)
    (keeps : ∀ old, table[id]? = some old → keyOf old = keyOf value) :
    Mirrors keyOf (index.addTo (keyOf value) id) (Std.ExtTreeMap.insert table id value) := by
  intro key other
  rw [listed_addTo, mirrors, getElem?_insert]
  by_cases same : id = other
  · subst same
    simp only [if_true, Option.some.injEq, exists_eq_left', and_true]
    constructor
    · rintro (⟨old, found, rfl⟩ | same)
      · exact (keeps old found).symm
      · exact same
    · exact Or.inr
  · simp [same]

omit [Std.LawfulEqOrd κ] [DecidableEq κ] in
/-- A change of a value that keeps its key needs no change of the index. -/
theorem modify (mirrors : Mirrors keyOf index table) (id : ι) {update : α → α}
    (keeps : ∀ value, keyOf (update value) = keyOf value) :
    Mirrors keyOf index (Std.ExtTreeMap.modify table id update) := by
  intro key other
  rw [mirrors, getElem?_modify]
  split
  · rename_i same
    subst same
    simp only [Option.map_eq_some_iff]
    constructor
    · rintro ⟨value, found, rfl⟩
      exact ⟨update value, ⟨value, found, rfl⟩, keeps value⟩
    · rintro ⟨_, ⟨value, found, rfl⟩, rfl⟩
      exact ⟨value, found, (keeps value).symm⟩
  · exact Iff.rfl

omit [Std.LawfulEqOrd κ] [DecidableEq κ] in
/-- So does a value in place of one of the same key. -/
theorem replace (mirrors : Mirrors keyOf index table) {id : ι} {old value : α}
    (found : table[id]? = some old) (keeps : keyOf value = keyOf old) :
    Mirrors keyOf index (Std.ExtTreeMap.insert table id value) := by
  intro key other
  rw [mirrors, getElem?_insert]
  split
  · rename_i same
    subst same
    simp [found, keeps]
  · exact Iff.rfl

theorem remove (mirrors : Mirrors keyOf index table) {id : ι} {value : α}
    (found : table[id]? = some value) :
    Mirrors keyOf (index.removeFrom (keyOf value) id) (Std.ExtTreeMap.erase table id) := by
  intro key other
  rw [listed_removeFrom, mirrors, Std.ExtTreeMap.getElem?_erase]
  simp only [compare_eq_iff]
  by_cases same : id = other
  · subst same
    simp only [if_true, reduceCtorEq, false_and, exists_false, iff_false, not_and, and_true,
      not_not]
    rintro ⟨old, stored, rfl⟩
    rw [Option.some.inj (found.symm.trans stored)]
  · simp [same]

end Mirrors

section Collect

variable {keyOf : α → κ} {index : Table κ (KeySet ι)} {table : Table ι α}

omit [Std.LawfulEqOrd κ] [DecidableEq κ] [DecidableEq ι] in
theorem mem_collect (order : Iteration) (key : κ) (value : α) :
    value ∈ collect order index table key ↔
      ∃ id, Listed index key id ∧ table[id]? = some value := by
  unfold collect Listed
  cases index[key]? with
  | none => simp
  | some ids => simp [Std.ExtTreeSet.mem_toList]

omit [Std.LawfulEqOrd κ] [DecidableEq ι] in
/-- Through an index that mirrors the table, a lookup finds each value of its key once. -/
theorem collect_perm (order : Iteration) (mirrors : Mirrors keyOf index table)
    (key : κ) :
    (collect order index table key).Perm
      ((table.all order).filter fun value => keyOf value = key) := by
  have entries := nodup_toList table
  have pairs (ids : KeySet ι) (listed : ∀ id, id ∈ ids ↔ Listed index key id) :
      (ids.toList.filterMap fun id => table[id]?.map fun value => (id, value)).Perm
        (table.toList.filter fun entry => keyOf entry.2 = key) := by
    refine (List.perm_ext_iff_of_nodup ?_ (entries.filter _)).mpr fun entry => ?_
    · refine List.Pairwise.filterMap _ ?_ Std.ExtTreeSet.distinct_toList
      intro a b apart first taken second also
      obtain ⟨_, _, rfl⟩ := Option.map_eq_some_iff.mp taken
      obtain ⟨_, _, rfl⟩ := Option.map_eq_some_iff.mp also
      intro same
      exact apart ((compare_eq_iff a b).mpr (congrArg Prod.fst same))
    · obtain ⟨id, value⟩ := entry
      simp only [List.mem_filterMap, Std.ExtTreeSet.mem_toList, Option.map_eq_some_iff,
        Prod.mk.injEq, List.mem_filter, Std.ExtTreeMap.mem_toList_iff_getElem?_eq_some,
        decide_eq_true_eq]
      constructor
      · rintro ⟨_, inside, _, found, rfl, rfl⟩
        obtain ⟨other, stored, own⟩ := (mirrors key _).mp ((listed _).mp inside)
        obtain rfl := Option.some.inj (stored.symm.trans found)
        exact ⟨found, own⟩
      · rintro ⟨found, own⟩
        exact ⟨id, (listed id).mpr ((mirrors key id).mpr ⟨value, found, own⟩), value, found, rfl,
          rfl⟩
  have values : ((table.all order).filter fun value => keyOf value = key).Perm
      ((table.toList.filter fun entry => keyOf entry.2 = key).map Prod.snd) := by
    rw [all, List.filter_map]
    exact ((order.perm table.toList).filter _).map _
  refine List.Perm.trans ?_ values.symm
  unfold collect
  cases found : index[key]? with
  | some ids =>
      have listed (id : ι) : id ∈ ids ↔ Listed index key id := by simp [Listed, found]
      have ordered := (order.perm ids.toList).filterMap fun id => table[id]?
      refine ordered.trans ?_
      have mapped := (pairs ids listed).map Prod.snd
      rw [List.map_filterMap] at mapped
      simpa only [Option.map_map, Function.comp_def, Option.map_id'] using mapped
  | none =>
      have unlisted (id : ι) : id ∈ (∅ : KeySet ι) ↔ Listed index key id := by
        simp [Listed, found]
      have mapped := (pairs ∅ unlisted).map Prod.snd
      rw [Std.ExtTreeSet.toList_eq_nil_iff.mpr rfl] at mapped
      exact mapped

omit [DecidableEq ι] in
/-- A value stored under a new key stays listed under the key of the value it replaces. -/
theorem stale_collect (order : Iteration) (mirrors : Mirrors keyOf index table) {id : ι}
    {old value : α} (found : table[id]? = some old) (moved : keyOf old ≠ keyOf value) :
    ¬ (collect order (index.addTo (keyOf value) id) (table.insert id value) (keyOf old)).Perm
      ((all order (table.insert id value)).filter fun value => keyOf value = keyOf old) := by
  classical
  intro same
  have stale : value ∈ collect order (index.addTo (keyOf value) id) (table.insert id value)
      (keyOf old) := by
    refine (mem_collect order _ _).mpr ⟨id, (listed_addTo _ _ _ _ _).mpr (Or.inl ?_), ?_⟩
    · exact (mirrors _ _).mpr ⟨old, found, rfl⟩
    · rw [getElem?_insert, if_pos rfl]
  have own := List.of_mem_filter (same.mem_iff.mp stale)
  exact moved (of_decide_eq_true own).symm

end Collect

end Perfdb.Table
