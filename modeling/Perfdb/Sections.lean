import Mathlib
import Perfdb.Inverted

set_option autoImplicit false

/-! Tables whose keys are pairs: next to such a table, the second halves of the keys that each
first half occurs in. -/

namespace Perfdb.Table

variable {κ ι α : Type} [Ord κ] [Std.TransOrd κ] [Std.LawfulEqOrd κ] [DecidableEq κ]
  [Ord ι] [Std.TransOrd ι] [Std.LawfulEqOrd ι] [DecidableEq ι]

/-- Every first half lists the second halves it is stored with, and no list is empty. -/
structure Sectioned (index : Table κ (KeySet ι)) (table : Table (κ × ι) α) : Prop where
  listed : ∀ (key : κ) (id : ι), Listed index key id ↔ table[(key, id)]?.isSome
  filled : ∀ (key : κ) (ids : KeySet ι), index[key]? = some ids → ∃ id, id ∈ ids

/-- The second halves listed for a first half. -/
def sectionOf (order : Iteration) (index : Table κ (KeySet ι)) (key : κ) : List ι :=
  match index[key]? with
  | some ids => order.arrange ids.toList
  | none => []

namespace Sectioned

variable {index : Table κ (KeySet ι)} {table : Table (κ × ι) α}

omit [Std.LawfulEqOrd κ] [DecidableEq κ] [Std.LawfulEqOrd ι] [DecidableEq ι] in
theorem empty : Sectioned (∅ : Table κ (KeySet ι)) (∅ : Table (κ × ι) α) := by
  constructor
  · intro key id
    simp [Listed]
  · intro key ids found
    rw [Std.ExtTreeMap.getElem?_empty] at found
    cases found

theorem insert (sectioned : Sectioned index table) (key : κ) (id : ι) (value : α) :
    Sectioned (index.addTo key id) (Std.ExtTreeMap.insert table (key, id) value) := by
  constructor
  · intro other entry
    rw [listed_addTo, sectioned.listed, getElem?_insert]
    by_cases same : key = other ∧ id = entry
    · simp [same]
    · simp [same]
  · intro other ids found
    rw [addTo, getElem?_alter] at found
    split at found
    · rw [← Option.some.inj found]
      exact ⟨id, Std.ExtTreeSet.mem_insert_self⟩
    · exact sectioned.filled other ids found

omit [Std.LawfulEqOrd ι] [DecidableEq κ] [DecidableEq ι] [Std.LawfulEqOrd κ] in
theorem congr {after : Table (κ × ι) α} (sectioned : Sectioned index table)
    (same : ∀ (key : κ) (id : ι), after[(key, id)]?.isSome = table[(key, id)]?.isSome) :
    Sectioned index after :=
  ⟨fun key id => by rw [same, sectioned.listed], sectioned.filled⟩

theorem modify (sectioned : Sectioned index table) (key : κ) (id : ι) (update : α → α) :
    Sectioned index (Std.ExtTreeMap.modify table (key, id) update) := by
  apply sectioned.congr
  intro other entry
  rw [getElem?_modify]
  split
  · rename_i same
    rw [← same, Option.isSome_map]
  · rfl

theorem erase (sectioned : Sectioned index table) (key : κ) (id : ι) :
    Sectioned (index.removeFrom key id) (Std.ExtTreeMap.erase table (key, id)) := by
  constructor
  · intro other entry
    rw [listed_removeFrom, sectioned.listed, Std.ExtTreeMap.getElem?_erase]
    simp only [compare_eq_iff, Prod.mk.injEq]
    by_cases same : key = other ∧ id = entry
    · simp [same]
    · simp [same]
  · intro other ids found
    rw [removeFrom, getElem?_alter] at found
    split at found
    · obtain ⟨old, _, kept⟩ := Option.bind_eq_some_iff.mp found
      simp only at kept
      split at kept
      · cases kept
      · rename_i some'
        rw [← Option.some.inj kept]
        by_contra none
        refine some' (Std.ExtTreeSet.isEmpty_iff.mpr ?_)
        exact Std.ExtTreeSet.eq_empty_iff_forall_not_mem.mpr fun id inside => none ⟨id, inside⟩
    · exact sectioned.filled other ids found

omit [Std.LawfulEqOrd κ] [DecidableEq κ] [Std.LawfulEqOrd ι] [DecidableEq ι] in
/-- A first half has a list exactly when it is stored with something. -/
theorem mem_iff (sectioned : Sectioned index table) (key : κ) :
    key ∈ index ↔ ∃ id : ι, table[(key, id)]?.isSome := by
  rw [Std.ExtTreeMap.mem_iff_isSome_getElem?, Option.isSome_iff_exists]
  constructor
  · rintro ⟨ids, found⟩
    obtain ⟨id, inside⟩ := sectioned.filled key ids found
    exact ⟨id, (sectioned.listed key id).mp ⟨ids, found, inside⟩⟩
  · rintro ⟨id, stored⟩
    obtain ⟨ids, found, _⟩ := (sectioned.listed key id).mpr stored
    exact ⟨ids, found⟩

omit [DecidableEq κ] [Std.LawfulEqOrd ι] [DecidableEq ι] in
theorem size_eq (sectioned : Sectioned index table) :
    index.size = {key : κ | ∃ id : ι, table[(key, id)]?.isSome}.ncard := by
  classical
  have keys : {key : κ | ∃ id : ι, table[(key, id)]?.isSome} = (index.keys.toFinset : Set κ) := by
    ext key
    rw [Set.mem_ofPred_eq, ← sectioned.mem_iff, Finset.mem_coe, List.mem_toFinset,
      Std.ExtTreeMap.mem_keys]
  rw [keys, Set.ncard_coe_finset, List.toFinset_card_of_nodup Std.ExtTreeMap.nodup_keys,
    Std.ExtTreeMap.length_keys]

end Sectioned

section Listing

variable (order : Iteration) (index : Table κ (KeySet ι)) (key : κ)

omit [Std.LawfulEqOrd κ] [DecidableEq κ] [DecidableEq ι] in
theorem mem_sectionOf (id : ι) : id ∈ sectionOf order index key ↔ Listed index key id := by
  unfold sectionOf Listed
  cases index[key]? with
  | none => simp
  | some ids => simp [Std.ExtTreeSet.mem_toList]

omit [Std.LawfulEqOrd κ] [DecidableEq κ] [DecidableEq ι] in
theorem nodup_sectionOf : (sectionOf order index key).Nodup := by
  unfold sectionOf
  cases index[key]? with
  | none => exact List.nodup_nil
  | some ids =>
      refine (order.perm ids.toList).nodup_iff.mpr ?_
      refine Std.ExtTreeSet.distinct_toList.imp fun apart same => apart ?_
      rw [same]
      exact Std.ReflCmp.compare_self

end Listing

end Perfdb.Table
