import Mathlib
import Perfdb.Unordered

set_option autoImplicit false

/-! Maps with keys in a lawful order, standing for hash maps: what a lookup finds
after each change, and what is left of a map that is written out and read back. -/

namespace Perfdb

instance instOrdProd {α β : Type} [Ord α] [Ord β] : Ord (α × β) := lexOrd

abbrev Table (κ α : Type) [Ord κ] := Std.ExtTreeMap κ α

abbrev KeySet (κ : Type) [Ord κ] := Std.ExtTreeSet κ

namespace Table

variable {κ α : Type} [Ord κ] [Std.TransOrd κ] [Std.LawfulEqOrd κ]

section Lookup

variable (table : Table κ α) (key other : κ)

omit [Std.TransOrd κ] in
theorem compare_eq_iff : compare key other = .eq ↔ key = other :=
  ⟨Std.LawfulEqCmp.eq_of_compare, fun same => same ▸ Std.ReflCmp.compare_self⟩

theorem getElem?_insert [DecidableEq κ] (value : α) :
    (table.insert key value)[other]? = if key = other then some value else table[other]? := by
  rw [Std.ExtTreeMap.getElem?_insert]
  simp only [compare_eq_iff]

theorem getElem?_modify [DecidableEq κ] (update : α → α) :
    (table.modify key update)[other]? =
      if key = other then table[key]?.map update else table[other]? := by
  rw [Std.ExtTreeMap.getElem?_modify]
  simp only [compare_eq_iff]

theorem getElem?_alter [DecidableEq κ] (update : Option α → Option α) :
    (table.alter key update)[other]? = if key = other then update table[key]? else table[other]? := by
  rw [Std.ExtTreeMap.getElem?_alter]
  simp only [compare_eq_iff]

theorem getElem?_insertIfNew [DecidableEq κ] (value : α) :
    (table.insertIfNew key value)[other]? =
      if key = other then some (table[key]?.getD value) else table[other]? := by
  rw [Std.ExtTreeMap.getElem?_insertIfNew]
  by_cases same : key = other
  · subst same
    by_cases present : key ∈ table
    · simp [present]
    · simp [present]
  · simp [same]

theorem modify_modify (first second : α → α) :
    (table.modify key first).modify key second = table.modify key fun a => second (first a) := by
  classical
  apply Std.ExtTreeMap.ext_getElem?
  intro other
  simp only [getElem?_modify]
  split
  · rw [if_true, Option.map_map]
    rfl
  · rfl

theorem insert_self {value : α} (found : table[key]? = some value) :
    table.insert key value = table := by
  classical
  apply Std.ExtTreeMap.ext_getElem?
  intro other
  rw [getElem?_insert]
  split
  · rename_i same
    rw [← same, found]
  · rfl

theorem insert_eq_self_iff (value : α) :
    Std.ExtTreeMap.insert table key value = table ↔ table[key]? = some value := by
  classical
  constructor
  · intro same
    have here := getElem?_insert table key key value
    rwa [same, if_pos rfl] at here
  · exact insert_self table key

end Lookup

omit [Std.LawfulEqOrd κ] in
theorem nodup_toList (table : Table κ α) : table.toList.Nodup :=
  Std.ExtTreeMap.distinct_keys_toList.imp fun apart same => apart (by
    rw [same]
    exact Std.ReflCmp.compare_self)

/-- The values in the order an iteration happens to produce. -/
def all (order : Iteration) (table : Table κ α) : List α :=
  (order.arrange table.toList).map Prod.snd

/-- Every value knows the key it is stored under. -/
def Keyed (key : α → κ) (table : Table κ α) : Prop :=
  ∀ k value, table[k]? = some value → key value = k

namespace Keyed

variable [DecidableEq κ] {key : α → κ} {table : Table κ α}

omit [DecidableEq κ] [Std.LawfulEqOrd κ] in
theorem empty (key : α → κ) : (∅ : Table κ α).Keyed key := by
  intro k value found
  rw [Std.ExtTreeMap.getElem?_empty] at found
  contradiction

theorem insert (keyed : table.Keyed key) (value : α) :
    Table.Keyed key (Std.ExtTreeMap.insert table (key value) value) := by
  intro k other found
  rw [getElem?_insert] at found
  split at found
  · rename_i same
    rw [← Option.some.inj found, same]
  · exact keyed k other found

theorem insertIfNew (keyed : table.Keyed key) (value : α) :
    Table.Keyed key (Std.ExtTreeMap.insertIfNew table (key value) value) := by
  intro k other found
  rw [getElem?_insertIfNew] at found
  split at found
  · rename_i same
    subst same
    cases old : table[key value]? with
    | none =>
        rw [old] at found
        rw [← Option.some.inj found, Option.getD_none]
    | some present =>
        rw [old] at found
        rw [← Option.some.inj found, Option.getD_some]
        exact keyed _ present old
  · exact keyed k other found

/-- A change that keeps the key may be made in place. -/
theorem modify (keyed : table.Keyed key) (k : κ) {update : α → α}
    (keeps : ∀ value, key (update value) = key value) :
    Table.Keyed key (Std.ExtTreeMap.modify table k update) := by
  intro other value found
  rw [getElem?_modify] at found
  split at found
  · rename_i same
    subst same
    obtain ⟨old, was, rfl⟩ := Option.map_eq_some_iff.mp found
    rw [keeps]
    exact keyed k old was
  · exact keyed other value found

omit [DecidableEq κ] [Std.LawfulEqOrd κ] in
/-- Removing a value leaves the others under their keys. -/
theorem erase (keyed : table.Keyed key) (k : κ) :
    Table.Keyed key (Std.ExtTreeMap.erase table k) := by
  intro other value found
  rw [Std.ExtTreeMap.getElem?_erase] at found
  split at found
  · contradiction
  · exact keyed other value found

end Keyed

def addTo {ι : Type} [Ord ι] [Std.TransOrd ι] (index : Table κ (KeySet ι)) (key : κ) (id : ι) :
    Table κ (KeySet ι) :=
  index.alter key fun ids => some ((ids.getD ∅).insert id)

section Rebuild

variable [DecidableEq κ]

/-- Storing items that agree on a key stores what they agree on. -/
theorem foldl_insert_of_mem (items : List (κ × α)) (start : Table κ α) {key : κ} {value : α}
    (agree : ∀ other, (key, other) ∈ items → other = value) (member : (key, value) ∈ items) :
    (items.foldl (fun table item => table.insert item.1 item.2) start)[key]? = some value := by
  induction items using List.reverseRecOn with
  | nil => cases member
  | append_singleton items item ih =>
      rw [List.foldl_append, List.foldl_cons, List.foldl_nil, getElem?_insert]
      by_cases last : item.1 = key
      · subst last
        rw [if_pos rfl, agree item.2 (List.mem_append_right _ (List.mem_singleton_self _))]
      · rw [if_neg last]
        refine ih (fun other inside => agree other (List.mem_append_left _ inside)) ?_
        refine (List.mem_append.mp member).resolve_right fun here => ?_
        exact last (congrArg Prod.fst (List.mem_singleton.mp here)).symm

theorem foldl_insert_of_not_mem (items : List (κ × α)) (start : Table κ α) (key : κ)
    (absent : ∀ value, (key, value) ∉ items) :
    (items.foldl (fun table item => table.insert item.1 item.2) start)[key]? = start[key]? := by
  induction items using List.reverseRecOn with
  | nil => rfl
  | append_singleton items item ih =>
      rw [List.foldl_append, List.foldl_cons, List.foldl_nil, getElem?_insert]
      have apart : item.1 ≠ key := by
        rintro rfl
        exact absent item.2 (List.mem_append_right _ (List.mem_singleton_self _))
      rw [if_neg apart]
      exact ih fun value member => absent value (List.mem_append_left _ member)

omit [DecidableEq κ] in
theorem mem_arrange_toList (order : Iteration) (table : Table κ α) (key : κ) (value : α) :
    (key, value) ∈ order.arrange table.toList ↔ table[key]? = some value := by
  rw [Iteration.mem_arrange, Std.ExtTreeMap.mem_toList_iff_getElem?_eq_some]

theorem foldl_insert_toList (order : Iteration) (table : Table κ α) :
    (order.arrange table.toList).foldl (fun table item => table.insert item.1 item.2) ∅ = table := by
  apply Std.ExtTreeMap.ext_getElem?
  intro key
  cases found : table[key]? with
  | some value =>
      refine foldl_insert_of_mem _ ∅ (fun other member => ?_)
        ((mem_arrange_toList order table key value).mpr found)
      rw [mem_arrange_toList, found] at member
      exact (Option.some.inj member).symm
  | none =>
      rw [foldl_insert_of_not_mem]
      · exact Std.ExtTreeMap.getElem?_empty
      · intro value member
        rw [mem_arrange_toList, found] at member
        contradiction

/-- Storing the listed values under their own keys gives the table back. -/
theorem rebuild (order : Iteration) (table : Table κ α) (key : α → κ) (keyed : table.Keyed key) :
    (table.all order).foldl (fun table value => table.insert (key value) value) ∅ = table := by
  have same : ∀ item ∈ order.arrange table.toList, key item.2 = item.1 := by
    intro item member
    exact keyed item.1 item.2 ((mem_arrange_toList order table item.1 item.2).mp member)
  rw [all, List.foldl_map]
  refine Eq.trans ?_ (foldl_insert_toList order table)
  apply List.foldl_ext
  intro acc item member
  rw [same item member]

/-- So does a step that stores a listed value in a table it keeps among other things. -/
theorem rebuild_through {σ : Type} (order : Iteration) (table : Table κ α) (key : α → κ)
    (keyed : table.Keyed key) (view : σ → Table κ α) (step : σ → α → σ)
    (stores : ∀ s value, view (step s value) = (view s).insert (key value) value) {start : σ}
    (empty : view start = ∅) : view ((table.all order).foldl step start) = table := by
  have hom (items : List α) (s : σ) : view (items.foldl step s) =
      items.foldl (fun table value => table.insert (key value) value) (view s) :=
    (List.foldl_hom view fun s value => (stores s value).symm).symm
  rw [hom, empty]
  exact rebuild order table key keyed

end Rebuild

end Table

section Slots

variable {α β : Type} {n : Nat}

/-- Changes one slot of a fixed array; an index out of range changes nothing. -/
def modifySlot (slots : Vector α n) (index : Nat) (update : α → α) : Vector α n :=
  if h : index < n then slots.set index (update slots[index]) else slots

theorem getElem_modifySlot (slots : Vector α n) (index other : Nat) (update : α → α)
    (inside : other < n) : (modifySlot slots index update)[other] =
      if index = other then update slots[other] else slots[other] := by
  unfold modifySlot
  split
  · rw [Vector.getElem_set]
    split
    · rename_i same
      subst same
      rfl
    · rfl
  · rename_i outside
    rw [if_neg (by omega)]

theorem getElem?_modifySlot (slots : Vector α n) (index other : Nat) (update : α → α) :
    (modifySlot slots index update)[other]? =
      if index = other then slots[other]?.map update else slots[other]? := by
  by_cases inside : other < n
  · simp only [Vector.getElem?_eq_getElem inside, getElem_modifySlot, Option.map_some]
    split <;> rfl
  · simp [inside]

@[simp] theorem modifySlot_modifySlot (slots : Vector α n) (index : Nat) (first second : α → α) :
    modifySlot (modifySlot slots index first) index second =
      modifySlot slots index fun slot => second (first slot) := by
  ext other inside
  simp only [getElem_modifySlot]
  split <;> rfl

/-- Changing the first slots, each in its own way. -/
theorem foldl_modifySlot (updates : Nat → α → α) (slots : Vector α n) (count index : Nat) :
    ((List.range count).foldl (fun slots i => modifySlot slots i (updates i)) slots)[index]? =
      if index < count then slots[index]?.map (updates index) else slots[index]? := by
  induction count with
  | zero => rfl
  | succ count ih =>
      rw [List.range_succ, List.foldl_append, List.foldl_cons, List.foldl_nil,
        getElem?_modifySlot, ih]
      rcases lt_trichotomy index count with below | rfl | above
      · rw [if_neg (by omega), if_pos below, if_pos (by omega)]
      · rw [if_pos rfl, if_neg (by omega), if_pos (by omega)]
      · rw [if_neg (by omega), if_neg (by omega), if_neg (by omega)]

/-- Updates a view does not see leave the view as it was. -/
theorem map_modifySlot_of_hidden (slots : Vector α n) (index : Nat) {update : α → α}
    (view : α → β) (hidden : ∀ slot, view (update slot) = view slot) :
    (modifySlot slots index update).map view = slots.map view := by
  ext other inside
  rw [Vector.getElem_map, getElem_modifySlot, Vector.getElem_map]
  split
  · exact hidden _
  · rfl

/-- Equal views stay equal when both sides change in the same way. -/
theorem map_modifySlot_congr {left right : Vector α n} (index : Nat) {update : α → α}
    (view : α → β) (same : left.map view = right.map view)
    (respects : ∀ a b, view a = view b → view (update a) = view (update b)) :
    (modifySlot left index update).map view = (modifySlot right index update).map view := by
  ext other inside
  have here : view left[other] = view right[other] := by
    have slot := congrArg (fun slots => slots[other]) same
    simpa only [Vector.getElem_map] using slot
  rw [Vector.getElem_map, Vector.getElem_map, getElem_modifySlot, getElem_modifySlot]
  split
  · exact respects _ _ here
  · exact here

end Slots

end Perfdb
