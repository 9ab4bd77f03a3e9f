import Mathlib
import Perfdb.Inverted

set_option autoImplicit false

namespace Perfdb

namespace Table

variable {κ α : Type} [Ord κ] [Std.TransOrd κ] [Std.LawfulEqOrd κ] [DecidableEq κ]

omit [Std.LawfulEqOrd κ] [DecidableEq κ] in
/-- A change of what is stored under one key, or none. -/
def change (table : Table κ α) : Option (κ × (Option α → Option α)) → Table κ α
  | some (key, update) => table.alter key update
  | none => table

theorem getElem?_change (table : Table κ α) (key other : κ) (update : Option α → Option α) :
    (table.change (some (key, update)))[other]? =
      if key = other then update table[key]? else table[other]? :=
  getElem?_alter _ _ _ _

theorem getElem?_change_of_ne (table : Table κ α) {change : Option (κ × (Option α → Option α))}
    {key : κ} (apart : key ∉ change.map Prod.fst) : (table.change change)[key]? = table[key]? := by
  cases change with
  | none => rfl
  | some named =>
      have other : named.1 ≠ key := fun same => apart (congrArg some same)
      exact (table.getElem?_change named.1 key named.2).trans (if_neg other)

theorem change_comm (table : Table κ α) {one other : Option (κ × (Option α → Option α))}
    (agree : ∀ key first second, one = some (key, first) → other = some (key, second) →
      ∀ value, second (first value) = first (second value)) :
    (table.change one).change other = (table.change other).change one := by
  cases one with
  | none => rfl
  | some named =>
      obtain ⟨key, first⟩ := named
      cases other with
      | none => rfl
      | some named =>
          obtain ⟨key', second⟩ := named
          apply Std.ExtTreeMap.ext_getElem?
          intro entry
          simp only [getElem?_change]
          by_cases same : key = key'
          · subst same
            by_cases here : key = entry
            · simp only [here, if_true]
              exact agree key first second rfl rfl _
            · simp only [here, if_false]
          · by_cases here : key = entry
            · subst here
              simp [Ne.symm same]
            · simp [here, same]

theorem change_comm_of_ne (table : Table κ α) {one other : Option (κ × (Option α → Option α))}
    (apart : ∀ key ∈ one.map Prod.fst, key ∉ other.map Prod.fst) :
    (table.change one).change other = (table.change other).change one := by
  refine table.change_comm fun key first second is_one is_other => ?_
  refine absurd ?_ (apart key ?_)
  · rw [is_other]
    rfl
  · rw [is_one]
    rfl

section Steps

variable (table : Table κ α) (key : κ)

theorem insert_eq_change (value : α) :
    table.insert key value = table.change (some (key, fun _ => some value)) := by
  apply Std.ExtTreeMap.ext_getElem?
  intro other
  rw [getElem?_insert, getElem?_change]

theorem modify_eq_change (update : α → α) :
    table.modify key update = table.change (some (key, Option.map update)) := by
  apply Std.ExtTreeMap.ext_getElem?
  intro other
  rw [getElem?_modify, getElem?_change]

theorem insertIfNew_eq_change (value : α) :
    table.insertIfNew key value = table.change (some (key, fun known => some (known.getD value))) := by
  apply Std.ExtTreeMap.ext_getElem?
  intro other
  rw [getElem?_insertIfNew, getElem?_change]

theorem change_change (first second : Option α → Option α) :
    (table.change (some (key, first))).change (some (key, second)) =
      table.change (some (key, fun value => second (first value))) := by
  apply Std.ExtTreeMap.ext_getElem?
  intro other
  simp only [getElem?_change, if_true]
  split <;> rfl

end Steps

section Copies

variable {key : α → κ} {copy table : Table κ α} {change : Option (κ × (Option α → Option α))}

omit [Std.LawfulEqOrd κ] [DecidableEq κ] in
def leaves (table : Table κ α) (change : Option (κ × (Option α → Option α))) : Option α :=
  change.bind fun named => named.2 table[named.1]?

/-- Changes take no entry away. A copy that takes over what they leave is then right about a
key if it was before, or if the change left something there. -/
theorem copy_change (keyed : Table.Keyed key (table.change change))
    (stays : ∀ named ∈ change, named.2 table[named.1]? = none → table[named.1]? = none) {k : κ}
    (known : copy[k]? = table[k]? ∨ ∃ value ∈ table.leaves change, key value = k) :
    ((table.leaves change).elim copy fun value => copy.insert (key value) value)[k]? =
      (table.change change)[k]? := by
  cases change with
  | none =>
      rcases known with same | ⟨value, left, _⟩
      · exact same
      · cases left
  | some named =>
      obtain ⟨changed, update⟩ := named
      have now := getElem?_change table changed k update
      have here := getElem?_change table changed changed update
      rw [if_pos rfl] at here
      cases left : table.leaves (some (changed, update)) with
      | none =>
          have gone : update table[changed]? = none := left
          rw [left] at known
          have same := known.resolve_right nofun
          rw [now]
          split
          · rename_i is_changed
            subst is_changed
            exact same.trans ((stays _ rfl gone).trans gone.symm)
          · exact same
      | some value =>
          have kept : update table[changed]? = some value := left
          have own : key value = changed := keyed changed value (here.trans kept)
          rw [Option.elim_some, getElem?_insert, own, now]
          split
          · exact kept.symm
          · rename_i other
            refine known.resolve_right ?_
            rintro ⟨found, left', is_k⟩
            rw [left] at left'
            obtain rfl := Option.some.inj left'
            exact other (own.symm.trans is_k)

end Copies

section Listing

variable {ι : Type} [Ord ι] [Std.TransOrd ι] [Std.LawfulEqOrd ι]

omit [Std.LawfulEqOrd ι] in
/-- An id more in a set that may not be there yet. -/
def listing (id : ι) (ids : Option (KeySet ι)) : Option (KeySet ι) :=
  some ((ids.getD ∅).insert id)

theorem listing_comm (id entry : ι) (ids : Option (KeySet ι)) :
    listing entry (listing id ids) = listing id (listing entry ids) := by
  refine congrArg some (Std.ExtTreeSet.ext_mem fun other => ?_)
  simp only [listing, Option.getD_some, Std.ExtTreeSet.mem_insert]
  exact or_left_comm

end Listing

end Table

section Slots

variable {α : Type} {n : Nat}

theorem modifySlot_comm (slots : Vector α n) (index other : Nat) {first second : α → α}
    (agree : index = other → ∀ slot, second (first slot) = first (second slot)) :
    modifySlot (modifySlot slots index first) other second =
      modifySlot (modifySlot slots other second) index first := by
  ext entry inside
  simp only [getElem_modifySlot]
  by_cases here : index = entry
  · by_cases there : other = entry
    · simp only [here, there, if_true]
      exact agree (here.trans there.symm) _
    · simp [there]
  · simp [here]

end Slots

end Perfdb
