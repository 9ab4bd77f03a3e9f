import Mathlib
import Perfdb.Totals

set_option autoImplicit false

/-! Accounts kept in a table: amounts are posted to keys, and what a key holds is the sum
of what was posted to it. -/

namespace Perfdb

variable {κ ι M : Type} [AddCommMonoid M]

/-- What has been posted to the keys of a kind. -/
def posted (postings : List (κ × M)) (kind : κ → Prop) [DecidablePred kind] : M :=
  ((postings.filter fun posting => kind posting.1).map Prod.snd).sum

section Posted

variable (postings more : List (κ × M)) (kind : κ → Prop) [DecidablePred kind]

@[simp] theorem posted_nil : posted ([] : List (κ × M)) kind = 0 := rfl

theorem posted_cons (key : κ) (amount : M) : posted ((key, amount) :: postings) kind =
    (if kind key then amount else 0) + posted postings kind := by
  by_cases here : kind key <;> simp [posted, here]

theorem posted_append : posted (postings ++ more) kind =
    posted postings kind + posted more kind := by
  rw [posted, List.filter_append, List.map_append, List.sum_append]
  rfl

theorem posted_singleton (key : κ) (amount : M) :
    posted [(key, amount)] kind = if kind key then amount else 0 := by
  rw [posted_cons, posted_nil, add_zero]

theorem sum_posted [DecidableEq ι] (label : κ → ι) (labels : Finset ι)
    (covers : ∀ posting ∈ postings, label posting.1 ∈ labels) :
    ∑ l ∈ labels, posted postings (fun key => kind key ∧ label key = l) = posted postings kind := by
  induction postings with
  | nil => exact Finset.sum_const_zero
  | cons posting postings ih =>
      obtain ⟨key, amount⟩ := posting
      have first : ∑ l ∈ labels, (if kind key ∧ label key = l then amount else 0) =
          if kind key then amount else 0 := by
        by_cases here : kind key
        · simp only [here, true_and, if_true, Finset.sum_ite_eq]
          exact if_pos (covers _ (List.mem_cons_self ..))
        · simp [here]
      simp only [posted_cons, Finset.sum_add_distrib]
      rw [first, ih fun other member => covers other (List.mem_cons_of_mem _ member)]

theorem posted_congr {other : κ → Prop} [DecidablePred other]
    (same : ∀ posting ∈ postings, kind posting.1 ↔ other posting.1) :
    posted postings kind = posted postings other := by
  rw [posted, posted]
  exact congrArg (fun kept : List (κ × M) => (kept.map Prod.snd).sum)
    (List.filter_congr fun posting member => by simp [same posting member])

end Posted

namespace Table

variable {α G : Type} [Ord κ] [Std.TransOrd κ] [Std.LawfulEqOrd κ] [DecidableEq κ]
  [AddCommGroup G]

/-- The table keeps the postings, under the weight its values stand for. -/
structure Books (weight : α → G) (table : Table κ α) (postings : List (κ × G)) : Prop where
  holds : ∀ key, weightAt weight table key = posted postings fun other => other = key
  total : total weight table = posted postings fun _ => True
  known : ∀ posting ∈ postings, table[posting.1]?.isSome

namespace Books

variable {weight : α → G} {table : Table κ α} {postings : List (κ × G)}

omit [Std.LawfulEqOrd κ] in
theorem empty : Books weight (∅ : Table κ α) [] := by
  refine ⟨fun key => ?_, total_empty weight, fun posting member => by simp at member⟩
  rw [weightAt, Std.ExtTreeMap.getElem?_empty]
  rfl

/-- One key changes, by the amount posted to it. -/
theorem post (books : Books weight table postings) (key : κ) (amount : G)
    {update : Option α → Option α} (known : (update table[key]?).isSome)
    (grown : ((update table[key]?).map weight).getD 0 = weightAt weight table key + amount) :
    Books weight (table.alter key update) (postings ++ [(key, amount)]) := by
  have same : (table.alter key update).erase key = table.erase key := by
    apply Std.ExtTreeMap.ext_getElem?
    intro other
    simp only [Std.ExtTreeMap.getElem?_erase, getElem?_alter, compare_eq_iff]
    split <;> rfl
  refine ⟨fun other => ?_, ?_, fun posting member => ?_⟩
  · rw [posted_append, posted_singleton, ← books.holds, weightAt, getElem?_alter]
    by_cases here : key = other
    · subst here
      rw [if_pos rfl, if_pos rfl, grown]
    · rw [if_neg here, if_neg here, add_zero, weightAt]
  · have now : weightAt weight (table.alter key update) key =
        weightAt weight table key + amount := by
      rw [weightAt, getElem?_alter, if_pos rfl, grown]
    have moved := total_congr_erase weight key same
    rw [now, books.total] at moved
    rw [posted_append, posted_singleton, if_pos trivial]
    refine add_right_cancel (moved.trans ?_)
    rw [add_assoc, add_comm amount]
  · rw [getElem?_alter]
    split
    · exact known
    · rename_i other
      rcases List.mem_append.mp member with old | new
      · exact books.known posting old
      · obtain rfl := List.mem_singleton.mp new
        exact absurd rfl other

end Books

end Table

end Perfdb
