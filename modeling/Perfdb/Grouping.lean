import Mathlib

set_option autoImplicit false

namespace Perfdb

variable {α κ γ : Type} [LinearOrder κ]

/-- One record for each key that occurs, in the order of the keys, and each record
summarizes the items of its key. -/
structure Grouped (key : α → κ) (summary : κ → List α → γ → Prop) (items : List α)
    (keys : List κ) (records : List γ) : Prop where
  increasing : keys.Pairwise (· < ·)
  complete : ∀ k, k ∈ keys ↔ ∃ item ∈ items, key item = k
  records : List.Forall₂ (fun k record => summary k (items.filter (key · = k)) record) keys records

namespace Grouped

variable {key : α → κ} {summary : κ → List α → γ → Prop} {items : List α} {keys : List κ}
  {records : List γ}

theorem nil : Grouped key summary [] [] [] :=
  ⟨List.Pairwise.nil, by simp, List.Forall₂.nil⟩

/-- An item leaves the groups of other keys as they were. -/
theorem filter_push_of_ne (items : List α) {item : α} {k : κ} (other : key item ≠ k) :
    (items ++ [item]).filter (key · = k) = items.filter (key · = k) := by
  simp [List.filter_append, other]

theorem filter_push_self (items : List α) (item : α) :
    (items ++ [item]).filter (key · = key item) = items.filter (key · = key item) ++ [item] := by
  simp [List.filter_append]

theorem forall₂_push_of_ne {item : α} (others : ∀ k ∈ keys, key item ≠ k)
    (each : List.Forall₂ (fun k record => summary k (items.filter (key · = k)) record) keys
      records) :
    List.Forall₂ (fun k record => summary k ((items ++ [item]).filter (key · = k)) record) keys
      records := by
  induction each with
  | nil => exact List.Forall₂.nil
  | cons head tail ih =>
      refine List.Forall₂.cons ?_ (ih fun k member => others k (List.mem_cons_of_mem _ member))
      rw [filter_push_of_ne items (others _ List.mem_cons_self)]
      exact head

theorem start (grouped : Grouped key summary items keys records) {item : α} {record : γ}
    (above : ∀ other ∈ items, key other < key item) (new : summary (key item) [item] record) :
    Grouped key summary (items ++ [item]) (keys ++ [key item]) (records ++ [record]) := by
  have below (k : κ) (member : k ∈ keys) : k < key item := by
    obtain ⟨other, inside, rfl⟩ := (grouped.complete k).mp member
    exact above other inside
  have alone : items.filter (key · = key item) = [] := by
    rw [List.filter_eq_nil_iff]
    intro other inside
    simpa using (above other inside).ne
  refine ⟨?_, fun k => ?_, ?_⟩
  · refine List.pairwise_append.mpr ⟨grouped.increasing, List.pairwise_singleton _ _, ?_⟩
    intro k member last inside
    rw [List.mem_singleton.mp inside]
    exact below k member
  · simp [grouped.complete k, or_and_right, exists_or, eq_comm]
  · refine List.rel_append (forall₂_push_of_ne (fun k member => (below k member).ne')
      grouped.records) (List.Forall₂.cons ?_ List.Forall₂.nil)
    rw [filter_push_self, alone, List.nil_append]
    exact new

section Last

variable {past : List κ} {done : List γ} {k : κ} {last : γ}
  (grouped : Grouped key summary items (past ++ [k]) (done ++ [last]))

include grouped

theorem split : List.Forall₂ (fun k record => summary k (items.filter (key · = k)) record) past
    done ∧ summary k (items.filter (key · = k)) last := by
  have each := grouped.records
  have sized : past.length = done.length := by
    simpa only [List.length_append, List.length_singleton, Nat.add_right_cancel_iff] using
      each.length_eq
  have front := List.forall₂_take past.length each
  have back := List.forall₂_drop past.length each
  rw [List.take_left, sized, List.take_left] at front
  rw [List.drop_left, sized, List.drop_left] at back
  exact ⟨front, (List.forall₂_cons.mp back).1⟩

theorem le_last {item : α} (member : item ∈ items) : key item ≤ k := by
  rcases List.mem_append.mp ((grouped.complete _).mpr ⟨item, member, rfl⟩) with earlier | here
  · exact ((List.pairwise_append.mp grouped.increasing).2.2 _ earlier k
      (List.mem_singleton_self k)).le
  · exact (List.mem_singleton.mp here).le

/-- An item of the last key joins the last group. -/
theorem extend {item : α} {next : γ} (same : key item = k)
    (joined : summary k (items.filter (key · = k) ++ [item]) next) :
    Grouped key summary (items ++ [item]) (past ++ [k]) (done ++ [next]) := by
  subst same
  have before (other : κ) (member : other ∈ past) : other < key item :=
    (List.pairwise_append.mp grouped.increasing).2.2 other member _ (List.mem_singleton_self _)
  refine ⟨grouped.increasing, fun other => ?_, ?_⟩
  · constructor
    · intro member
      obtain ⟨old, inside, rfl⟩ := (grouped.complete other).mp member
      exact ⟨old, List.mem_append_left _ inside, rfl⟩
    · rintro ⟨old, inside, rfl⟩
      rcases List.mem_append.mp inside with earlier | new
      · exact (grouped.complete _).mpr ⟨old, earlier, rfl⟩
      · rw [List.mem_singleton.mp new]
        exact List.mem_append_right _ (List.mem_singleton_self _)
  · refine List.rel_append (forall₂_push_of_ne (fun other member => (before other member).ne')
      grouped.split.1) (List.Forall₂.cons ?_ List.Forall₂.nil)
    rw [filter_push_self]
    exact joined

end Last

end Grouped

end Perfdb
