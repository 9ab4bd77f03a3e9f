import Mathlib

set_option autoImplicit false

namespace Perfdb

section TopBy

variable {α β : Type} [LinearOrder β] (value : α → β)

/-- The items by falling value, ties in the order they came. -/
def descending (items : List α) : List α := items.insertionSort fun a b => value b ≤ value a

/-- The first `n` of them. -/
def topBy (n : Nat) (items : List α) : List α := (descending value items).take n

theorem descending_perm (items : List α) : (descending value items).Perm items :=
  List.perm_insertionSort _ items

theorem mem_descending (items : List α) (a : α) : a ∈ descending value items ↔ a ∈ items :=
  (descending_perm value items).mem_iff

theorem descending_length (items : List α) : (descending value items).length = items.length :=
  (descending_perm value items).length_eq

theorem descending_pairwise (items : List α) :
    (descending value items).Pairwise fun a b => value b ≤ value a := by
  have total : Std.Total fun a b => value b ≤ value a := ⟨fun a b => le_total (value b) (value a)⟩
  have trans : IsTrans α fun a b => value b ≤ value a := ⟨fun _ _ _ first second =>
    second.trans first⟩
  exact List.pairwise_insertionSort _ items

/-- Which values come where does not depend on the order of the items. -/
theorem descending_map_perm {items others : List α} (perm : items.Perm others) :
    (descending value items).map value = (descending value others).map value := by
  have sorted (list : List α) : ((descending value list).map value).Pairwise (· ≥ ·) :=
    List.pairwise_map.mpr (descending_pairwise value list)
  have same : (descending value items).Perm (descending value others) :=
    (descending_perm value items).trans (perm.trans (descending_perm value others).symm)
  exact (same.map value).eq_of_pairwise' (sorted items) (sorted others)

theorem topBy_length (n : Nat) (items : List α) :
    (topBy value n items).length = min n items.length := by
  rw [topBy, List.length_take, descending_length]

theorem topBy_pairwise (n : Nat) (items : List α) :
    (topBy value n items).Pairwise fun a b => value b ≤ value a :=
  (descending_pairwise value items).sublist (List.take_sublist n _)

theorem topBy_subperm (n : Nat) (items : List α) : (topBy value n items).Subperm items :=
  (List.take_sublist n _).subperm.trans (descending_perm value items).subperm

theorem mem_of_mem_topBy {n : Nat} {items : List α} {a : α} (member : a ∈ topBy value n items) :
    a ∈ items :=
  (topBy_subperm value n items).subset member

/-- What is left out is not above anything that is not. -/
theorem omitted_le {n : Nat} {items : List α} {a b : α} (member : a ∈ items)
    (omitted : a ∉ topBy value n items) (kept : b ∈ topBy value n items) :
    value a ≤ value b := by
  have split := List.take_append_drop n (descending value items)
  have sorted := descending_pairwise value items
  rw [← split, List.pairwise_append] at sorted
  have later : a ∈ (descending value items).drop n := by
    have inside := (mem_descending value items a).mpr member
    rw [← split, List.mem_append] at inside
    exact inside.resolve_left omitted
  exact sorted.2.2 b kept a later

theorem topBy_map_perm (n : Nat) {items others : List α} (perm : items.Perm others) :
    (topBy value n items).map value = (topBy value n others).map value := by
  rw [topBy, topBy, List.map_take, List.map_take, descending_map_perm value perm]

/-- Everything above the item in a place stands before that place. -/
theorem countP_above_le {sorted : List α} (order : sorted.Pairwise fun a b => value b ≤ value a)
    {i : Nat} {a : α} (found : sorted[i]? = some a) :
    sorted.countP (fun b => value a < value b) ≤ i := by
  obtain ⟨inside, rfl⟩ := List.getElem?_eq_some_iff.mp found
  have below : ∀ b ∈ sorted.drop i, ¬ value sorted[i] < value b := by
    intro b member
    rw [List.drop_eq_getElem_cons inside, List.mem_cons] at member
    rcases member with rfl | later
    · exact lt_irrefl _
    · rw [← List.take_append_drop i sorted, List.pairwise_append,
        List.drop_eq_getElem_cons inside, List.pairwise_cons] at order
      exact not_lt.mpr (order.2.1.1 b later)
  have after : (sorted.drop i).countP (fun b => value sorted[i] < value b) = 0 := by
    refine List.countP_eq_zero.mpr fun b member => ?_
    simpa only [decide_eq_true_eq] using below b member
  have split := @List.countP_append _ (fun b => decide (value sorted[i] < value b))
    (sorted.take i) (sorted.drop i)
  rw [List.take_append_drop, after, Nat.add_zero] at split
  rw [split]
  exact List.countP_le_length.trans (List.length_take_le i sorted)

/-- No two items of equal value have fewer than `n` items above them. -/
def Settled (n : Nat) (items : List α) : Prop :=
  ∀ a ∈ items, ∀ b ∈ items, a ≠ b → value a = value b →
    n ≤ items.countP fun c => value a < value c

/-- Without ties at the top, the top does not depend on the order of the items. -/
theorem topBy_perm {n : Nat} {items others : List α} (perm : items.Perm others)
    (settled : Settled value n items) : topBy value n items = topBy value n others := by
  have values := descending_map_perm value perm
  apply List.ext_getElem?
  intro i
  rw [topBy, topBy, List.getElem?_take, List.getElem?_take]
  by_cases inside : i < n
  · rw [if_pos inside, if_pos inside]
    have level : ((descending value items)[i]?).map value =
        ((descending value others)[i]?).map value := by
      rw [← List.getElem?_map, ← List.getElem?_map, values]
    cases first : (descending value items)[i]? with
    | none =>
        rw [first, Option.map_none] at level
        exact (Option.map_eq_none_iff.mp level.symm).symm
    | some a =>
        rw [first, Option.map_some] at level
        obtain ⟨b, second, tie⟩ := Option.map_eq_some_iff.mp level.symm
        rw [second, Option.some.injEq]
        by_contra apart
        have here : a ∈ items := (mem_descending value items a).mp (List.mem_of_getElem? first)
        have there : b ∈ items :=
          perm.mem_iff.mpr ((mem_descending value others b).mp (List.mem_of_getElem? second))
        have many := settled a here b there apart tie.symm
        have few := countP_above_le value (descending_pairwise value items) first
        rw [(descending_perm value items).countP_eq] at few
        omega
  · rw [if_neg inside, if_neg inside]

theorem takeWhile_length {sorted : List α}
    (order : sorted.Pairwise fun a b => value b ≤ value a) (level : β) :
    (sorted.takeWhile fun b => level < value b).length =
      sorted.countP fun b => level < value b := by
  induction sorted with
  | nil => rfl
  | cons b rest ih =>
      rw [List.pairwise_cons] at order
      by_cases above : level < value b
      · rw [List.takeWhile_cons_of_pos (by simpa using above), List.length_cons, ih order.2,
          List.countP_cons_of_pos (by simpa using above)]
      · have none : (b :: rest).countP (fun c => level < value c) = 0 := by
          refine List.countP_eq_zero.mpr fun c member => ?_
          rw [decide_eq_true_eq, not_lt]
          rcases List.mem_cons.mp member with rfl | later
          · exact not_lt.mp above
          · exact (order.1 c later).trans (not_lt.mp above)
        rw [List.takeWhile_cons_of_neg (by simpa using above), none, List.length_nil]

/-- The first of the items comes right after those above it. -/
theorem getElem?_descending_cons (a : α) (rest : List α) :
    (descending value (a :: rest))[rest.countP fun b => value a < value b]? = some a := by
  have place : ((descending value rest).takeWhile fun b => value a < value b).length =
      rest.countP fun b => value a < value b := by
    rw [takeWhile_length value (descending_pairwise value rest)]
    exact (descending_perm value rest).countP_eq _
  have inserted : descending value (a :: rest) =
      ((descending value rest).takeWhile fun b => value a < value b) ++
        a :: (descending value rest).dropWhile fun b => value a < value b := by
    have shape := List.insertionSort_cons_eq_take_drop (fun a b => value b ≤ value a) a rest
    simpa only [descending, not_le] using shape
  rw [inserted, ← place, List.getElem?_append_right le_rfl, Nat.sub_self, List.getElem?_cons_zero]

/-- Of two tied items at the top, the one listed first comes first. -/
theorem getElem?_topBy_cons {n : Nat} {a : α} {rest : List α}
    (few : rest.countP (fun b => value a < value b) < n) :
    (topBy value n (a :: rest))[rest.countP fun b => value a < value b]? = some a := by
  rw [topBy, List.getElem?_take_of_lt few, getElem?_descending_cons]

/-- A tie at the top is decided by the order of the items. -/
theorem unsettled_swap {n : Nat} {items : List α} (unsettled : ¬ Settled value n items) :
    ∃ a ∈ items, ∃ b ∈ items, a ≠ b ∧ ∃ first second : List α,
      first.Perm items ∧ second.Perm items ∧
        ∃ i : Nat, (topBy value n first)[i]? = some a ∧ (topBy value n second)[i]? = some b := by
  simp only [Settled, not_forall, not_le] at unsettled
  obtain ⟨a, here, b, there, apart, tie, few⟩ := unsettled
  obtain ⟨before, after, split⟩ := List.append_of_mem here
  have front : items.Perm (a :: (before ++ after)) := by
    rw [split]
    exact List.perm_middle
  have inside : b ∈ before ++ after :=
    (List.mem_cons.mp (front.mem_iff.mp there)).resolve_left (Ne.symm apart)
  obtain ⟨left, right, around⟩ := List.append_of_mem inside
  obtain ⟨rest, whole⟩ : ∃ rest, rest = left ++ right := ⟨_, rfl⟩
  have both : items.Perm (a :: b :: rest) := by
    rw [around] at front
    rw [whole]
    exact front.trans (List.perm_middle.cons a)
  have above : items.countP (fun c => value a < value c) =
      rest.countP fun c => value a < value c := by
    rw [both.countP_eq, List.countP_cons_of_neg, List.countP_cons_of_neg]
    · simp [tie]
    · simp
  refine ⟨a, here, b, there, apart, a :: b :: rest, b :: a :: rest, both.symm,
    (both.trans (List.Perm.swap b a rest)).symm, rest.countP fun c => value a < value c, ?_, ?_⟩
  · have same : (b :: rest).countP (fun c => value a < value c) =
        rest.countP fun c => value a < value c :=
      List.countP_cons_of_neg (by simp [tie])
    rw [← same]
    exact getElem?_topBy_cons value (by rw [same, ← above]; exact few)
  · have same : (a :: rest).countP (fun c => value b < value c) =
        rest.countP fun c => value a < value c := by
      rw [tie]
      exact List.countP_cons_of_neg (by simp [tie])
    rw [← same]
    exact getElem?_topBy_cons value (by rw [same, ← above]; exact few)

end TopBy

end Perfdb
