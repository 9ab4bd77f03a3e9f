import Mathlib

set_option autoImplicit false

namespace Reordering

variable {μ ι : Type*}

/-- Two neighbours that are independent change places. -/
inductive Exchange (independent : μ → μ → Prop) : List μ → List μ → Prop where
  | swap (front back : List μ) {one other : μ} (apart : independent one other) :
      Exchange independent (front ++ one :: other :: back) (front ++ other :: one :: back)

/-- Any number of them do, one pair after another. -/
abbrev Reordered (independent : μ → μ → Prop) : List μ → List μ → Prop :=
  Relation.ReflTransGen (Exchange independent)

section Moves

variable {independent : μ → μ → Prop}

theorem Exchange.cons {one other : List μ} (head : μ) (moved : Exchange independent one other) :
    Exchange independent (head :: one) (head :: other) := by
  obtain ⟨front, back, apart⟩ := moved
  exact .swap (head :: front) back apart

theorem Reordered.cons {one other : List μ} (head : μ) (moved : Reordered independent one other) :
    Reordered independent (head :: one) (head :: other) :=
  Relation.ReflTransGen.lift (head :: ·) (fun _ _ => Exchange.cons head) _ _ moved

/-- An element moves past everything it is independent of. -/
theorem reordered_past {x : μ} (front back : List μ) (apart : ∀ y ∈ front, independent x y) :
    Reordered independent (x :: (front ++ back)) (front ++ x :: back) := by
  induction front with
  | nil => exact .refl
  | cons y front ih =>
      have first : Exchange independent (x :: y :: (front ++ back)) (y :: x :: (front ++ back)) :=
        .swap [] (front ++ back) (apart y List.mem_cons_self)
      exact .head first ((ih fun z member => apart z (List.mem_cons_of_mem y member)).cons y)

theorem Reordered.perm {one other : List μ} (moved : Reordered independent one other) :
    one.Perm other := by
  induction moved with
  | refl => exact .refl _
  | tail _ last ih =>
      obtain ⟨front, back, _⟩ := last
      exact ih.trans ((List.Perm.swap _ _ back).append_left front)

end Moves

section Runs

variable {σ : Type*} {step : σ → μ → σ} {independent : μ → μ → Prop} {same : σ → σ → Prop}

/-- Steps that respect a relation of states, and of which the independent ones commute up to it,
come to related states in either order. -/
theorem Reordered.foldl {one other : List μ} (moved : Reordered independent one other)
    (refl : ∀ s, same s s) (trans : ∀ s t u, same s t → same t u → same s u)
    (keeps : ∀ x ∈ one, ∀ s t, same s t → same (step s x) (step t x))
    (comm : ∀ x ∈ one, ∀ y ∈ one, independent x y →
      ∀ s, same (step (step s x) y) (step (step s y) x)) (start : σ) :
    same (one.foldl step start) (other.foldl step start) := by
  have follow (rest : List μ) (inside : ∀ x ∈ rest, x ∈ one) {s t : σ} (alike : same s t) :
      same (rest.foldl step s) (rest.foldl step t) := by
    induction rest generalizing s t with
    | nil => exact alike
    | cons x rest ih =>
        exact ih (fun y member => inside y (List.mem_cons_of_mem x member))
          (keeps x (inside x List.mem_cons_self) s t alike)
  induction moved with
  | refl => exact refl _
  | tail before last ih =>
      refine trans _ _ _ ih ?_
      have inside {x : μ} := (Reordered.perm before).mem_iff (a := x)
      obtain ⟨front, back, apart⟩ := last
      simp only [List.foldl_append, List.foldl_cons]
      refine follow back (fun x member => inside.mpr (by simp [member])) ?_
      exact comm _ (inside.mpr (by simp)) _ (inside.mpr (by simp)) apart _

end Runs

section Order

variable [DecidableEq μ]

/-- Two elements that depend on each other come in the same order in both lists, and as often. -/
def SameOrder (dependent : μ → μ → Prop) (xs ys : List μ) : Prop :=
  ∀ one other, dependent one other →
    xs.filter (fun x => x = one ∨ x = other) = ys.filter fun x => x = one ∨ x = other

variable {dependent : μ → μ → Prop} {x : μ} {xs front back : List μ}

/-- What comes before the first element of the other list does not depend on it. -/
theorem SameOrder.apart (ordered : SameOrder dependent (x :: xs) (front ++ x :: back))
    (first : x ∉ front) {one other : μ} (depends : dependent one other) (here : x = one ∨ x = other) :
    front.filter (fun y => y = one ∨ y = other) = [] := by
  have equal := ordered one other depends
  rw [List.filter_append, List.filter_cons_of_pos (by simpa using here)] at equal
  cases found : front.filter (fun y => y = one ∨ y = other) with
  | nil => rfl
  | cons y rest =>
      rw [found, List.cons_append] at equal
      obtain ⟨rfl, _⟩ := List.cons.inj equal
      have inside : x ∈ front.filter (fun y => y = one ∨ y = other) := by
        rw [found]
        exact List.mem_cons_self
      exact absurd (List.mem_of_mem_filter inside) first

theorem SameOrder.tail (ordered : SameOrder dependent (x :: xs) (front ++ x :: back))
    (first : x ∉ front) : SameOrder dependent xs (front ++ back) := by
  intro one other depends
  have equal := ordered one other depends
  by_cases here : x = one ∨ x = other
  · have none := ordered.apart first depends here
    have kept : decide (x = one ∨ x = other) = true := by simpa using here
    rw [List.filter_append, none, List.filter_cons_of_pos (by exact kept),
      List.filter_cons_of_pos (by exact kept)] at equal
    rw [List.filter_append, none]
    exact (List.cons.inj equal).2
  · have dropped : ¬ decide (x = one ∨ x = other) = true := by simpa using here
    rw [List.filter_append, List.filter_cons_of_neg (by exact dropped),
      List.filter_cons_of_neg (by exact dropped)] at equal
    rw [List.filter_append]
    exact equal

/-- Lists that agree in the order of what depends on each other are reorderings of each
other. -/
theorem SameOrder.reordered {xs ys : List μ} (ordered : SameOrder dependent xs ys)
    (refl : ∀ x, dependent x x) :
    Reordered (fun one other => ¬ dependent one other) xs ys := by
  induction xs generalizing ys with
  | nil =>
      cases ys with
      | nil => exact .refl
      | cons y ys =>
          have equal := ordered y y (refl y)
          rw [List.filter_cons_of_pos (by simp)] at equal
          cases equal
  | cons x xs ih =>
      have member : x ∈ ys := by
        have inside : x ∈ ys.filter (fun y => y = x ∨ y = x) := by
          rw [← ordered x x (refl x), List.filter_cons_of_pos (by simp)]
          exact List.mem_cons_self
        exact List.mem_of_mem_filter inside
      obtain ⟨front, back, rfl, first⟩ := List.eq_append_cons_of_mem member
      refine ((ih (ordered.tail first)).cons x).trans (reordered_past front back ?_)
      intro y before depends
      have none := ordered.apart first depends (Or.inl rfl)
      have inside : y ∈ front.filter (fun z => z = x ∨ z = y) :=
        List.mem_filter.mpr ⟨before, by simp⟩
      rw [none] at inside
      cases inside

/-- Exchanges of elements that do not depend on each other keep the order of what does. -/
theorem Reordered.sameOrder {xs ys : List μ}
    (moved : Reordered (fun one other => ¬ dependent one other) xs ys)
    (symm : ∀ one other, dependent one other → dependent other one) :
    SameOrder dependent xs ys := by
  induction moved with
  | refl => exact fun _ _ _ => rfl
  | tail _ last ih =>
      intro one other depends
      refine (ih one other depends).trans ?_
      cases last with
      | @swap front back x y apart =>
          simp only [List.filter_append, List.filter_cons]
          refine congrArg (front.filter _ ++ ·) ?_
          by_cases here : x = one ∨ x = other
          · by_cases there : y = one ∨ y = other
            · have same : x = y := by
                by_contra differ
                rcases here with rfl | rfl <;> rcases there with rfl | rfl
                · exact differ rfl
                · exact apart depends
                · exact apart (symm _ _ depends)
                · exact differ rfl
              rw [same]
            · simp [there]
          · simp [here]

/-- Elements of one class depend on each other: it is enough that the classes agree. -/
theorem sameOrder_of_classes [DecidableEq ι] (cls : μ → ι) {xs ys : List μ}
    (agree : ∀ c, xs.filter (fun x => cls x = c) = ys.filter fun x => cls x = c) :
    SameOrder (fun one other => cls one = cls other) xs ys := by
  intro one other alike
  have within (zs : List μ) : zs.filter (fun x => x = one ∨ x = other) =
      (zs.filter fun x => cls x = cls other).filter fun x => x = one ∨ x = other := by
    rw [List.filter_filter]
    apply List.filter_congr
    intro x _
    by_cases is_one : x = one
    · simp [is_one, alike]
    · by_cases is_other : x = other
      · simp [is_other]
      · simp [is_one, is_other]
  rw [within xs, within ys, agree]

end Order

end Reordering
