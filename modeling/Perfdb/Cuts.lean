import Mathlib

set_option autoImplicit false

/-! Tasks that are done one after another in steps of their own, and what has been done of
them at some moment: a front of all their steps. -/

namespace Cut

variable {ε σ : Type*} {steps : ε → List σ} {tasks : List ε} {done : List σ}

/-- A front of two lists ends in the first of them or goes on into the second. -/
theorem prefix_append_cases {front left right : List σ} (inside : front <+: left ++ right) :
    front <+: left ∨ ∃ more, front = left ++ more ∧ more <+: right := by
  rcases List.prefix_or_prefix_of_prefix inside (List.prefix_append left right) with
    within | ⟨more, rfl⟩
  · exact Or.inl within
  · exact Or.inr ⟨more, rfl, (List.prefix_append_right_inj left).mp inside⟩

/-- What shows that a task has begun: its first step says so, and no other does. -/
structure Starts (steps : ε → List σ) (starts : σ → Option ε) : Prop where
  first : ∀ e, ∃ step rest, steps e = step :: rest ∧ starts step = some e
  others : ∀ e, (steps e).filterMap starts = [e]

variable {starts : σ → Option ε}

/-- The tasks that have begun are a front of all tasks, and nothing was done of others. -/
theorem Starts.begun (heads : Starts steps starts) (inside : done <+: tasks.flatMap steps) :
    done.filterMap starts <+: tasks ∧ done <+: (done.filterMap starts).flatMap steps := by
  induction tasks generalizing done with
  | nil =>
      obtain rfl := List.prefix_nil.mp inside
      exact ⟨List.prefix_refl _, List.prefix_refl _⟩
  | cons e tasks ih =>
      rcases prefix_append_cases inside with within | ⟨more, rfl, rest⟩
      · obtain ⟨step, rest, own, begins⟩ := heads.first e
        cases done with
        | nil => exact ⟨List.nil_prefix, List.nil_prefix⟩
        | cons head tail =>
            have single := within.filterMap starts
            have whole := within
            rw [own] at within
            obtain ⟨rfl, _⟩ := List.cons_prefix_cons.mp within
            rw [heads.others e, List.filterMap_cons_some begins] at single
            obtain ⟨_, none⟩ := List.cons_prefix_cons.mp single
            rw [List.filterMap_cons_some begins, List.prefix_nil.mp none]
            refine ⟨List.cons_prefix_cons.mpr ⟨rfl, List.nil_prefix⟩, ?_⟩
            rw [List.flatMap_singleton]
            exact whole
      · obtain ⟨front, covered⟩ := ih rest
        rw [List.filterMap_append, heads.others e]
        exact ⟨List.cons_prefix_cons.mpr ⟨rfl, front⟩,
          (List.prefix_append_right_inj (steps e)).mpr covered⟩

/-- What every task shows once is shown once by each of them. -/
theorem filterMap_all {shows : σ → Option ε} (once : ∀ e, (steps e).filterMap shows = [e])
    (tasks : List ε) : (tasks.flatMap steps).filterMap shows = tasks := by
  induction tasks with
  | nil => rfl
  | cons e tasks ih =>
      rw [List.flatMap_cons, List.filterMap_append, once e, ih]
      rfl

section Filter

variable {seen moves : σ → Bool}

/-- Of the steps that are seen those that move something come last. -/
structure Phases (seen moves : σ → Bool) (steps opening closing : List σ) : Prop where
  split : steps.filter seen = opening ++ closing
  still : ∀ step ∈ opening, moves step = false
  moving : ∀ step ∈ closing, moves step = true
  empty : closing = [] → opening = []
  once : closing.Nodup

namespace Phases

variable {all opening closing front : List σ}

theorem mem_closing (phases : Phases seen moves all opening closing) {step : σ}
    (closes : step ∈ closing) : step ∈ all ∧ seen step = true ∧ moves step = true := by
  have member : step ∈ all.filter seen := phases.split ▸ List.mem_append_right opening closes
  obtain ⟨inside, sees⟩ := List.mem_filter.mp member
  exact ⟨inside, sees, phases.moving step closes⟩

theorem filter_moves (phases : Phases seen moves all opening closing)
    (sees : ∀ step, moves step = true → seen step = true) : all.filter moves = closing := by
  have within : all.filter moves = (all.filter seen).filter moves := by
    rw [List.filter_filter]
    refine List.filter_congr fun step _ => ?_
    cases moving : moves step with
    | true => rw [sees step moving, Bool.and_self]
    | false => rfl
  have none : opening.filter moves = [] :=
    List.filter_eq_nil_iff.mpr fun step opens => by simp [phases.still step opens]
  rw [within, phases.split, List.filter_append, none, List.nil_append]
  exact List.filter_eq_self.mpr phases.moving

/-- A task that moves nothing is not seen at all. -/
theorem unseen (phases : Phases seen moves all opening closing)
    (none : ∀ step ∈ all, seen step = true → moves step = false) : all.filter seen = [] := by
  have last : closing = [] := by
    rw [List.eq_nil_iff_forall_not_mem]
    intro step closes
    obtain ⟨inside, sees, moves⟩ := phases.mem_closing closes
    rw [none step inside sees] at moves
    cases moves
  rw [phases.split, last, phases.empty last]
  rfl

/-- A front of a task that has made all moves of it shows the whole task. -/
theorem whole (phases : Phases seen moves all opening closing) (inside : front <+: all)
    (made : ∀ step ∈ all, seen step = true → moves step = true → step ∈ front) :
    front.filter seen = all.filter seen := by
  have reached (step : σ) (closes : step ∈ closing) : step ∈ front.filter seen := by
    obtain ⟨member, sees, moves⟩ := phases.mem_closing closes
    exact List.mem_filter.mpr ⟨made step member sees moves, sees⟩
  have short := inside.filter seen
  rw [phases.split] at short ⊢
  rcases prefix_append_cases short with within | ⟨more, grown, rest⟩
  · have last : closing = [] := by
      rw [List.eq_nil_iff_forall_not_mem]
      intro step closes
      have stays := phases.still step (within.subset (reached step closes))
      rw [phases.moving step closes] at stays
      cases stays
    rw [last, phases.empty last] at short ⊢
    exact List.prefix_nil.mp short
  · have inner : closing ⊆ more := by
      intro step closes
      have member := reached step closes
      rw [grown] at member
      rcases List.mem_append.mp member with early | late
      · have stays := phases.still step early
        rw [phases.moving step closes] at stays
        cases stays
      · exact late
    rw [grown, rest.eq_of_length_le (phases.once.subperm inner).length_le]

end Phases

/-- When every task has made all of its moves or none, what is seen of the steps are the
tasks that have made theirs, and openings of others. -/
theorem filter_done (own : ∀ a b step, step ∈ steps a → step ∈ steps b → a = b)
    (phases : ∀ e, ∃ opening closing, Phases seen moves (steps e) opening closing)
    (moved : ε → Bool) (nodup : tasks.Nodup) (inside : done <+: tasks.flatMap steps)
    (made : ∀ e ∈ tasks, ∀ step ∈ steps e, seen step = true → moves step = true →
      (step ∈ done ↔ moved e = true)) :
    ∃ extra, done.filter seen = ((tasks.filter moved).flatMap steps).filter seen ++ extra ∧
      ∀ step ∈ extra, moves step = false ∧ ∃ e ∈ tasks, moved e = false ∧ step ∈ steps e := by
  induction tasks generalizing done with
  | nil =>
      obtain rfl := List.prefix_nil.mp inside
      exact ⟨[], rfl, by simp⟩
  | cons e tasks ih =>
      obtain ⟨fresh, nodup⟩ := List.nodup_cons.mp nodup
      obtain ⟨opening, closing, parts⟩ := phases e
      have here := made e List.mem_cons_self
      have later := fun other inner => made other (List.mem_cons_of_mem e inner)
      have apart {other : ε} (inner : other ∈ tasks) {step : σ} (mine : step ∈ steps other) :
          step ∉ steps e := fun his => fresh (own e other step his mine ▸ inner)
      rcases prefix_append_cases inside with within | ⟨more, rfl, rest⟩
      · -- No later task has made a move, so those that should have do not make any.
        have unseen : ((tasks.filter moved).flatMap steps).filter seen = [] := by
          rw [List.filter_flatMap, List.flatMap_eq_nil_iff]
          intro other inner
          obtain ⟨inner, has⟩ := List.mem_filter.mp inner
          obtain ⟨_, _, phases⟩ := phases other
          refine phases.unseen fun step mine sees => ?_
          by_contra moves
          have there := (later other inner step mine sees (Bool.not_eq_false _ ▸ moves)).mpr has
          exact apart inner mine (within.subset there)
        cases has : moved e with
        | true =>
            have all := parts.whole within fun step mine sees moves =>
              (here step mine sees moves).mpr has
            refine ⟨[], ?_, by simp⟩
            rw [List.filter_cons_of_pos has, List.flatMap_cons, List.filter_append, unseen, all]
            simp
        | false =>
            refine ⟨done.filter seen, ?_, fun step inner => ?_⟩
            · rw [List.filter_cons_of_neg (by simp [has]), unseen, List.nil_append]
            · obtain ⟨inner, sees⟩ := List.mem_filter.mp inner
              have mine := within.subset inner
              refine ⟨?_, e, List.mem_cons_self, has, mine⟩
              by_contra moves
              have moved := (here step mine sees (Bool.not_eq_false _ ▸ moves)).mp inner
              rw [has] at moved
              cases moved
      · obtain ⟨extra, tail, opens⟩ := ih nodup rest fun other inner step mine sees moves => by
          have there := later other inner step mine sees moves
          rw [List.mem_append] at there
          exact (or_iff_right (apart inner mine)).symm.trans there
        refine ⟨extra, ?_, fun step inner => ?_⟩
        · rw [List.filter_append, tail, ← List.append_assoc]
          congr 1
          cases has : moved e with
          | true => rw [List.filter_cons_of_pos has, List.flatMap_cons, List.filter_append]
          | false =>
              have none := parts.unseen fun step mine sees => by
                by_contra moves
                have moved := (here step mine sees (Bool.not_eq_false _ ▸ moves)).mp
                  (List.mem_append_left more mine)
                rw [has] at moved
                cases moved
              rw [List.filter_cons_of_neg (by simp [has]), none, List.nil_append]
        · obtain ⟨stays, other, inner, rest⟩ := opens step inner
          exact ⟨stays, other, List.mem_cons_of_mem e inner, rest⟩

end Filter

end Cut
