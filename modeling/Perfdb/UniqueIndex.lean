import Mathlib
import Perfdb.Table

set_option autoImplicit false

/-! Indexes by a code that no two values of a table share: next to a table from ids to values,
the id of each code. -/

namespace Perfdb.Table

variable {κ ι α : Type} [Ord κ] [Std.TransOrd κ] [Std.LawfulEqOrd κ] [DecidableEq κ]
  [Ord ι] [Std.TransOrd ι] [Std.LawfulEqOrd ι] [DecidableEq ι]

/-- The code of the value of an id, if there is one and it has one. -/
def codeAt (codeOf : α → Option κ) (table : Table ι α) (id : ι) : Option κ :=
  table[id]?.bind codeOf

/-- No two values have the same code. -/
def Distinct (codeOf : α → Option κ) (table : Table ι α) : Prop :=
  ∀ code id other, codeAt codeOf table id = some code → codeAt codeOf table other = some code →
    id = other

/-- Every code leads to the id of its value, and no other code leads anywhere. -/
def Points (codeOf : α → Option κ) (index : Table κ ι) (table : Table ι α) : Prop :=
  ∀ code id, index[code]? = some id ↔ codeAt codeOf table id = some code

section Points

variable {codeOf : α → Option κ} {index later : Table κ ι} {table after : Table ι α}

omit [Std.LawfulEqOrd κ] [DecidableEq κ] [Std.LawfulEqOrd ι] [DecidableEq ι] in
theorem points_empty : Points codeOf (∅ : Table κ ι) (∅ : Table ι α) := by
  intro code id
  simp [codeAt]

omit [Ord κ] [Std.TransOrd κ] [Std.LawfulEqOrd κ] [DecidableEq κ] [Std.LawfulEqOrd ι]
  [DecidableEq ι] in
theorem Distinct.mono (distinct : Distinct codeOf table)
    (kept : ∀ id code, codeAt codeOf after id = some code → codeAt codeOf table id = some code) :
    Distinct codeOf after :=
  fun code id other first second =>
    distinct code id other (kept id code first) (kept other code second)

omit [Std.LawfulEqOrd κ] [DecidableEq κ] [Std.LawfulEqOrd ι] [DecidableEq ι] in
theorem Points.congr (points : Points codeOf index table)
    (same : ∀ id, codeAt codeOf after id = codeAt codeOf table id) :
    Points codeOf index after := by
  intro code id
  rw [same]
  exact points code id

omit [Std.LawfulEqOrd κ] [Std.LawfulEqOrd ι] [DecidableEq ι] in
/-- One value changes. Its old code leads nowhere any more, and its new one to it. -/
theorem Points.change (points : Points codeOf index table) (id : ι)
    (distinct : Distinct codeOf after)
    (others : ∀ other, other ≠ id → codeAt codeOf after other = codeAt codeOf table other)
    (entries : ∀ code, later[code]? =
      if codeAt codeOf after id = some code then some id
      else if codeAt codeOf table id = some code then none else index[code]?) :
    Points codeOf later after := by
  intro code other
  rw [entries]
  by_cases taken : codeAt codeOf after id = some code
  · rw [if_pos taken]
    constructor
    · intro same
      rwa [← Option.some.inj same]
    · intro found
      rw [distinct code id other taken found]
  · rw [if_neg taken]
    by_cases own : other = id
    · subst own
      refine iff_of_false (fun found => ?_) taken
      split at found
      · contradiction
      · rename_i left
        exact left ((points code other).mp found)
    · rw [others other own, ← points code other]
      by_cases given : codeAt codeOf table id = some code
      · rw [if_pos given]
        refine iff_of_false (by simp) fun found => ?_
        rw [(points code id).mpr given] at found
        exact own (Option.some.inj found).symm
      · rw [if_neg given]

end Points

/-- The value that a code leads to. -/
def findBy (index : Table κ ι) (table : Table ι α) (code : κ) : Option α := do
  let id ← index[code]?
  table[id]?

omit [Std.LawfulEqOrd κ] [DecidableEq κ] [Std.LawfulEqOrd ι] [DecidableEq ι] in
theorem Points.findBy_iff {codeOf : α → Option κ} {index : Table κ ι} {table : Table ι α}
    (points : Points codeOf index table) (code : κ) (value : α) :
    findBy index table code = some value ↔
      ∃ id : ι, table[id]? = some value ∧ codeOf value = some code := by
  constructor
  · intro found
    obtain ⟨id, listed, stored⟩ := Option.bind_eq_some_iff.mp found
    refine ⟨id, stored, ?_⟩
    have coded := (points code id).mp listed
    rwa [codeAt, stored, Option.bind_some] at coded
  · rintro ⟨id, stored, coded⟩
    have listed : index[code]? = some id := (points code id).mpr (by
      rw [codeAt, stored, Option.bind_some, coded])
    exact Option.bind_eq_some_iff.mpr ⟨id, listed, stored⟩

end Perfdb.Table
