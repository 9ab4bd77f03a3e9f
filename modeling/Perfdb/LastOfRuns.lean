import Mathlib

set_option autoImplicit false

/-! Lists in which a record takes the place of the last one when both have the same key: what
is left of a sequence is the last record of each of its runs. -/

namespace Perfdb

variable {α κ : Type*} [DecidableEq κ] (key : α → κ)

/-- The maximal runs of neighbours with the same key. -/
def runsOf (records : List α) : List (List α) :=
  records.splitBy fun a b => decide (key a = key b)

def lastOfRuns (records : List α) : List α := (runsOf key records).filterMap List.getLast?

/-- The last record gives way to one with the same key. -/
def supersede (records : List α) (record : α) : List α :=
  if records.getLast?.map key = some (key record) then records.dropLast ++ [record]
  else records ++ [record]

@[simp] theorem lastOfRuns_nil : lastOfRuns key [] = [] := rfl

@[simp] theorem supersede_nil (record : α) : supersede key [] record = [record] := rfl

theorem supersede_length_le (records : List α) (record : α) :
    (supersede key records record).length ≤ records.length + 1 := by
  unfold supersede
  split <;> simp

/-- The last run of a sequence ends with its last record. -/
theorem runsOf_concat (front : List α) (last : α) :
    ∃ runs run, runsOf key (front ++ [last]) = runs ++ [run ++ [last]] := by
  have flat : (runsOf key (front ++ [last])).flatten = front ++ [last] := List.flatten_splitBy _ _
  rcases List.eq_nil_or_concat (runsOf key (front ++ [last])) with none | ⟨runs, run, whole⟩
  · rw [none] at flat
    simp at flat
  · rw [List.concat_eq_append] at whole
    have filled : run ≠ [] :=
      List.ne_nil_of_mem_splitBy (show run ∈ runsOf key (front ++ [last]) by simp [whole])
    obtain ⟨front_run, end_, rfl⟩ := (List.eq_nil_or_concat run).resolve_left filled
    rw [whole, List.concat_eq_append, List.flatten_append, List.flatten_singleton,
      ← List.append_assoc] at flat
    obtain rfl : end_ = last := by simpa using congrArg List.getLast? flat
    exact ⟨runs, front_run, by rw [whole, List.concat_eq_append]⟩

/-- A record with the key of the one before it goes on with its run. -/
theorem runsOf_append_same {front : List α} {runs : List (List α)} {run : List α} {prev last : α}
    (before : runsOf key front = runs ++ [run ++ [prev]]) (same : key prev = key last) :
    runsOf key (front ++ [last]) = runs ++ [run ++ [prev, last]] := by
  obtain ⟨flat, filled, alike, apart⟩ := List.splitBy_eq_iff.mp before
  refine List.splitBy_eq_iff.mpr ⟨?_, ?_, fun part member => ?_, ?_⟩
  · rw [flat]
    simp
  · simpa using filled
  · rcases List.mem_append.mp member with old | new
    · exact alike part (List.mem_append_left _ old)
    · obtain rfl := List.mem_singleton.mp new
      have chain := alike (run ++ [prev]) (by simp)
      rw [show run ++ [prev, last] = (run ++ [prev]) ++ [last] by simp]
      refine List.isChain_append.mpr ⟨chain, List.isChain_singleton _, ?_⟩
      simpa using same
  · rw [List.isChain_append] at apart ⊢
    refine ⟨apart.1, List.isChain_singleton _, fun part inside last_part only => ?_⟩
    obtain rfl := (Option.some.inj only).symm
    obtain ⟨nonempty, _, differs⟩ := apart.2.2 part inside (run ++ [prev]) rfl
    refine ⟨nonempty, by simp, ?_⟩
    cases run with
    | nil => exact differs
    | cons _ _ => exact differs

/-- A record takes the place of the last one, or comes behind it. -/
theorem lastOfRuns_append_one (records : List α) (record : α) :
    lastOfRuns key (records ++ [record]) = supersede key (lastOfRuns key records) record := by
  rcases List.eq_nil_or_concat records with rfl | ⟨front, prev, rfl⟩
  · rfl
  · obtain ⟨runs, run, before⟩ := runsOf_concat key front prev
    have kept : lastOfRuns key (front ++ [prev]) = runs.filterMap List.getLast? ++ [prev] := by
      rw [lastOfRuns, before]
      simp
    rw [List.concat_eq_append, kept, supersede, List.getLast?_concat, Option.map_some,
      List.dropLast_concat]
    by_cases same : key prev = key record
    · rw [if_pos (congrArg some same), lastOfRuns, runsOf_append_same key before same]
      simp
    · have parted : runsOf key (front ++ [prev] ++ [record]) =
          runsOf key (front ++ [prev]) ++ [[record]] :=
        List.splitBy_append_cons [] (by simpa using same)
      rw [if_neg (mt Option.some.inj same), lastOfRuns, parted, List.filterMap_append, ← lastOfRuns,
        kept]
      rfl

theorem lastOfRuns_length_le (records : List α) :
    (lastOfRuns key records).length ≤ records.length := by
  induction records using List.reverseRecOn with
  | nil => exact Nat.le_refl 0
  | append_singleton front last ih =>
      have grown := supersede_length_le key (lastOfRuns key front) last
      rw [lastOfRuns_append_one, List.length_append, List.length_singleton]
      omega

theorem getLast?_lastOfRuns (records : List α) :
    (lastOfRuns key records).getLast? = records.getLast? := by
  rcases List.eq_nil_or_concat records with rfl | ⟨front, last, rfl⟩
  · rfl
  · rw [List.concat_eq_append, lastOfRuns_append_one, supersede]
    split <;> simp

/-- Where the keys never go down, those that are left go up. -/
theorem lastOfRuns_increasing [PartialOrder κ] {records : List α}
    (ordered : (records.map key).IsChain (· ≤ ·)) :
    ((lastOfRuns key records).map key).IsChain (· < ·) := by
  induction records using List.reverseRecOn with
  | nil => exact List.isChain_nil
  | append_singleton front last ih =>
      rw [List.map_append, List.isChain_append] at ordered
      have increasing := ih ordered.1
      have ends := getLast?_lastOfRuns key front
      rw [lastOfRuns_append_one, supersede]
      split
      · rename_i same
        obtain ⟨prev, kept, equal⟩ := Option.map_eq_some_iff.mp same
        rw [← List.dropLast_append_getLast? prev kept, List.map_append] at increasing
        rw [List.map_append, List.map_singleton, ← equal]
        exact increasing
      · rename_i differs
        rw [List.map_append]
        refine List.isChain_append.mpr ⟨increasing, List.isChain_singleton _, ?_⟩
        intro low inside high only
        rw [List.getLast?_map, ends, ← List.getLast?_map] at inside
        refine lt_of_le_of_ne (ordered.2.2 low inside high only) ?_
        rintro rfl
        rw [ends, ← List.getLast?_map] at differs
        rw [List.map_singleton, List.head?_singleton] at only
        exact differs (only ▸ inside)

end Perfdb
