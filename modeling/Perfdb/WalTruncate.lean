import Mathlib
import Perfdb.Table
import Perfdb.WalLog

set_option autoImplicit false

namespace Perfdb.Wal

section Entries

variable {fmt : Format} {segments after : Nat → Bytes}

theorem entriesBelow_emptied {bound : Nat}
    (emptied : ∀ id, after id = if id < bound then [] else segments id) (limit : Nat)
    (inside : bound ≤ limit) : entriesBelow fmt segments limit =
      entriesBelow fmt segments bound ++ entriesBelow fmt after limit := by
  induction limit with
  | zero =>
      have none : bound = 0 := by omega
      rw [none]
      rfl
  | succ limit ih =>
      by_cases edge : bound = limit + 1
      · have blank : ∀ id < limit + 1, after id = (fun _ => []) id := by
          intro id below
          rw [emptied, if_pos (by omega)]
        have empty : entriesBelow fmt after (limit + 1) = [] := by
          rw [entriesBelow_congr (limit + 1) blank]
          exact entriesBelow_eq_nil _ fun _ => rfl
        rw [empty, List.append_nil, edge]
      · rw [entriesBelow_succ, entriesBelow_succ, ih (by omega), emptied limit,
          if_neg (by omega), List.append_assoc]

end Entries

section Truncate

variable {dir : Dir} (order : Iteration) (path : String) (keepFrom : Nat)

/-- Deleting the files of some listed segments, one after the other. -/
theorem truncate_files (ids : List Nat) (distinct : ids.Nodup)
    (present : ∀ id ∈ ids, segmentName id ∈ dir) (count : Nat) :
    ∃ kept removed, ids.foldlM (fun (dir, removed) id =>
        if id < keepFrom then
          if segmentName id ∈ dir then .ok (dir.erase (segmentName id), removed + 1)
          else .error (.io ("remove WAL segment: " ++ segmentPath path id))
        else .ok (dir, removed)) (dir, count) = (.ok (kept, removed) : Except PerfDbError _) ∧
      ∀ name, kept[name]? =
        if ∃ id ∈ ids, id < keepFrom ∧ segmentName id = name then none else dir[name]? := by
  induction ids generalizing dir count with
  | nil => exact ⟨dir, count, rfl, fun name => by simp⟩
  | cons id ids ih =>
      obtain ⟨fresh, distinct⟩ := List.nodup_cons.mp distinct
      have here := present id List.mem_cons_self
      by_cases below : id < keepFrom
      · have others : ∀ other ∈ ids, segmentName other ∈ dir.erase (segmentName id) := by
          intro other member
          rw [Std.ExtTreeMap.mem_erase, ne_eq, Table.compare_eq_iff, segmentName_inj]
          refine ⟨fun same => fresh (same ▸ member), present other (List.mem_cons_of_mem id member)⟩
        obtain ⟨kept, removed, run, left⟩ := ih distinct others (count + 1)
        refine ⟨kept, removed, ?_, fun name => ?_⟩
        · rw [List.foldlM_cons]
          simp only [below, here, ↓reduceIte]
          exact run
        · rw [left, Std.ExtTreeMap.getElem?_erase]
          simp only [Table.compare_eq_iff, List.mem_cons, exists_eq_or_imp, below, true_and]
          by_cases first : segmentName id = name
          · simp [first]
          · simp [first]
      · obtain ⟨kept, removed, run, left⟩ := ih distinct
          (fun other member => present other (List.mem_cons_of_mem id member)) count
        refine ⟨kept, removed, ?_, fun name => ?_⟩
        · rw [List.foldlM_cons]
          simp only [below, ↓reduceIte]
          exact run
        · rw [left]
          simp only [List.mem_cons, exists_eq_or_imp, below, false_and, false_or]

/-- Truncation returns, and what it leaves has the segments from the bound on. -/
theorem truncateBefore_returns (tidy : Tidy dir) :
    ∃ kept removed, truncateBefore order path dir keepFrom = .ok (kept, removed) ∧ Tidy kept ∧
      (∀ id, segmentName id ∈ kept ↔ keepFrom ≤ id ∧ segmentName id ∈ dir) ∧
      ∀ id, segmentsOf kept id = if id < keepFrom then [] else segmentsOf dir id := by
  obtain ⟨kept, removed, run, left⟩ := truncate_files path keepFrom (listSegments order dir)
    (listSegments_nodup order tidy) (fun id => (mem_listSegments order tidy id).mp) 0
  have file (id : Nat) : kept[segmentName id]? =
      if id < keepFrom then none else dir[segmentName id]? := by
    rw [left]
    by_cases present : segmentName id ∈ dir
    · have listed := (mem_listSegments order tidy id).mpr present
      by_cases below : id < keepFrom
      · rw [if_pos ⟨id, listed, below, rfl⟩, if_pos below]
      · rw [if_neg, if_neg below]
        rintro ⟨other, _, small, same⟩
        rw [segmentName_inj] at same
        omega
    · rw [Std.ExtTreeMap.getElem?_eq_none present, ite_self, ite_self]
  have within (name : String) (member : name ∈ kept) : name ∈ dir := by
    rw [Std.ExtTreeMap.mem_iff_isSome_getElem?, left] at member
    split at member
    · contradiction
    · exact Std.ExtTreeMap.mem_iff_isSome_getElem?.mpr member
  refine ⟨kept, removed, run, fun name member => tidy name (within name member), fun id => ?_,
    fun id => ?_⟩
  · rw [Std.ExtTreeMap.mem_iff_isSome_getElem?, file, Std.ExtTreeMap.mem_iff_isSome_getElem?]
    by_cases below : id < keepFrom
    · simp [below]
    · simp [below, Nat.not_lt.mp below]
  · rw [segmentsOf, Dir.contents, file]
    split <;> rfl

/-- A truncated log stands for what the deleted segments did not hold. -/
theorem Clean.truncate {fmt : Format} {entries : List WalEntry} (clean : Clean fmt dir entries) :
    ∃ kept removed left, truncateBefore order path dir keepFrom = .ok (kept, removed) ∧
      entries = entriesBelow fmt (segmentsOf dir) keepFrom ++ left ∧ Clean fmt kept left := by
  obtain ⟨tidy, last, ends, whole⟩ := clean
  obtain ⟨kept, removed, run, tidyKept, present, emptied⟩ :=
    truncateBefore_returns order path keepFrom tidy
  by_cases inside : keepFrom ≤ last
  · obtain ⟨behind, back, sound, bytes, split⟩ := whole
    refine ⟨kept, removed, entriesBelow fmt (segmentsOf kept) last ++ back, run, ?_, tidyKept, last,
      ?_, fun id beyond => ?_, back, sound, ?_, rfl⟩
    · rw [← split, entriesBelow_emptied emptied last inside, List.append_assoc]
    · rcases ends with held | absent
      · exact Or.inl ((present last).mpr ⟨inside, held⟩)
      · exact Or.inr fun id member => absent id ((present id).mp member).2
    · rw [emptied, behind id beyond, ite_self]
    · rw [emptied, if_neg (by omega), bytes]
  · have empty (id : Nat) : segmentsOf kept id = [] := by
      rw [emptied]
      by_cases below : id < keepFrom
      · exact if_pos below
      · rw [if_neg below]
        exact whole.1 id (by omega)
    refine ⟨kept, removed, [], run, ?_, tidyKept, ?_⟩
    · rw [whole.entriesBelow (by omega), List.append_nil]
    · by_cases some : ∃ id, segmentName id ∈ kept
      · obtain ⟨id, held⟩ := some
        exact ⟨id, Or.inl held, whole_of_empty id empty⟩
      · exact ⟨0, Or.inr fun id held => some ⟨id, held⟩, whole_of_empty 0 empty⟩

end Truncate

end Perfdb.Wal
