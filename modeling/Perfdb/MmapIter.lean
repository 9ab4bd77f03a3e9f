import Mathlib
import Perfdb.MmapRecords

set_option autoImplicit false

namespace Perfdb.Mmap

/-- Zero-copy iterator over fixed-size records in a mapped file. -/
structure RecordIter where
  offset : Nat
  deriving DecidableEq

namespace RecordIter

variable {α : Type}

def new : RecordIter := ⟨0⟩

def next (overflow : Overflow) (pod : Pod α) (s : Opened) (iter : RecordIter) :
    Except Fault (Option α × RecordIter) := do
  match ← s.readRecord overflow pod iter.offset with
  | none => pure (none, iter)
  | some record => do
      let offset ← overflow.add iter.offset pod.size
      pure (some record, ⟨offset⟩)

/-- The lower and the upper bound; the subtraction saturates. -/
def sizeHint (pod : Pod α) (s : Opened) (iter : RecordIter) : Nat × Option Nat :=
  let remaining := (s.file.logicalLen - iter.offset) / pod.size
  (remaining, some remaining)

/-- So many calls of `next`, one after the other. -/
def calls (overflow : Overflow) (pod : Pod α) (s : Opened) :
    Nat → RecordIter → Except Fault (List (Option α) × RecordIter)
  | 0, iter => pure ([], iter)
  | count + 1, iter => do
      let (first, iter) ← iter.next overflow pod s
      let (others, iter) ← calls overflow pod s count iter
      pure (first :: others, iter)

end RecordIter

/-- A mapped file whose logical length is at most its capacity. The mapping is the header and
the capacity, and no larger than a slice can be. -/
structure Opened.Roomy (s : Opened) : Prop where
  logicalLen : s.file.logicalLen ≤ s.file.capacity
  mapped : s.file.mapped = headerSize + s.file.capacity
  size : s.file.mapped < 2 ^ 63

theorem Opened.Holds.roomy {s : Opened} {payload : Bytes} (holds : s.Holds payload) : s.Roomy := by
  obtain ⟨⟨rest, layout, mapped, within⟩, logicalLen, inside⟩ := holds
  have size := layout.size
  refine ⟨?_, mapped, ?_⟩
  · rw [logicalLen]
    exact inside
  · omega

section Iteration

variable {α : Type} {pod : Pod α} {overflow : Overflow} {s : Opened}

def Opened.recordAt (pod : Pod α) (s : Opened) (i : Nat) : α :=
  pod.fromBytes ((s.bytes.drop (headerSize + i * pod.size)).take pod.size)

theorem Pod.cast_length (pod : Pod α) (count : Nat) (bytes : Bytes) :
    (pod.cast count bytes).length = count := by
  induction count generalizing bytes with
  | zero => rfl
  | succ count ih => rw [cast, List.length_cons, ih]

theorem Pod.cast_get (pod : Pod α) {count i : Nat} (inside : i < count) (bytes : Bytes) :
    (pod.cast count bytes)[i]? = some (pod.fromBytes ((bytes.drop (i * pod.size)).take pod.size)) := by
  induction count generalizing i bytes with
  | zero => omega
  | succ count ih =>
      cases i with
      | zero => rw [cast, List.getElem?_cons_zero, Nat.zero_mul, List.drop_zero]
      | succ i =>
          rw [cast, List.getElem?_cons_succ, ih (by omega), List.drop_drop, Nat.succ_mul,
            Nat.add_comm pod.size]

theorem Opened.Roomy.slice (roomy : s.Roomy) {start stop : Nat} (ordered : start ≤ stop)
    (inside : stop ≤ s.file.logicalLen) :
    s.slice (headerSize + start) (headerSize + stop) =
      .ok ((s.bytes.drop (headerSize + start)).take (stop - start)) := by
  have mapped := roomy.mapped
  have logicalLen := roomy.logicalLen
  rw [Opened.slice, if_pos (by omega), List.drop_take, Nat.add_sub_add_left]

/-- A record that ends inside the logical length is read, and no other is. -/
theorem Opened.Roomy.readRecord (roomy : s.Roomy) {i : Nat}
    (near : i * pod.size ≤ s.file.logicalLen) :
    s.readRecord overflow pod (i * pod.size) =
      .ok (if s.file.logicalLen < (i + 1) * pod.size then none else some (s.recordAt pod i)) := by
  have bounded := pod.bounded
  obtain ⟨logicalLen, mapped, size⟩ := roomy
  have stop : (i + 1) * pod.size = i * pod.size + pod.size := Nat.succ_mul _ _
  simp only [headerSize] at mapped
  unfold Opened.readRecord Opened.readAt
  rw [Overflow.add_ok (by omega), ← stop]
  change (if s.file.logicalLen < (i + 1) * pod.size then _ else _) >>= _ = _
  by_cases beyond : s.file.logicalLen < (i + 1) * pod.size
  · rw [if_pos beyond, if_pos beyond]
    rfl
  · have first : overflow.add headerSize (i * pod.size) = .ok (headerSize + i * pod.size) :=
      Overflow.add_ok (by simp only [headerSize]; omega)
    have second : overflow.add (headerSize + i * pod.size) pod.size =
        .ok (headerSize + (i + 1) * pod.size) := by
      rw [stop, ← Nat.add_assoc]
      exact Overflow.add_ok (by simp only [headerSize]; omega)
    have read := (show s.Roomy from ⟨logicalLen, by simpa only [headerSize] using mapped,
      size⟩).slice (show i * pod.size ≤ (i + 1) * pod.size by omega) (by omega)
    have width : (i + 1) * pod.size - i * pod.size = pod.size := by omega
    rw [width] at read
    rw [if_neg beyond, if_neg beyond, first]
    change (overflow.add (headerSize + i * pod.size) pod.size >>= _) >>= _ = _
    rw [second]
    change (s.slice (headerSize + i * pod.size) (headerSize + (i + 1) * pod.size) >>= _) >>= _ = _
    rw [read]
    rfl

/-- Whether there is another whole record is a question of the count. -/
theorem beyond_iff {i : Nat} :
    s.file.logicalLen < (i + 1) * pod.size ↔ s.recordCount pod ≤ i := by
  rw [Opened.recordCount, ← Nat.lt_succ_iff, Nat.div_lt_iff_lt_mul pod.positive]

theorem Opened.Roomy.asSlice (roomy : s.Roomy) :
    s.asSlice overflow pod = .ok (pod.cast (s.recordCount pod) (s.bytes.drop headerSize)) := by
  have below : s.recordCount pod * pod.size ≤ s.file.logicalLen := Nat.div_mul_le_self _ _
  unfold Opened.asSlice
  by_cases empty : s.file.logicalLen = 0
  · rw [if_pos empty, Opened.recordCount, empty, Nat.zero_div]
    rfl
  · have stop : overflow.add headerSize (s.recordCount pod * pod.size) =
        .ok (headerSize + s.recordCount pod * pod.size) := by
      have mapped := roomy.mapped
      have logicalLen := roomy.logicalLen
      have size := roomy.size
      exact Overflow.add_ok (by omega)
    have whole := roomy.slice (Nat.zero_le _) below
    rw [Nat.add_zero, Nat.sub_zero] at whole
    rw [if_neg empty]
    change overflow.add headerSize (s.recordCount pod * pod.size) >>= _ = _
    rw [stop]
    change s.slice headerSize (headerSize + s.recordCount pod * pod.size) >>= _ = _
    rw [whole]
    exact congrArg Except.ok (pod.cast_take _ _)

/-- A call at a place with a record takes it, and a call behind the last one changes nothing. -/
theorem Opened.Roomy.next (roomy : s.Roomy) {i : Nat} (near : i ≤ s.recordCount pod) :
    (RecordIter.mk (i * pod.size)).next overflow pod s =
      .ok (if s.recordCount pod ≤ i then (none, ⟨i * pod.size⟩)
        else (some (s.recordAt pod i), ⟨(i + 1) * pod.size⟩)) := by
  have below : s.recordCount pod * pod.size ≤ s.file.logicalLen := Nat.div_mul_le_self _ _
  have inside : i * pod.size ≤ s.file.logicalLen :=
    Nat.le_trans (Nat.mul_le_mul_right _ near) below
  have bounded := pod.bounded
  have stop : (i + 1) * pod.size = i * pod.size + pod.size := Nat.succ_mul _ _
  unfold RecordIter.next
  rw [roomy.readRecord inside, if_congr beyond_iff rfl rfl]
  by_cases last : s.recordCount pod ≤ i
  · rw [if_pos last, if_pos last]
    rfl
  · have add : overflow.add (i * pod.size) pod.size = .ok ((i + 1) * pod.size) := by
      have mapped := roomy.mapped
      have logicalLen := roomy.logicalLen
      have size := roomy.size
      rw [stop]
      exact Overflow.add_ok (by omega)
    rw [if_neg last, if_neg last]
    change overflow.add (i * pod.size) pod.size >>= _ = _
    rw [add]
    rfl

theorem sizeHint_eq {i : Nat} (near : i ≤ s.recordCount pod) :
    (RecordIter.mk (i * pod.size)).sizeHint pod s =
      (s.recordCount pod - i, some (s.recordCount pod - i)) := by
  have inside : pod.size * i ≤ s.file.logicalLen := by
    rw [Nat.mul_comm]
    exact (Nat.mul_le_mul_right _ near).trans (Nat.div_mul_le_self _ _)
  have remaining : (s.file.logicalLen - i * pod.size) / pod.size = s.recordCount pod - i := by
    rw [Nat.mul_comm i]
    exact Nat.sub_mul_div_of_le _ _ _ inside
  rw [RecordIter.sizeHint, remaining]

/-- So many calls from a place take the records from there on, and then nothing. -/
theorem Opened.Roomy.calls (roomy : s.Roomy) (count : Nat) {i : Nat}
    (near : i ≤ s.recordCount pod) :
    RecordIter.calls overflow pod s count ⟨i * pod.size⟩ =
      .ok (((((List.range (s.recordCount pod)).map (s.recordAt pod)).drop i).take count).map some ++
        List.replicate (i + count - s.recordCount pod) none,
        ⟨min (i + count) (s.recordCount pod) * pod.size⟩) := by
  induction count generalizing i with
  | zero =>
      rw [Nat.add_zero, Nat.sub_eq_zero_of_le near, Nat.min_eq_left near, List.take_zero]
      rfl
  | succ count ih =>
      unfold RecordIter.calls
      rw [roomy.next near]
      by_cases last : s.recordCount pod ≤ i
      · obtain rfl : i = s.recordCount pod := Nat.le_antisymm near last
        have none : ((List.range (s.recordCount pod)).map (s.recordAt pod)).drop
            (s.recordCount pod) = [] :=
          List.drop_eq_nil_of_le (by rw [List.length_map, List.length_range])
        rw [if_pos last]
        change RecordIter.calls overflow pod s count ⟨s.recordCount pod * pod.size⟩ >>= _ = _
        rw [ih near, none, List.take_nil, List.take_nil, Nat.add_sub_cancel_left,
          Nat.add_sub_cancel_left, List.replicate_succ, Nat.min_eq_right (by omega),
          Nat.min_eq_right (by omega)]
        rfl
      · have here : i < ((List.range (s.recordCount pod)).map (s.recordAt pod)).length := by
          rw [List.length_map, List.length_range]
          omega
        have first : ((List.range (s.recordCount pod)).map (s.recordAt pod))[i] =
            s.recordAt pod i := by
          rw [List.getElem_map, List.getElem_range]
        rw [if_neg last]
        change RecordIter.calls overflow pod s count ⟨(i + 1) * pod.size⟩ >>= _ = _
        rw [ih (by omega), List.drop_eq_getElem_cons here, first, Nat.add_right_comm,
          Nat.add_assoc, List.take_succ_cons]
        rfl

end Iteration

/-- The records of the slice are the whole records of the data. Calls of `next` take them one
by one and then nothing any more, and the hint is exact after each of them. -/
theorem iterates_slice {α : Type} (overflow : Overflow) (pod : Pod α) (s : Opened)
    (roomy : s.Roomy) :
    ∃ records, s.asSlice overflow pod = .ok records ∧
      records.length = s.file.logicalLen / pod.size ∧
      s.recordCount pod = s.file.logicalLen / pod.size ∧
      (∀ i, i < records.length → records[i]? = some (pod.fromBytes
        ((s.bytes.drop (headerSize + i * pod.size)).take pod.size))) ∧
      ∀ count, ∃ iter, RecordIter.new.calls overflow pod s count = .ok
          ((records.take count).map some ++ List.replicate (count - records.length) none, iter) ∧
        iter.sizeHint pod s = (records.length - count, some (records.length - count)) := by
  have same : pod.cast (s.recordCount pod) (s.bytes.drop headerSize) =
      (List.range (s.recordCount pod)).map (s.recordAt pod) := by
    apply List.ext_getElem?
    intro i
    by_cases inside : i < s.recordCount pod
    · rw [pod.cast_get inside, List.getElem?_map, List.getElem?_range inside, List.drop_drop]
      rfl
    · rw [List.getElem?_eq_none (by rw [Pod.cast_length]; omega),
        List.getElem?_eq_none (by rw [List.length_map, List.length_range]; omega)]
  have length := Pod.cast_length pod (s.recordCount pod) (s.bytes.drop headerSize)
  refine ⟨_, roomy.asSlice, length, rfl, fun i inside => ?_, fun count => ?_⟩
  · rw [length] at inside
    rw [pod.cast_get inside, List.drop_drop]
  · have called := @Opened.Roomy.calls α pod overflow s roomy count 0 (Nat.zero_le _)
    rw [Nat.zero_mul, Nat.zero_add, List.drop_zero, ← same] at called
    refine ⟨⟨min count (s.recordCount pod) * pod.size⟩, ?_, ?_⟩
    · rw [length]
      exact called
    · rw [sizeHint_eq (Nat.min_le_right _ _), length]
      have left : s.recordCount pod - min count (s.recordCount pod) =
          s.recordCount pod - count := by omega
      rw [left]

def partTick : Opened where
  file := ⟨"market_0000.tick", 68, 50, 60⟩
  files := ⟨fun _ => some (List.replicate 68 1), []⟩

theorem iterates_slice_part :
    ∃ records, partTick.asSlice .wrapping tickPod = .ok records ∧
      records.length = partTick.file.logicalLen / tickPod.size ∧
      partTick.recordCount tickPod = partTick.file.logicalLen / tickPod.size ∧
      (∀ i, i < records.length → records[i]? = some (tickPod.fromBytes
        ((partTick.bytes.drop (headerSize + i * tickPod.size)).take tickPod.size))) ∧
      ∀ count, ∃ iter, RecordIter.new.calls .wrapping tickPod partTick count = .ok
          ((records.take count).map some ++ List.replicate (count - records.length) none, iter) ∧
        iter.sizeHint tickPod partTick = (records.length - count, some (records.length - count)) :=
  iterates_slice .wrapping tickPod partTick ⟨by decide, by decide, by decide⟩

end Perfdb.Mmap
