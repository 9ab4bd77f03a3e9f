import Mathlib
import Perfdb.MmapAppend

set_option autoImplicit false

/-! Reads and writes at arbitrary offsets. Offset, length and header size are added in 64 bits
that wrap around, so that a range behind all data can come out in the header. -/

namespace Perfdb.Mmap

/-- Overwrite data at a given offset within the logical data region. Does not extend the
file. -/
def MmapFile.writeAt (overflow : Overflow) (offset : Nat) (data : Bytes) : MmapM Unit := do
  let s ← get
  let stop ← raise (overflow.add offset data.length)
  if s.file.logicalLen < stop then
    raise (.error (.error (.invalidArgument (toString "write_at: offset " ++ toString offset ++
      " + len " ++ toString data.length ++ " exceeds logical len " ++
      toString s.file.logicalLen))))
  else do
    let start ← raise (overflow.add headerSize offset)
    copy overflow start data

namespace Opened

/-- A mapped file as it can be in memory. Its length may be any number. -/
structure Mapped (s : Opened) : Prop where
  header : headerSize ≤ s.file.mapped
  within : s.file.mapped ≤ s.bytes.length
  size : s.bytes.length < 2 ^ 63
  logicalLen : s.file.logicalLen < 2 ^ 64

/-- A read returns the data of a range that is within the logical length, and of no other. -/
structure ReadExact (s : Opened) (offset len : Nat) : Prop where
  found : (∃ bytes, s.readAt .wrapping offset len = .ok (some bytes)) ↔
    offset + len ≤ s.file.logicalLen
  data : ∀ bytes, s.readAt .wrapping offset len = .ok (some bytes) →
    bytes = (s.bytes.drop (headerSize + offset)).take len

/-- A write changes the data of a range that is within the logical length, and nothing else. -/
structure WriteExact (s : Opened) (offset : Nat) (data : Bytes) : Prop where
  written : (∃ t, MmapFile.writeAt .wrapping offset data s = .ok () t) ↔
    offset + data.length ≤ s.file.logicalLen
  changed : ∀ t, MmapFile.writeAt .wrapping offset data s = .ok () t → t.file = s.file ∧
    t.files.contents = Function.update s.files.contents s.file.path
      (some (overwrite (headerSize + offset) data s.bytes))
  header : ∀ t, MmapFile.writeAt .wrapping offset data s = .ok () t →
    t.bytes.take headerSize = s.bytes.take headerSize
  kept : ∀ fault t, MmapFile.writeAt .wrapping offset data s = .error fault t →
    t.file = s.file ∧ t.files.contents = s.files.contents

/-- The end of the range does not wrap around, and is mapped if it is within the logical
length; or it wraps around to behind the logical length, or its start does not. -/
def Tame (s : Opened) (offset len : Nat) : Prop :=
  if offset + len < 2 ^ 64 then
    offset + len ≤ s.file.logicalLen →
      headerSize + offset + len ≤ s.file.mapped ∨ len = 0 ∧ 2 ^ 64 ≤ headerSize + offset
  else
    s.file.logicalLen < offset + len - 2 ^ 64 ∨ headerSize + offset < 2 ^ 64 ∨
      s.file.mapped < headerSize + (offset + len - 2 ^ 64)

/-- The range passes the check and is not mapped. -/
def Unmapped (s : Opened) (offset len : Nat) : Prop :=
  if offset + len < 2 ^ 64 then
    offset + len ≤ s.file.logicalLen ∧ headerSize + offset < 2 ^ 64 ∧
      s.file.mapped < headerSize + offset + len
  else
    offset + len - 2 ^ 64 ≤ s.file.logicalLen ∧
      (headerSize + offset < 2 ^ 64 ∨ s.file.mapped < headerSize + (offset + len - 2 ^ 64))

instance (s : Opened) (offset len : Nat) : Decidable (s.Tame offset len) := by
  unfold Tame
  infer_instance

def rangeStart (offset : Nat) : Nat := (headerSize + offset) % 2 ^ 64

/-- Reads and writes check a range in the same way: it is refused, or found, or it panics. -/
def range (s : Opened) (offset len : Nat) : Except Fault (Option Nat) :=
  if s.file.logicalLen < (offset + len) % 2 ^ 64 then .ok none
  else if rangeStart offset + len ≤ s.file.mapped then .ok (some (rangeStart offset))
  else .error .panic

end Opened

theorem Overflow.add_wrap {a b : Nat} (first : a < 2 ^ 64) (second : b < 2 ^ 64) :
    Overflow.wrapping.add a b = .ok ((a + b) % 2 ^ 64) := by
  by_cases fits : a + b < 2 ^ 64
  · rw [Overflow.add_ok fits, Nat.mod_eq_of_lt fits]
  · have wrapped : a + b - 2 ^ 64 = (a + b) % 2 ^ 64 := by omega
    rw [← wrapped, Overflow.add, if_neg fits]

section Run

variable {σ α β : Type} {s : σ}

theorem run_get (next : σ → EStateM Fault σ β) : (get >>= next) s = next s s := rfl

theorem run_raise {result : Except Fault α} {value : α} (good : result = .ok value)
    (next : α → EStateM Fault σ β) : (raise result >>= next) s = next value s := by
  subst good
  rfl

end Run

section Range

variable {s t : Opened} {offset len : Nat} {data : Bytes}

theorem rangeStart_mapped (mapped : s.Mapped) (second : len < 2 ^ 64) :
    (Opened.rangeStart offset ≤ (Opened.rangeStart offset + len) % 2 ^ 64 ∧
        (Opened.rangeStart offset + len) % 2 ^ 64 ≤ s.file.mapped) ↔
      Opened.rangeStart offset + len ≤ s.file.mapped := by
  have first : Opened.rangeStart offset < 2 ^ 64 := Nat.mod_lt _ (by decide)
  have size := mapped.size
  have within := mapped.within
  omega

theorem readAt_range (mapped : s.Mapped) (first : offset < 2 ^ 64) (second : len < 2 ^ 64) :
    s.readAt .wrapping offset len = (s.range offset len).map fun found =>
      found.map fun start => (s.bytes.drop start).take len := by
  have start : Overflow.wrapping.add headerSize offset = .ok (Opened.rangeStart offset) :=
    Overflow.add_wrap (by decide) first
  have small : Opened.rangeStart offset < 2 ^ 64 := Nat.mod_lt _ (by decide)
  rw [Opened.readAt, Overflow.add_wrap first second, ok_bind, Opened.range]
  by_cases outside : s.file.logicalLen < (offset + len) % 2 ^ 64
  · rw [if_pos outside, if_pos outside]
    rfl
  · rw [if_neg outside, if_neg outside, start, ok_bind, Overflow.add_wrap small second, ok_bind,
      Opened.slice]
    simp only [rangeStart_mapped mapped second]
    by_cases inside : Opened.rangeStart offset + len ≤ s.file.mapped
    · have size := mapped.size
      have within := mapped.within
      have whole : (Opened.rangeStart offset + len) % 2 ^ 64 = Opened.rangeStart offset + len :=
        Nat.mod_eq_of_lt (by omega)
      rw [if_pos inside, if_pos inside, ok_bind, whole, List.drop_take, Nat.add_sub_cancel_left]
      rfl
    · rw [if_neg inside, if_neg inside]
      rfl

theorem writeAt_range (mapped : s.Mapped) (alive : ∀ done, s.files.verdict ≠ .crash done)
    (first : offset < 2 ^ 64) (second : data.length < 2 ^ 64) :
    MmapFile.writeAt .wrapping offset data s =
      match s.range offset data.length with
      | .ok (some start) => .ok () (s.copied start data)
      | .ok none => .error (.error (.invalidArgument (toString "write_at: offset " ++
          toString offset ++ " + len " ++ toString data.length ++ " exceeds logical len " ++
          toString s.file.logicalLen))) s
      | .error fault => .error fault s := by
  have start : Overflow.wrapping.add headerSize offset = .ok (Opened.rangeStart offset) :=
    Overflow.add_wrap (by decide) first
  have small : Opened.rangeStart offset < 2 ^ 64 := Nat.mod_lt _ (by decide)
  rw [MmapFile.writeAt, run_get, run_raise (Overflow.add_wrap first second), Opened.range]
  by_cases outside : s.file.logicalLen < (offset + data.length) % 2 ^ 64
  · rw [if_pos outside, if_pos outside]
    rfl
  · rw [if_neg outside, if_neg outside, run_raise start, copy,
      run_raise (Overflow.add_wrap small second), run_get]
    simp only [rangeStart_mapped mapped second]
    by_cases inside : Opened.rangeStart offset + data.length ≤ s.file.mapped
    · rw [if_pos inside, if_pos inside, onFiles, access]
      cases verdict : s.files.verdict with
      | ok => rfl
      | fail reason => rfl
      | crash done => exact absurd verdict (alive done)
    · rw [if_neg inside, if_neg inside]
      rfl

theorem range_found (checked : (offset + len) % 2 ^ 64 ≤ s.file.logicalLen)
    (inside : Opened.rangeStart offset + len ≤ s.file.mapped) :
    s.range offset len = .ok (some (Opened.rangeStart offset)) := by
  rw [Opened.range, if_neg (Nat.not_lt.mpr checked), if_pos inside]

theorem range_missed (missed : s.file.logicalLen < (offset + len) % 2 ^ 64 ∨
    s.file.mapped < Opened.rangeStart offset + len) (start : Nat) :
    s.range offset len ≠ .ok (some start) := by
  rw [Opened.range]
  split
  · simp
  · rename_i checked
    rw [if_neg (Nat.not_le.mpr (missed.resolve_left checked))]
    simp

theorem range_panics_iff : s.range offset len = .error .panic ↔
    (offset + len) % 2 ^ 64 ≤ s.file.logicalLen ∧
      s.file.mapped < Opened.rangeStart offset + len := by
  rw [Opened.range]
  split
  · rename_i outside
    exact iff_of_false (by simp) fun both => absurd both.1 (Nat.not_le.mpr outside)
  · rename_i checked
    split
    · rename_i inside
      simp [inside]
    · rename_i beyond
      simp only [true_iff]
      exact ⟨Nat.le_of_not_lt checked, Nat.lt_of_not_le beyond⟩

theorem range_cases (mapped : s.Mapped) (first : offset < 2 ^ 64) (second : len < 2 ^ 64) :
    (s.Tame offset len ∧
      ((offset + len ≤ s.file.logicalLen ∧
          ∃ start, s.range offset len = .ok (some start) ∧
            (start = headerSize + offset ∧ start + len ≤ s.bytes.length ∨
              len = 0 ∧ s.bytes.length ≤ headerSize + offset)) ∨
        (s.file.logicalLen < offset + len ∧ ∀ start, s.range offset len ≠ .ok (some start)))) ∨
    (¬ s.Tame offset len ∧
      ((offset + len ≤ s.file.logicalLen ∧ ∀ start, s.range offset len ≠ .ok (some start)) ∨
        (∃ start, s.range offset len = .ok (some start) ∧ 0 < len ∧
          start + len ≤ s.bytes.length ∧ s.bytes.length ≤ headerSize + offset) ∨
        (s.file.logicalLen < offset + len ∧ ∃ start, s.range offset len = .ok (some start)))) := by
  obtain ⟨header, within, size, logicalLen⟩ := mapped
  have eight : headerSize = 8 := rfl
  have start : Opened.rangeStart offset = (headerSize + offset) % 2 ^ 64 := rfl
  by_cases near : offset + len < 2 ^ 64
  · have tame : s.Tame offset len ↔ (offset + len ≤ s.file.logicalLen →
        headerSize + offset + len ≤ s.file.mapped ∨ len = 0 ∧ 2 ^ 64 ≤ headerSize + offset) := by
      rw [Opened.Tame, if_pos near]
    by_cases covered : offset + len ≤ s.file.logicalLen
    · by_cases straight : headerSize + offset < 2 ^ 64
      · by_cases inside : headerSize + offset + len ≤ s.file.mapped
        · exact Or.inl ⟨tame.mpr fun _ => Or.inl inside, Or.inl ⟨covered, _,
            range_found (by omega) (by omega), Or.inl ⟨by omega, by omega⟩⟩⟩
        · exact Or.inr ⟨fun calm => by have := tame.mp calm covered; omega,
            Or.inl ⟨covered, range_missed (Or.inr (by omega))⟩⟩
      · by_cases none : len = 0
        · exact Or.inl ⟨tame.mpr fun _ => Or.inr ⟨none, by omega⟩, Or.inl ⟨covered, _,
            range_found (by omega) (by omega), Or.inr ⟨none, by omega⟩⟩⟩
        · exact Or.inr ⟨fun calm => by have := tame.mp calm covered; omega,
            Or.inr (Or.inl ⟨_, range_found (by omega) (by omega), by omega, by omega, by omega⟩)⟩
    · exact Or.inl ⟨tame.mpr fun inside => absurd inside covered,
        Or.inr ⟨by omega, range_missed (Or.inl (by omega))⟩⟩
  · have tame : s.Tame offset len ↔ (s.file.logicalLen < offset + len - 2 ^ 64 ∨
        headerSize + offset < 2 ^ 64 ∨
          s.file.mapped < headerSize + (offset + len - 2 ^ 64)) := by
      rw [Opened.Tame, if_neg near]
    by_cases behind : s.file.logicalLen < offset + len - 2 ^ 64
    · exact Or.inl ⟨tame.mpr (Or.inl behind),
        Or.inr ⟨by omega, range_missed (Or.inl (by omega))⟩⟩
    · by_cases straight : headerSize + offset < 2 ^ 64
      · exact Or.inl ⟨tame.mpr (Or.inr (Or.inl straight)),
          Or.inr ⟨by omega, range_missed (Or.inr (by omega))⟩⟩
      · by_cases inside : headerSize + (offset + len - 2 ^ 64) ≤ s.file.mapped
        · exact Or.inr ⟨fun calm => by have := tame.mp calm; omega,
            Or.inr (Or.inr ⟨by omega, _, range_found (by omega) (by omega)⟩)⟩
        · exact Or.inl ⟨tame.mpr (Or.inr (Or.inr (by omega))),
            Or.inr ⟨by omega, range_missed (Or.inr (by omega))⟩⟩

theorem range_unmapped_iff (mapped : s.Mapped) (first : offset < 2 ^ 64) (second : len < 2 ^ 64) :
    s.range offset len = .error .panic ↔ s.Unmapped offset len := by
  obtain ⟨header, within, size, logicalLen⟩ := mapped
  have eight : headerSize = 8 := rfl
  have start : Opened.rangeStart offset = (headerSize + offset) % 2 ^ 64 := rfl
  rw [range_panics_iff, Opened.Unmapped]
  split <;> omega

theorem readExact_iff (mapped : s.Mapped) (first : offset < 2 ^ 64) (second : len < 2 ^ 64) :
    s.ReadExact offset len ↔ s.Tame offset len := by
  have read := readAt_range mapped first second
  have bytes_of {start : Nat} (found : s.range offset len = .ok (some start)) :
      s.readAt .wrapping offset len = .ok (some ((s.bytes.drop start).take len)) := by
    rw [read, found]
    rfl
  have found_of {bytes : Bytes} (returned : s.readAt .wrapping offset len = .ok (some bytes)) :
      ∃ start, s.range offset len = .ok (some start) := by
    rw [read] at returned
    cases ranged : s.range offset len with
    | error fault =>
        rw [ranged] at returned
        contradiction
    | ok found =>
        cases found with
        | none =>
            rw [ranged] at returned
            cases Except.ok.inj returned
        | some start => exact ⟨start, rfl⟩
  rcases range_cases mapped first second with
    ⟨tame, ⟨covered, start, found, place⟩ | ⟨outside, missed⟩⟩ |
    ⟨wild, ⟨covered, missed⟩ | ⟨start, found, some, inside, beyond⟩ | ⟨outside, start, found⟩⟩
  · refine iff_of_true ⟨iff_of_true ⟨_, bytes_of found⟩ covered, fun bytes returned => ?_⟩ tame
    rw [bytes_of found] at returned
    obtain rfl := Option.some.inj (Except.ok.inj returned)
    rcases place with ⟨rfl, _⟩ | ⟨rfl, _⟩
    · rfl
    · rw [List.take_zero, List.take_zero]
  · refine iff_of_true ⟨iff_of_false ?_ (Nat.not_le.mpr outside), fun bytes returned => ?_⟩ tame
    · rintro ⟨bytes, returned⟩
      obtain ⟨start, found⟩ := found_of returned
      exact missed start found
    · obtain ⟨start, found⟩ := found_of returned
      exact absurd found (missed start)
  · refine iff_of_false (fun exact => ?_) wild
    obtain ⟨bytes, returned⟩ := exact.found.mpr covered
    obtain ⟨start, found⟩ := found_of returned
    exact missed start found
  · refine iff_of_false (fun exact => ?_) wild
    have length := congrArg List.length (exact.data _ (bytes_of found))
    rw [List.length_take, List.length_take, List.length_drop, List.length_drop] at length
    omega
  · refine iff_of_false (fun exact => ?_) wild
    exact absurd (exact.found.mp ⟨_, bytes_of found⟩) (Nat.not_le.mpr outside)

theorem overwrite_length {start : Nat} {bytes : Bytes} (inside : start + data.length ≤ bytes.length) :
    (overwrite start data bytes).length = bytes.length := by
  rw [overwrite, List.length_append, List.length_append, List.length_take, List.length_drop]
  omega

theorem overwrite_beyond {start : Nat} {bytes : Bytes} (beyond : bytes.length ≤ start) :
    overwrite start data bytes = bytes ++ data := by
  rw [overwrite, List.take_of_length_le beyond, List.drop_eq_nil_of_le (by omega), List.append_nil]

theorem copied_bytes (start : Nat) : (s.copied start data).bytes = overwrite start data s.bytes := by
  rw [Opened.bytes, Files.bytes, Opened.copied, Files.write_contents]
  rfl

theorem overwrite_nil (start : Nat) (bytes : Bytes) : overwrite start [] bytes = bytes := by
  rw [overwrite, List.append_nil, List.length_nil, Nat.add_zero, List.take_append_drop]

theorem overwrite_header (bytes : Bytes) (long : headerSize ≤ bytes.length) :
    (overwrite (headerSize + offset) data bytes).take headerSize = bytes.take headerSize := by
  have front : headerSize ≤ (bytes.take (headerSize + offset)).length := by
    rw [List.length_take]
    omega
  rw [overwrite, List.append_assoc, List.take_append_of_le_length front, List.take_take,
    Nat.min_eq_left (Nat.le_add_right _ _)]

theorem copied_contents (start : Nat) : (s.copied start data).files.contents =
    Function.update s.files.contents s.file.path (some (overwrite start data s.bytes)) := rfl

theorem writeExact_iff (mapped : s.Mapped) (alive : ∀ done, s.files.verdict ≠ .crash done)
    (first : offset < 2 ^ 64) (second : data.length < 2 ^ 64) :
    s.WriteExact offset data ↔ s.Tame offset data.length := by
  have write := writeAt_range mapped alive first second
  have long := mapped.header.trans mapped.within
  have wrote {start : Nat} (found : s.range offset data.length = .ok (some start)) :
      MmapFile.writeAt .wrapping offset data s = .ok () (s.copied start data) := by
    rw [write, found]
  have found_of {t : Opened} (returned : MmapFile.writeAt .wrapping offset data s = .ok () t) :
      ∃ start, s.range offset data.length = .ok (some start) ∧ t = s.copied start data := by
    rw [write] at returned
    split at returned
    · rename_i start found
      exact ⟨start, found, (EStateM.Result.ok.inj returned).2.symm⟩
    · contradiction
    · contradiction
  have kept (fault : Fault) (t : Opened)
      (failed : MmapFile.writeAt .wrapping offset data s = .error fault t) :
      t.file = s.file ∧ t.files.contents = s.files.contents := by
    rw [write] at failed
    split at failed
    · contradiction
    · obtain rfl := (EStateM.Result.error.inj failed).2
      exact ⟨rfl, rfl⟩
    · obtain rfl := (EStateM.Result.error.inj failed).2
      exact ⟨rfl, rfl⟩
  rcases range_cases mapped first second with
    ⟨tame, ⟨covered, start, found, place⟩ | ⟨outside, missed⟩⟩ |
    ⟨wild, ⟨covered, missed⟩ | ⟨start, found, some, inside, beyond⟩ | ⟨outside, start, found⟩⟩
  · have same : overwrite start data s.bytes = overwrite (headerSize + offset) data s.bytes := by
      rcases place with ⟨rfl, _⟩ | ⟨none, _⟩
      · rfl
      · rw [List.length_eq_zero_iff.mp none, overwrite_nil, overwrite_nil]
    refine iff_of_true ⟨iff_of_true ⟨_, wrote found⟩ covered, fun t returned => ?_,
      fun t returned => ?_, kept⟩ tame
    · rw [wrote found] at returned
      obtain rfl := (EStateM.Result.ok.inj returned).2
      exact ⟨rfl, by rw [copied_contents, same]⟩
    · rw [wrote found] at returned
      obtain rfl := (EStateM.Result.ok.inj returned).2
      rw [copied_bytes, same, overwrite_header _ long]
  · have none {t : Opened}
        (returned : MmapFile.writeAt .wrapping offset data s = .ok () t) : False := by
      obtain ⟨start, found, _⟩ := found_of returned
      exact missed start found
    exact iff_of_true ⟨iff_of_false (fun ⟨t, returned⟩ => none returned) (Nat.not_le.mpr outside),
      fun t returned => (none returned).elim, fun t returned => (none returned).elim, kept⟩ tame
  · refine iff_of_false (fun exact => ?_) wild
    obtain ⟨t, returned⟩ := exact.written.mpr covered
    obtain ⟨start, found, _⟩ := found_of returned
    exact missed start found
  · refine iff_of_false (fun exact => ?_) wild
    have contents := congrFun (exact.changed _ (wrote found)).2 s.file.path
    rw [copied_contents, Function.update_self, Function.update_self] at contents
    have length := congrArg List.length (Option.some.inj contents)
    rw [overwrite_length inside, overwrite_beyond beyond, List.length_append] at length
    omega
  · refine iff_of_false (fun exact => ?_) wild
    exact absurd (exact.written.mp ⟨_, wrote found⟩) (Nat.not_le.mpr outside)

theorem readAt_panics_iff (mapped : s.Mapped) (first : offset < 2 ^ 64) (second : len < 2 ^ 64) :
    s.readAt .wrapping offset len = .error .panic ↔ s.Unmapped offset len := by
  rw [← range_unmapped_iff mapped first second, readAt_range mapped first second]
  cases s.range offset len <;> simp [Except.map]

theorem writeAt_panics_iff (mapped : s.Mapped) (alive : ∀ done, s.files.verdict ≠ .crash done)
    (first : offset < 2 ^ 64) (second : data.length < 2 ^ 64) :
    (∃ t, MmapFile.writeAt .wrapping offset data s = .error .panic t) ↔
      s.Unmapped offset data.length := by
  rw [← range_unmapped_iff mapped first second, writeAt_range mapped alive first second]
  split
  · rename_i start found
    simp [found]
  · rename_i found
    simp [found]
  · rename_i fault failed
    simp [failed]

end Range

/-- With sums that wrap around, reads and writes keep to the data of a file exactly where the
range is tame, and they panic exactly where it passes the check and is not mapped. -/
theorem bounds_hold_iff (s : Opened) (mapped : s.Mapped)
    (alive : ∀ done, s.files.verdict ≠ .crash done) (offset len : UInt64) (data : Bytes)
    (size : data.length < 2 ^ 64) :
    (s.ReadExact offset.toNat len.toNat ↔ s.Tame offset.toNat len.toNat) ∧
      (s.WriteExact offset.toNat data ↔ s.Tame offset.toNat data.length) ∧
      (s.readAt .wrapping offset.toNat len.toNat = .error .panic ↔
        s.Unmapped offset.toNat len.toNat) ∧
      ((∃ t, MmapFile.writeAt .wrapping offset.toNat data s = .error .panic t) ↔
        s.Unmapped offset.toNat data.length) :=
  ⟨readExact_iff mapped offset.toNat_lt len.toNat_lt,
    writeExact_iff mapped alive offset.toNat_lt size,
    readAt_panics_iff mapped offset.toNat_lt len.toNat_lt,
    writeAt_panics_iff mapped alive offset.toNat_lt size⟩

def fourBytes : Opened where
  file := ⟨"market_0000.tick", 16, 4, 8⟩
  files := ⟨fun path => if path = "market_0000.tick" then
    some [4, 0, 0, 0, 0, 0, 0, 0, 1, 2, 3, 4, 0, 0, 0, 0] else none, []⟩

theorem fourBytes_mapped : fourBytes.Mapped :=
  ⟨by decide, by decide, by decide, by decide⟩

theorem fourBytes_alive (done : Nat) : fourBytes.files.verdict ≠ .crash done := by
  change Verdict.ok ≠ _
  simp

/-- A range at the end of the data. -/
theorem bounds_hold_iff_tail :
    (fourBytes.ReadExact (2 : UInt64).toNat (2 : UInt64).toNat ↔
        fourBytes.Tame (2 : UInt64).toNat (2 : UInt64).toNat) ∧
      (fourBytes.WriteExact (2 : UInt64).toNat [7, 8] ↔
        fourBytes.Tame (2 : UInt64).toNat [(7 : UInt8), 8].length) ∧
      (fourBytes.readAt .wrapping (2 : UInt64).toNat (2 : UInt64).toNat = .error .panic ↔
        fourBytes.Unmapped (2 : UInt64).toNat (2 : UInt64).toNat) ∧
      ((∃ t, MmapFile.writeAt .wrapping (2 : UInt64).toNat [7, 8] fourBytes = .error .panic t) ↔
        fourBytes.Unmapped (2 : UInt64).toNat [(7 : UInt8), 8].length) :=
  bounds_hold_iff fourBytes fourBytes_mapped fourBytes_alive 2 2 [7, 8] (by decide)

/-- One byte at the last offset is read from the header, and written to it. -/
theorem last_offset_in_header :
    ¬ fourBytes.ReadExact (2 ^ 64 - 1) 1 ∧ ¬ fourBytes.WriteExact (2 ^ 64 - 1) [255] := by
  have wild : ¬ fourBytes.Tame (2 ^ 64 - 1) 1 := by decide
  constructor
  · rwa [readExact_iff fourBytes_mapped (by decide) (by decide)]
  · rwa [writeExact_iff fourBytes_mapped fourBytes_alive (by decide) (by decide)]

end Perfdb.Mmap
