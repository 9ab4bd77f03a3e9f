import Mathlib
import Perfdb.MmapRecords

set_option autoImplicit false

/-! Opening a file of any content. The header is trusted, so that a file is safe to use only
where it is as long as its header says. -/

namespace Perfdb.Mmap

/-- The calls on an open file. -/
inductive Call where
  | len
  | readAt (offset size : UInt64)
  | asSlice {α : Type} (pod : Pod α)
  | iterRecords {α : Type} (pod : Pod α)
  | append (data : Bytes)

/-- A call that only reads. -/
def look {α : Type} (read : Opened → Except Fault α) : MmapM Unit := do
  let s ← get
  let _ ← raise (read s)
  pure ()

namespace Call

def run (overflow : Overflow) : Call → MmapM Unit
  | .len => look fun s => .ok s.file.logicalLen
  | .readAt offset size => look (Opened.readAt overflow offset.toNat size.toNat)
  | .asSlice pod => look (Opened.asSlice overflow pod)
  | .iterRecords pod => look (Opened.iterRecords overflow pod)
  | .append data => do
      let _ ← MmapFile.append overflow data
      pure ()

/-- The state that the next call finds, after a value or an error. -/
def next (overflow : Overflow) (call : Call) (s : Opened) : Option Opened :=
  match call.run overflow s with
  | .ok _ t => some t
  | .error (.error _) t => some t
  | .error .panic _ => none
  | .error .crash _ => none

def Panics (overflow : Overflow) (call : Call) (s : Opened) : Prop :=
  ∃ t, call.run overflow s = .error .panic t

/-- The end of a range to read does not wrap around, or only to behind the data, or the
range begins in the header. -/
def Tame (overflow : Overflow) (logicalLen : Nat) : Call → Prop
  | .readAt offset size => offset.toNat + size.toNat < 2 ^ 64 ∨ overflow = .wrapping ∧
      (logicalLen < offset.toNat + size.toNat - 2 ^ 64 ∨ 2 ^ 64 - 8 ≤ offset.toNat)
  | .len | .asSlice _ | .iterRecords _ | .append _ => True

end Call

/-- Calls in a row, of which none panics. -/
def Unharmed (overflow : Overflow) : List Call → Opened → Prop
  | [], _ => True
  | call :: calls, s => ¬ call.Panics overflow s ∧
      ∀ t, call.next overflow s = some t → Unharmed overflow calls t

/-- Calls in a row, each of which is tame where it is made. -/
def AllTame (overflow : Overflow) : List Call → Opened → Prop
  | [], _ => True
  | call :: calls, s => call.Tame overflow s.file.logicalLen ∧
      ∀ t, call.next overflow s = some t → AllTame overflow calls t

section Sound

variable {overflow : Overflow} {s t : Opened} {payload : Bytes} {call : Call}

theorem look_ok {α : Type} {read : Opened → Except Fault α} {value : α}
    (good : read s = .ok value) : look read s = .ok () s := by
  change (raise (read s) >>= fun _ => pure ()) s = _
  rw [good]
  rfl

theorem look_error {α : Type} {read : Opened → Except Fault α} {fault : Fault}
    (bad : read s = .error fault) : look read s = .error fault s := by
  change (raise (read s) >>= fun _ => pure ()) s = _
  rw [bad]
  rfl

theorem Overflow.add_checked {a b : Nat} (far : 2 ^ 64 ≤ a + b) :
    Overflow.checked.add a b = .error .panic := if_neg (Nat.not_lt.mpr far)

theorem Overflow.add_wrapping {a b : Nat} (far : 2 ^ 64 ≤ a + b) :
    Overflow.wrapping.add a b = .ok (a + b - 2 ^ 64) := if_neg (Nat.not_lt.mpr far)

section Far

variable {offset size : Nat}

/-- What becomes of a range whose end wraps around. -/
theorem Opened.readAt_wrapping (far : 2 ^ 64 ≤ offset + size) :
    s.readAt .wrapping offset size =
      (if s.file.logicalLen < offset + size - 2 ^ 64 then .ok none
      else do
        let start ← Overflow.wrapping.add headerSize offset
        let stop ← Overflow.wrapping.add start size
        let bytes ← s.slice start stop
        pure (some bytes)) := by
  unfold Opened.readAt
  rw [Overflow.add_wrapping far, ok_bind]
  rfl

theorem Opened.Holds.readAt_header (holds : s.Holds payload) (second : size < 2 ^ 64)
    (far : 2 ^ 64 ≤ offset + size) (low : 2 ^ 64 - 8 ≤ offset) (wide : offset < 2 ^ 64) :
    ∃ found, s.readAt .wrapping offset size = .ok found := by
  obtain ⟨⟨rest, ⟨_, long⟩, mapped, within⟩, logicalLen, inside⟩ := holds
  rw [Opened.readAt_wrapping far, logicalLen]
  by_cases absent : payload.length < offset + size - 2 ^ 64
  · exact ⟨none, if_pos absent⟩
  · have start : Overflow.wrapping.add headerSize offset = .ok (8 + offset - 2 ^ 64) :=
      Overflow.add_wrapping (by simp only [headerSize]; omega)
    have stop : Overflow.wrapping.add (8 + offset - 2 ^ 64) size =
        .ok (8 + offset - 2 ^ 64 + size) := Overflow.add_ok (by omega)
    have ordered : 8 + offset - 2 ^ 64 ≤ 8 + offset - 2 ^ 64 + size ∧
        8 + offset - 2 ^ 64 + size ≤ s.file.mapped := by omega
    refine ⟨some ((s.bytes.take (8 + offset - 2 ^ 64 + size)).drop (8 + offset - 2 ^ 64)), ?_⟩
    rw [if_neg absent, start, ok_bind, stop, ok_bind, Opened.slice, if_pos ordered, ok_bind]
    rfl

theorem Opened.Holds.readAt_crossed (holds : s.Holds payload) (wide : size < 2 ^ 64)
    (far : 2 ^ 64 ≤ offset + size) (present : ¬ payload.length < offset + size - 2 ^ 64)
    (high : ¬ 2 ^ 64 - 8 ≤ offset) : s.readAt .wrapping offset size = .error .panic := by
  have logicalLen := holds.logicalLen
  have start : Overflow.wrapping.add headerSize offset = .ok (8 + offset) :=
    Overflow.add_ok (by simp only [headerSize]; omega)
  have stop : Overflow.wrapping.add (8 + offset) size = .ok (8 + offset + size - 2 ^ 64) :=
    Overflow.add_wrapping (by omega)
  have crossed : ¬ (8 + offset ≤ 8 + offset + size - 2 ^ 64 ∧
      8 + offset + size - 2 ^ 64 ≤ s.file.mapped) := by omega
  rw [Opened.readAt_wrapping far, logicalLen, if_neg present, start, ok_bind, stop, ok_bind,
    Opened.slice, if_neg crossed]
  rfl

theorem Opened.readAt_checked (far : 2 ^ 64 ≤ offset + size) :
    s.readAt .checked offset size = .error .panic := by
  unfold Opened.readAt
  rw [Overflow.add_checked far]
  rfl

end Far

/-- A call that only reads a value that is there. -/
theorem look_tame {α : Type} {read : Opened → Except Fault α} {value : α} (holds : s.Holds payload)
    (same : call.run overflow = look read) (good : read s = .ok value) :
    ¬ call.Panics overflow s ∧ ∀ t, call.next overflow s = some t → ∃ later, t.Holds later := by
  have run : call.run overflow s = .ok () s := by
    rw [same]
    exact look_ok good
  refine ⟨?_, fun t found => ?_⟩
  · rintro ⟨t, panics⟩
    rw [run] at panics
    contradiction
  · rw [Call.next, run] at found
    exact ⟨payload, Option.some.inj found ▸ holds⟩

/-- What a call on a file that holds a payload comes to. -/
theorem Opened.Holds.tame (holds : s.Holds payload) (overflow : Overflow) (call : Call)
    (small : ∀ data, call = .append data → data.length < 2 ^ 61) :
    (¬ call.Panics overflow s ↔ call.Tame overflow payload.length) ∧
      ∀ t, call.next overflow s = some t → ∃ later, t.Holds later := by
  cases call with
  | len => exact (look_tame holds rfl rfl).imp_left fun calm => iff_of_true calm trivial
  | asSlice pod =>
      exact (look_tame holds rfl holds.asSlice_eq).imp_left fun calm => iff_of_true calm trivial
  | iterRecords pod =>
      exact (look_tame holds rfl holds.iterRecords_eq).imp_left fun calm => iff_of_true calm trivial
  | readAt offset size =>
      by_cases near : offset.toNat + size.toNat < 2 ^ 64
      · exact (look_tame holds rfl (holds.readAt near)).imp_left fun calm =>
          iff_of_true calm (Or.inl near)
      · have far := Nat.le_of_not_lt near
        have first := offset.toNat_lt
        have second := size.toNat_lt
        have panics (failed : s.readAt overflow offset.toNat size.toNat = .error .panic)
            (wild : ¬ (overflow = .wrapping ∧ (payload.length < offset.toNat + size.toNat - 2 ^ 64 ∨
              2 ^ 64 - 8 ≤ offset.toNat))) :
            (¬ (Call.readAt offset size).Panics overflow s ↔
              (Call.readAt offset size).Tame overflow payload.length) ∧
              ∀ t, (Call.readAt offset size).next overflow s = some t →
                ∃ later, t.Holds later := by
          have run : (Call.readAt offset size).run overflow s = .error .panic s :=
            look_error failed
          refine ⟨iff_of_false (fun calm => calm ⟨s, run⟩) (not_or.mpr ⟨near, wild⟩),
            fun t found => ?_⟩
          rw [Call.next, run] at found
          contradiction
        cases overflow with
        | checked => exact panics (Opened.readAt_checked far) fun wraps => by cases wraps.1
        | wrapping =>
            by_cases absent : payload.length < offset.toNat + size.toNat - 2 ^ 64
            · have read := Opened.readAt_wrapping (s := s) far
              rw [holds.logicalLen, if_pos absent] at read
              exact (look_tame holds rfl read).imp_left fun calm =>
                iff_of_true calm (Or.inr ⟨rfl, Or.inl absent⟩)
            · by_cases low : 2 ^ 64 - 8 ≤ offset.toNat
              · obtain ⟨found, read⟩ := holds.readAt_header second far low first
                exact (look_tame holds rfl read).imp_left fun calm =>
                  iff_of_true calm (Or.inr ⟨rfl, Or.inr low⟩)
              · exact panics (holds.readAt_crossed second far absent low)
                  fun wraps => wraps.2.elim absent low
  | append data =>
      have at_ : s.At s.file.path s.files.contents payload := ⟨holds, rfl, fun _ _ => rfl⟩
      have result := append_triple overflow (small data rfl) s at_
      cases appended : MmapFile.append overflow data s with
      | ok newLen t =>
          rw [appended] at result
          have run : (Call.append data).run overflow s = .ok () t := bind_of_ok appended
          refine ⟨iff_of_true ?_ trivial, fun u found => ?_⟩
          · rintro ⟨u, panics⟩
            cases run.symm.trans panics
          · rw [Call.next, run] at found
            exact ⟨_, Option.some.inj found ▸ result.2.holds⟩
      | error fault t =>
          rw [appended] at result
          have run : (Call.append data).run overflow s = .error fault t := by
            simp only [Call.run, bind, EStateM.bind, appended]
          cases fault with
          | panic => exact result.elim
          | error reason =>
              refine ⟨iff_of_true ?_ trivial, fun u found => ?_⟩
              · rintro ⟨u, panics⟩
                cases run.symm.trans panics
              · rw [Call.next, run] at found
                exact ⟨_, Option.some.inj found ▸ result.2.holds⟩
          | crash =>
              refine ⟨iff_of_true ?_ trivial, fun u found => ?_⟩
              · rintro ⟨u, panics⟩
                cases run.symm.trans panics
              · rw [Call.next, run] at found
                contradiction

theorem unharmed_iff {calls : List Call} (holds : s.Holds payload)
    (small : ∀ data, .append data ∈ calls → data.length < 2 ^ 61) :
    Unharmed overflow calls s ↔ AllTame overflow calls s := by
  induction calls generalizing s payload with
  | nil => exact Iff.rfl
  | cons call calls ih =>
      obtain ⟨here, further⟩ := holds.tame overflow call
        fun data same => small data (same ▸ List.mem_cons_self)
      rw [Unharmed, AllTame, here, holds.logicalLen]
      refine and_congr_right fun _ => forall₂_congr fun t found => ?_
      obtain ⟨later, held⟩ := further t found
      exact ih held fun data member => small data (List.mem_cons_of_mem call member)

end Sound

/-- A file that is empty, or has a header and at least the data it tells of. -/
def Sound (bytes : Bytes) : Prop :=
  bytes = [] ∨ 8 ≤ bytes.length ∧ Bytes.ofLe (bytes.take 8) ≤ bytes.length - 8

instance (bytes : Bytes) : Decidable (Sound bytes) := by
  unfold Sound
  infer_instance

/-- Whatever becomes of its calls, opening a file does not panic, and where it returns, the
length is within the capacity and the calls that follow do not panic. -/
def OpensSafely (overflow : Overflow) (path : String) (create : Bool) (contents : Contents)
    (calls : List Call) : Prop :=
  ∀ outcomes, (∀ later, MmapFile.open_ path create ⟨contents, outcomes⟩ ≠ .error .panic later) ∧
    ∀ file later, MmapFile.open_ path create ⟨contents, outcomes⟩ = .ok file later →
      file.logicalLen ≤ file.capacity ∧
      ∀ verdicts, Unharmed overflow calls ⟨file, ⟨later.contents, verdicts⟩⟩

def FollowedTamely (overflow : Overflow) (path : String) (create : Bool) (contents : Contents)
    (calls : List Call) : Prop :=
  ∀ outcomes file later, MmapFile.open_ path create ⟨contents, outcomes⟩ = .ok file later →
    ∀ verdicts, AllTame overflow calls ⟨file, ⟨later.contents, verdicts⟩⟩

section Open

variable {overflow : Overflow} {path : String} {create : Bool} {contents : Contents} {bytes : Bytes}

theorem Sound.keeps (sound : Sound bytes) (size : bytes.length < 2 ^ 63)
    (present : contents path = some bytes) (outcomes : List Verdict) :
    ∃ payload, Files.KeepsAt path contents payload ⟨contents, outcomes⟩ := by
  rcases sound with rfl | ⟨long, inside⟩
  · exact ⟨[], Or.inr ⟨rfl, Or.inr present⟩, fun _ _ => rfl⟩
  · generalize header : Bytes.ofLe (bytes.take 8) = length at inside
    have eight : (bytes.take 8).length = 8 := List.length_take_of_le long
    have payload : ((bytes.drop 8).take length).length = length := by
      rw [List.length_take, List.length_drop]
      omega
    refine ⟨(bytes.drop 8).take length, Or.inl ⟨(bytes.drop 8).drop length, ?_, ?_⟩,
      fun _ _ => rfl⟩
    · have front : Bytes.le 8 length = bytes.take 8 := by
        have whole := Bytes.le_ofLe (bytes.take 8)
        rwa [eight, header] at whole
      rw [payload, front, List.take_append_drop, List.take_append_drop]
      exact present
    · rw [payload, List.length_drop, List.length_drop]
      omega

/-- The length and the capacity of a file that is not empty come from its bytes; where these
are less than a header, the reading of it panics. -/
theorem open_header (create : Bool) (filled : bytes ≠ []) :
    Triple (Files.Reads path bytes) (MmapFile.open_ path create)
      (fun file _ => 8 ≤ bytes.length ∧ file.logicalLen = Bytes.ofLe (bytes.take 8) ∧
        file.capacity = bytes.length - 8)
      (fun fault _ => bytes.length < 8 ∧ fault = .panic) := by
  have positive : bytes.length ≠ 0 := fun none => filled (List.length_eq_zero_iff.mp none)
  refine Triple.bind (fun _ => Files.Reads path bytes) (call_calm (fun files reads =>
    ⟨reads.calm, by rw [reads.present]; exact Bool.or_true create⟩) fun files reads => ?_) fun _ =>
    Triple.bind _ fileLen_reads fun length => Triple.bind (fun _ files => length = bytes.length ∧
      files.Reads path bytes) ?_ fun _ => ?_
  · refine ⟨reads.calm.served, ?_⟩
    rw [Files.write_contents]
    exact congrArg some reads.served.read
  · rintro files ⟨measured, reads⟩
    rw [MmapFile.allocate, if_neg (measured ▸ positive)]
    exact ⟨measured, reads⟩
  · rintro files ⟨rfl, reads⟩
    refine (Triple.bind _ fileLen_reads fun total => Triple.bind (fun _ files =>
      total = bytes.length ∧ files.Reads path bytes) (call_calm (fun files start =>
        ⟨start.2.calm, rfl⟩) fun files start => ⟨start.1, start.2.served⟩) fun _ =>
      get_bind fun files start => ?_) files reads
    obtain ⟨rfl, reads⟩ := start
    have mapped : Opened.bytes ⟨⟨path, bytes.length, 0, 0⟩, files⟩ = bytes := reads.read
    by_cases long : 8 ≤ bytes.length
    · have whole : 0 ≤ headerSize ∧ headerSize ≤ bytes.length := ⟨Nat.zero_le _, long⟩
      have read : MmapFile.readLength bytes.length ⟨⟨path, bytes.length, 0, 0⟩, files⟩ =
          .ok (Bytes.ofLe (bytes.take 8)) := by
        rw [MmapFile.readLength, if_neg positive, Opened.slice, if_pos whole, mapped]
        rfl
      refine raise_bind read (Triple.ret fun _ _ => ⟨long, rfl, rfl⟩)
    · have short : ¬ (0 ≤ headerSize ∧ headerSize ≤ bytes.length) := fun whole => long whole.2
      have failed : MmapFile.readLength bytes.length ⟨⟨path, bytes.length, 0, 0⟩, files⟩ =
          .error .panic := by
        rw [MmapFile.readLength, if_neg positive, Opened.slice, if_neg short]
        rfl
      rintro _ rfl
      rw [failed]
      exact ⟨Nat.lt_of_not_le long, rfl⟩

theorem open_damaged (create : Bool) (present : contents path = some bytes) (filled : bytes ≠ []) :
    (8 ≤ bytes.length ∧ ∃ file later,
      MmapFile.open_ path create ⟨contents, []⟩ = .ok file later ∧
        file.logicalLen = Bytes.ofLe (bytes.take 8) ∧ file.capacity = bytes.length - 8) ∨
    (bytes.length < 8 ∧ ∃ later,
      MmapFile.open_ path create ⟨contents, []⟩ = .error .panic later) := by
  have result := open_header create filled ⟨contents, []⟩ ⟨rfl, present⟩
  cases run : MmapFile.open_ path create ⟨contents, []⟩ with
  | ok file later =>
      rw [run] at result
      exact Or.inl ⟨result.1, file, later, rfl, result.2⟩
  | error fault later =>
      rw [run] at result
      obtain ⟨short, rfl⟩ := result
      exact Or.inr ⟨short, later, rfl⟩

/-- A file can be used safely exactly when it is sound and the calls that follow are tame. -/
theorem opens_safely_iff (overflow : Overflow) (path : String) (create : Bool)
    (contents : Contents) (bytes : Bytes) (present : contents path = some bytes)
    (size : bytes.length < 2 ^ 63) (calls : List Call)
    (small : ∀ data, .append data ∈ calls → data.length < 2 ^ 61) :
    OpensSafely overflow path create contents calls ↔
      Sound bytes ∧ FollowedTamely overflow path create contents calls := by
  have used (sound : Sound bytes) (outcomes : List Verdict) {file : MmapFile} {later : Files}
      (run : MmapFile.open_ path create ⟨contents, outcomes⟩ = .ok file later)
      (verdicts : List Verdict) :
      file.logicalLen ≤ file.capacity ∧ (Unharmed overflow calls ⟨file, ⟨later.contents, verdicts⟩⟩ ↔
        AllTame overflow calls ⟨file, ⟨later.contents, verdicts⟩⟩) := by
    obtain ⟨payload, kept⟩ := sound.keeps size present outcomes
    obtain ⟨⟨rest, ⟨held, long⟩, mapped, within⟩, logicalLen, inside⟩ :=
      ((open_triple create).ok kept run).holds
    have holds : Opened.Holds ⟨file, ⟨later.contents, verdicts⟩⟩ payload :=
      ⟨⟨rest, ⟨held, long⟩, mapped, within⟩, logicalLen, inside⟩
    exact ⟨logicalLen ▸ inside, unharmed_iff holds small⟩
  constructor
  · intro safe
    have sound : Sound bytes := by
      by_contra damaged
      obtain ⟨filled, short⟩ := not_or.mp damaged
      obtain ⟨calm, within⟩ := safe []
      rcases open_damaged create present filled with ⟨long, file, later, run, length, capacity⟩ |
        ⟨_, later, run⟩
      · have inside := (within file later run).1
        rw [length, capacity] at inside
        exact short ⟨long, inside⟩
      · exact calm later run
    exact ⟨sound, fun outcomes file later run verdicts =>
      (used sound outcomes run verdicts).2.mp (((safe outcomes).2 file later run).2 verdicts)⟩
  · rintro ⟨sound, tame⟩ outcomes
    refine ⟨fun later run => ?_, fun file later run => ⟨(used sound outcomes run []).1,
      fun verdicts => (used sound outcomes run verdicts).2.mpr (tame outcomes file later run _)⟩⟩
    obtain ⟨payload, kept⟩ := sound.keeps size present outcomes
    exact (open_triple create).error kept run

end Open

/-- Two files: one of three bytes, and one of twelve whose header tells of four. -/
def twoFiles : Contents := fun path =>
  if path = "market_0000.tick" then some [1, 2, 3]
  else if path = "market_0001.tick" then some [4, 0, 0, 0, 0, 0, 0, 0, 1, 2, 3, 4]
  else none

/-- The longer file, and a read of its data behind an append. -/
theorem opens_safely_iff_twelve :
    OpensSafely .wrapping "market_0001.tick" false twoFiles [.append [5], .readAt 0 5] ↔
      Sound [4, 0, 0, 0, 0, 0, 0, 0, 1, 2, 3, 4] ∧
        FollowedTamely .wrapping "market_0001.tick" false twoFiles [.append [5], .readAt 0 5] := by
  refine opens_safely_iff .wrapping "market_0001.tick" false twoFiles
    [4, 0, 0, 0, 0, 0, 0, 0, 1, 2, 3, 4] (by decide) (by decide) [.append [5], .readAt 0 5] ?_
  rintro data member
  rcases List.mem_cons.mp member with same | other
  · cases same
    decide
  · cases List.mem_singleton.mp other

/-- Opening the shorter file panics. -/
theorem three_bytes_panic : ¬ OpensSafely .wrapping "market_0000.tick" false twoFiles [] := by
  intro safe
  have present : twoFiles "market_0000.tick" = some [1, 2, 3] := by decide
  rcases open_damaged false present (by decide) with ⟨long, _⟩ | ⟨_, later, run⟩
  · contradiction
  · exact (safe []).1 later run

end Perfdb.Mmap
