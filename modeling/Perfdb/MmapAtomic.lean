import Mathlib
import Perfdb.MmapRecords

set_option autoImplicit false

namespace Perfdb.Mmap

variable {α : Type}

/-- An open file in front of calls with these outcomes. -/
def Opened.facing (s : Opened) (verdicts : List Verdict) : Opened :=
  { s with files := { s.files with verdicts := verdicts } }

/-- The states of a file in which records have been appended, whatever became of the calls:
appends may have failed or been cut off, and the file opened again. -/
inductive Reachable (overflow : Overflow) (pod : Pod α) (path : String) : Opened → Prop where
  | opened {create : Bool} {files later : Files} {file : MmapFile}
      (blank : files.contents path = none ∨ files.contents path = some [])
      (run : MmapFile.open_ path create files = .ok file later) :
      Reachable overflow pod path ⟨file, later⟩
  | appended {s t : Opened} {record : α} {verdicts : List Verdict} {offset : Nat}
      (before : Reachable overflow pod path s)
      (run : MmapFile.appendRecord overflow pod record (s.facing verdicts) = .ok offset t) :
      Reachable overflow pod path t
  | failed {s t : Opened} {record : α} {verdicts : List Verdict} {reason : PerfDbError}
      (before : Reachable overflow pod path s)
      (run : MmapFile.appendRecord overflow pod record (s.facing verdicts) =
        .error (.error reason) t) :
      Reachable overflow pod path t
  | crashed {s t : Opened} {record : α} {verdicts outcomes : List Verdict} {create : Bool}
      {later : Files} {file : MmapFile} (before : Reachable overflow pod path s)
      (cut : MmapFile.appendRecord overflow pod record (s.facing verdicts) = .error .crash t)
      (run : MmapFile.open_ path create ⟨t.files.contents, outcomes⟩ = .ok file later) :
      Reachable overflow pod path ⟨file, later⟩
  | reopened {s : Opened} {outcomes : List Verdict} {create : Bool} {later : Files}
      {file : MmapFile} (before : Reachable overflow pod path s)
      (run : MmapFile.open_ path create ⟨s.files.contents, outcomes⟩ = .ok file later) :
      Reachable overflow pod path ⟨file, later⟩

section Holding

variable {overflow : Overflow} {pod : Pod α} {path : String} {s : Opened} {records : List α}

def Opened.Keeping (pod : Pod α) (path : String) (records : List α) (s : Opened) : Prop :=
  s.Holds (pod.layOut records) ∧ s.file.path = path

theorem Opened.Keeping.at (keeping : s.Keeping pod path records) (verdicts : List Verdict) :
    (s.facing verdicts).At path s.files.contents (pod.layOut records) := by
  obtain ⟨⟨⟨rest, ⟨contents, size⟩, mapped, within⟩, logicalLen, inside⟩, named⟩ := keeping
  exact ⟨⟨⟨rest, ⟨contents, size⟩, mapped, within⟩, logicalLen, inside⟩, named, fun _ _ => rfl⟩

theorem Opened.At.keeping {before : Contents} (held : s.At path before (pod.layOut records)) :
    s.Keeping pod path records := ⟨held.holds, held.named⟩

theorem appendRecord_triple {before : Contents} (overflow : Overflow) (record : α) :
    Triple (Opened.At path before (pod.layOut records)) (MmapFile.appendRecord overflow pod record)
      (fun offset s => offset = (pod.layOut records).length ∧
        s.At path before (pod.layOut (records ++ [record])))
      (AppendExit path before (pod.layOut records) (pod.bytesOf record)) := by
  refine get_bind fun s held => ?_
  rw [pod.layOut_append_one]
  refine Triple.bind _ (fun t same => append_triple overflow ?_ t (same ▸ held)) fun newLen =>
    Triple.ret fun t appended => ⟨held.holds.logicalLen, appended.2⟩
  rw [pod.bytesOf_length]
  exact pod.bounded

theorem appendRecord_returns {before : Contents} (overflow : Overflow) (record : α) :
    Triple (fun s => s.At path before (pod.layOut records) ∧ s.files.Calm ∧
        (records.length + 1) * pod.size ≤ 2 ^ 61)
      (MmapFile.appendRecord overflow pod record)
      (fun _ s => s.At path before (pod.layOut (records ++ [record])) ∧ s.files.Calm)
      fun _ _ => False := by
  have calm : Triple (fun s : Opened => s.files.Calm ∧
        s.file.logicalLen + (pod.bytesOf record).length ≤ 2 ^ 61)
      (MmapFile.appendRecord overflow pod record) (fun _ s => s.files.Calm)
      (fun fault _ => fault = .panic) := by
    refine get_bind fun s start => Triple.bind (fun _ s => s.files.Calm)
      (fun t same => append_calm overflow t (same ▸ start)) fun _ => Triple.ret fun _ calm => calm
  refine Triple.consequence (calm_returns (appendRecord_triple overflow record) calm
    fun _ stopped => stopped) ?_ (fun _ _ both => ⟨both.1.2, both.2⟩) fun _ _ exit => exit
  rintro s ⟨held, calm, near⟩
  refine ⟨held, calm, ?_⟩
  rwa [held.holds.logicalLen, pod.layOut_length, pod.bytesOf_length, ← Nat.succ_mul]

/-- A file on disk with these records, or without any. -/
theorem stands_reopen {files : Files} {file : MmapFile} {later : Files} {create : Bool}
    {outcomes : List Verdict} (stands : files.Stands path (pod.layOut records))
    (run : MmapFile.open_ path create ⟨files.contents, outcomes⟩ = .ok file later) :
    Opened.Keeping pod path records ⟨file, later⟩ := by
  obtain ⟨rest, contents, size⟩ := stands
  have kept : Files.KeepsAt path files.contents (pod.layOut records) ⟨files.contents, outcomes⟩ :=
    ⟨Or.inl ⟨rest, contents, size⟩, fun _ _ => rfl⟩
  exact ((open_triple create).ok kept run).keeping

theorem Reachable.keeping (reachable : Reachable overflow pod path s) :
    ∃ records, s.Keeping pod path records := by
  induction reachable with
  | opened blank run =>
      rename_i create files later file
      have kept : Files.KeepsAt path files.contents (pod.layOut []) files :=
        ⟨Or.inr ⟨rfl, blank⟩, fun _ _ => rfl⟩
      exact ⟨[], ((open_triple create).ok kept run).keeping⟩
  | appended before run ih =>
      obtain ⟨records, keeping⟩ := ih
      exact ⟨_, ((appendRecord_triple overflow _).ok (keeping.at _) run).2.keeping⟩
  | failed before run ih =>
      obtain ⟨records, keeping⟩ := ih
      have exit := (appendRecord_triple overflow _).error (keeping.at _) run
      exact ⟨records, exit.2.keeping⟩
  | crashed before cut run ih =>
      obtain ⟨records, keeping⟩ := ih
      rcases ((appendRecord_triple overflow _).error (keeping.at _) cut).2 with old | new
      · exact ⟨records, stands_reopen old run⟩
      · rw [← pod.layOut_append_one] at new
        exact ⟨_, stands_reopen new run⟩
  | reopened before run ih =>
      obtain ⟨records, keeping, rfl⟩ := ih
      exact ⟨records, stands_reopen keeping.stands run⟩

end Holding

/-- Opening the file at a path again returns when no call fails, and whenever it returns,
these records are there. -/
structure ReopensTo (overflow : Overflow) (pod : Pod α) (path : String) (contents : Contents)
    (records : List α) : Prop where
  finds : ∀ create outcomes file later,
    MmapFile.open_ path create ⟨contents, outcomes⟩ = .ok file later →
      Opened.asSlice overflow pod ⟨file, later⟩ = .ok records
  returns : ∀ create, ∃ file later, MmapFile.open_ path create ⟨contents, []⟩ = .ok file later

theorem Files.Stands.reopens {overflow : Overflow} {pod : Pod α} {path : String} {files : Files}
    {records : List α} (stands : files.Stands path (pod.layOut records)) :
    ReopensTo overflow pod path files.contents records := by
  refine ⟨fun create outcomes file later run => (stands_reopen stands run).1.asSlice,
    fun create => ?_⟩
  obtain ⟨rest, contents, size⟩ := stands
  have kept : Files.KeepsAt path files.contents (pod.layOut records) ⟨files.contents, []⟩ :=
    ⟨Or.inl ⟨rest, contents, size⟩, fun _ _ => rfl⟩
  have present : (create || (files.contents path).isSome) = true := by
    rw [contents]
    exact Bool.or_true create
  obtain ⟨file, later, run, _⟩ := (open_returns create).total ⟨kept, rfl, present⟩ fun _ _ => id
  exact ⟨file, later, run⟩

/-- What becomes of a file with these records, and of the file on disk, when a record is
appended in front of these outcomes. -/
structure AppendsAtomically (overflow : Overflow) (pod : Pod α) (path : String) (s : Opened)
    (old : List α) (record : α) (verdicts : List Verdict) : Prop where
  before : s.asSlice overflow pod = .ok old
  appended : ∀ offset t,
    MmapFile.appendRecord overflow pod record (s.facing verdicts) = .ok offset t →
      t.asSlice overflow pod = .ok (old ++ [record]) ∧
      ReopensTo overflow pod path t.files.contents (old ++ [record])
  failed : ∀ reason t,
    MmapFile.appendRecord overflow pod record (s.facing verdicts) = .error (.error reason) t →
      t.asSlice overflow pod = .ok old ∧ t.file.logicalLen = s.file.logicalLen ∧
      ReopensTo overflow pod path t.files.contents old
  retried : ∀ reason t later outcomes offset u,
    MmapFile.appendRecord overflow pod record (s.facing verdicts) = .error (.error reason) t →
    MmapFile.appendRecord overflow pod later (t.facing outcomes) = .ok offset u →
      u.asSlice overflow pod = .ok (old ++ [later])
  crashed : ∀ t,
    MmapFile.appendRecord overflow pod record (s.facing verdicts) = .error .crash t →
      ReopensTo overflow pod path t.files.contents old ∨
      ReopensTo overflow pod path t.files.contents (old ++ [record])
  quiet : ∀ t, MmapFile.appendRecord overflow pod record (s.facing verdicts) ≠ .error .panic t

/-- An append of a record to a reachable file adds it, or fails and leaves the records and
the length as they are, so that a later append adds its own record only, or is cut off, and
then the file has the old records, or the new one as well. -/
theorem append_atomic (overflow : Overflow) (pod : Pod α) (path : String) (s : Opened)
    (reachable : Reachable overflow pod path s) (record : α) (verdicts : List Verdict) :
    ∃ old, AppendsAtomically overflow pod path s old record verdicts := by
  obtain ⟨old, keeping⟩ := reachable.keeping
  have start := keeping.at verdicts
  refine ⟨old, keeping.1.asSlice, fun offset t run => ?_, fun reason t run => ?_,
    fun reason t later outcomes offset u run again => ?_, fun t run => ?_, fun t run => ?_⟩
  · obtain ⟨holds, rfl⟩ := ((appendRecord_triple overflow _).ok start run).2.keeping
    exact ⟨holds.asSlice, holds.stands.reopens⟩
  · obtain ⟨holds, rfl⟩ := ((appendRecord_triple overflow _).error start run).2.keeping
    refine ⟨holds.asSlice, ?_, holds.stands.reopens⟩
    rw [holds.logicalLen, keeping.1.logicalLen]
  · have kept := ((appendRecord_triple overflow _).error start run).2.keeping
    exact ((appendRecord_triple overflow _).ok (kept.at outcomes) again).2.holds.asSlice
  · rcases ((appendRecord_triple overflow _).error start run).2 with stands | stands
    · exact Or.inl stands.reopens
    · rw [← pod.layOut_append_one] at stands
      exact Or.inr stands.reopens
  · exact (appendRecord_triple overflow _).error start run

/-- A tick that is cut off before it is in a new file. -/
theorem append_atomic_tick :
    ∃ file later, MmapFile.open_ "market_0000.tick" true ⟨fun _ => none, []⟩ = .ok file later ∧
      ∃ old, AppendsAtomically .wrapping tickPod "market_0000.tick" ⟨file, later⟩ old
        ⟨1000000000, 0, Vector.replicate 6 0, ⟨0x4059000000000000⟩⟩ [.crash 0] := by
  have kept : Files.KeepsAt "market_0000.tick" (fun _ => none) [] ⟨fun _ => none, []⟩ :=
    ⟨Or.inr ⟨rfl, Or.inl rfl⟩, fun _ _ => rfl⟩
  obtain ⟨file, later, run, _⟩ := (open_returns true).total ⟨kept, rfl, rfl⟩ fun _ _ => id
  exact ⟨file, later, run, append_atomic .wrapping tickPod "market_0000.tick" ⟨file, later⟩
    (.opened (Or.inl rfl) run) _ _⟩

end Perfdb.Mmap
